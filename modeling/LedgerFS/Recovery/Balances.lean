import LedgerFS.Library.CheckedReplay
import LedgerFS.Recovery.Coverage

/-!
# Recorded balances

`balanceAfter` is what the balances come to: the value an account was created with or
last set to, with the later credits added and the later debits taken off, as integers.
The replay of a recovery computes just that, as long as no leg leaves the range of an
amount, and counts an error exactly where one does (`replay_follows`).

It adopts the new balance of a snapshot and never looks at the old one.  So a recorded
balance that contradicts the replayed one is not reported: a clean verdict means that the
amounts stay in range and that the timestamps do not decrease, and nothing more
(`clean_iff`, `clean_verdict_iff`).
-/

namespace LedgerFS.Recovery

open LedgerFS.Core
open LedgerFS.EventStore
open LedgerFS.Library

/-! ## Exact balances -/

/-- The balance of each account that is known. -/
abbrev Balances : Type := AccountId → Option Int

/-- The change of one account by one leg. -/
def legOf (a : AccountId) (account : Option AccountId) (change : Int) : Int :=
  if account = some a then change else 0

/-- One event, in unbounded arithmetic. -/
def exactStep (balances : Balances) (e : EventEnvelope) : Balances :=
  match e.eventData with
  | .accountCreated event =>
      Function.update balances event.accountId (some event.initialBalance.value.toInt)
  | .balanceUpdated event =>
      Function.update balances event.accountId (some event.newBalance.value.toInt)
  | .transactionProcessed event => fun a =>
      (balances a).map fun balance =>
        balance - legOf a event.fromAccount event.amount.value.toInt +
          legOf a event.toAccount event.amount.value.toInt
  | _ => balances

/-- The balances after some events. -/
def balanceAfter (events : List EventEnvelope) : Balances :=
  events.foldl exactStep fun _ => none

/-- A leg on a known account leaves the balance in range. -/
def LegFits (balances : Balances) (account : Option AccountId) (change : Int) : Prop :=
  ∀ a ∈ account, ∀ balance ∈ balances a, InI64 (balance + change)

theorem legFits_none (balances : Balances) (change : Int) : LegFits balances none change := by
  intro a ha
  cases ha

theorem legFits_some {balances : Balances} {a : AccountId} {change : Int} :
    LegFits balances (some a) change ↔ ∀ balance ∈ balances a, InI64 (balance + change) := by
  constructor
  · intro h
    exact h a rfl
  · intro h b hb
    cases hb
    exact h

/-- Both legs stay in range, the credit after the debit. -/
def LegsFit (balances : Balances) (e : EventEnvelope) : Prop :=
  match e.eventData with
  | .transactionProcessed event =>
      LegFits balances event.fromAccount (-event.amount.value.toInt) ∧
        LegFits
          (fun a => (balances a).map fun balance =>
            balance - legOf a event.fromAccount event.amount.value.toInt)
          event.toAccount event.amount.value.toInt
  | _ => True

/-- A snapshot of a known account records the balance it had. -/
def SnapshotAgrees (before : List EventEnvelope) (e : EventEnvelope) : Prop :=
  match e.eventData with
  | .balanceUpdated event =>
      ∀ balance ∈ balanceAfter before event.accountId, event.oldBalance.value.toInt = balance
  | _ => True

/-- A snapshot of a known account records another balance than it had. -/
def contradicts (before : List EventEnvelope) (e : EventEnvelope) : Bool :=
  match e.eventData with
  | .balanceUpdated event =>
      (balanceAfter before event.accountId).any fun balance =>
        event.oldBalance.value.toInt != balance
  | _ => false

theorem contradicts_eq_false_iff (before : List EventEnvelope) (e : EventEnvelope) :
    contradicts before e = false ↔ SnapshotAgrees before e := by
  unfold contradicts SnapshotAgrees
  cases e.eventData with
  | balanceUpdated event =>
      cases hBalance : balanceAfter before event.accountId <;> simp [hBalance]
  | _ => simp

/-- The snapshots that contradict, after some events before. -/
def contradictions : List EventEnvelope → List EventEnvelope → Nat
  | _, [] => 0
  | before, e :: events =>
      (if contradicts before e then 1 else 0) + contradictions (before ++ [e]) events

/-- There are none exactly when all snapshots agree. -/
theorem contradictions_eq_zero_iff (before events : List EventEnvelope) :
    contradictions before events = 0 ↔
      AtEach (fun earlier e => SnapshotAgrees (before ++ earlier) e) events := by
  induction events generalizing before with
  | nil => exact iff_of_true rfl (atEach_nil _)
  | cons e events ih =>
      have hHere : (if contradicts before e then 1 else 0) = 0 ↔ SnapshotAgrees before e := by
        rw [← contradicts_eq_false_iff]
        cases contradicts before e <;> simp
      rw [contradictions, Nat.add_eq_zero_iff, hHere, ih, atEach_cons, List.append_nil]
      simp only [List.append_assoc, List.singleton_append]

/-! ## The replay -/

namespace Replay

/-- The replay does not look at the seeds of the tag maps. -/
theorem step_rehash (r : Replay) (hs : Hashers) (e : EventEnvelope) :
    r.step (e.rehash hs) = r.step e := by
  unfold step EventEnvelope.rehash LedgerEvent.rehash
  cases e.eventData <;> rfl

/-- The balances of a replay, as integers. -/
def values (r : Replay) : Balances := fun a =>
  (r.balances a).map fun balance => balance.value.toInt

theorem values_insert (r : Replay) (a : AccountId) (balance : Amount) :
    (r.insert a balance).values =
      Function.update r.values a (some balance.value.toInt) := by
  funext b
  by_cases hb : b = a
  · subst hb
    simp [values, insert]
  · simp [values, insert, hb]

theorem leg_of_unknown {r : Replay} {a : AccountId} (h : r.balances a = none)
    (change : Amount → Except LedgerError Amount) : r.leg change (some a) = r := by
  rw [leg, h]

theorem leg_of_ok {r : Replay} {a : AccountId} {balance newBalance : Amount}
    (h : r.balances a = some balance) {change : Amount → Except LedgerError Amount}
    (hOk : change balance = .ok newBalance) : r.leg change (some a) = r.insert a newBalance := by
  rw [leg, h]
  simp only [hOk]

theorem leg_of_error {r : Replay} {a : AccountId} {balance : Amount}
    (h : r.balances a = some balance) {change : Amount → Except LedgerError Amount}
    {error : LedgerError} (hError : change balance = .error error) :
    r.leg change (some a) = { r with errors := r.errors + 1 } := by
  rw [leg, h]
  simp only [hError]

/-- Only the account of a leg is changed by it. -/
theorem map_legOf (values : Balances) (a : AccountId) (delta : Int) :
    (fun b => (values b).map fun balance => balance + legOf b (some a) delta) =
      Function.update values a ((values a).map fun balance => balance + delta) := by
  funext b
  by_cases hb : b = a
  · subst hb
    simp [legOf]
  · simp [legOf, hb, Ne.symm hb]

/-- **A leg** adds the change to the balance, or counts an error where that leaves the
range. -/
theorem leg_cases (r : Replay) {change : Amount → Except LedgerError Amount} (delta : Int)
    (hChange : ∀ balance : Amount,
      (InI64 (balance.value.toInt + delta) ∧
        ∃ c, change balance = .ok c ∧ c.value.toInt = balance.value.toInt + delta) ∨
      (¬ InI64 (balance.value.toInt + delta) ∧ ∃ error, change balance = .error error))
    (account : Option AccountId) :
    (LegFits r.values account delta ∧ (r.leg change account).errors = r.errors ∧
        (r.leg change account).values =
          fun a => (r.values a).map fun balance => balance + legOf a account delta) ∨
      (¬ LegFits r.values account delta ∧ (r.leg change account).errors = r.errors + 1) := by
  cases account with
  | none =>
      refine Or.inl ⟨legFits_none _ _, rfl, ?_⟩
      simp [leg, legOf]
  | some a =>
      rw [legFits_some, map_legOf]
      cases hKnown : r.balances a with
      | none =>
          have hValue : r.values a = none := by rw [values, hKnown]; rfl
          rw [leg_of_unknown hKnown, hValue]
          refine Or.inl ⟨by simp, rfl, ?_⟩
          rw [Option.map_none, ← hValue, Function.update_eq_self]
      | some balance =>
          have hValue : r.values a = some balance.value.toInt := by rw [values, hKnown]; rfl
          rw [hValue]
          rcases hChange balance with ⟨hIn, c, hOk, hSum⟩ | ⟨hOut, error, hError⟩
          · rw [leg_of_ok hKnown hOk, values_insert, hSum]
            exact Or.inl ⟨by simpa using hIn, rfl, rfl⟩
          · rw [leg_of_error hKnown hError]
            exact Or.inr ⟨fun h => hOut (h _ rfl), rfl⟩

/-- The debit of a transaction. -/
def debited (r : Replay) (event : TransactionProcessedEvent) : Replay :=
  r.leg (fun currentBalance => currentBalance.subtract event.amount) event.fromAccount

/-- The credit of a transaction. -/
def credited (r : Replay) (event : TransactionProcessedEvent) : Replay :=
  r.leg (fun currentBalance => currentBalance.add event.amount) event.toAccount

theorem debited_cases (r : Replay) (event : TransactionProcessedEvent) :
    (LegFits r.values event.fromAccount (-event.amount.value.toInt) ∧
        (r.debited event).errors = r.errors ∧
        (r.debited event).values = fun a => (r.values a).map fun balance =>
          balance - legOf a event.fromAccount event.amount.value.toInt) ∨
      (¬ LegFits r.values event.fromAccount (-event.amount.value.toInt) ∧
        (r.debited event).errors = r.errors + 1) := by
  have hNeg (a : AccountId) : legOf a event.fromAccount (-event.amount.value.toInt) =
      -legOf a event.fromAccount event.amount.value.toInt := by
    unfold legOf
    split <;> rfl
  have hLeg := r.leg_cases (-event.amount.value.toInt) (fun balance => by
    rw [← Int.sub_eq_add_neg]
    rcases balance.subtract_cases event.amount with hIn | ⟨hOut, hError⟩
    · exact Or.inl hIn
    · exact Or.inr ⟨hOut, _, hError⟩) event.fromAccount
  simp only [hNeg, ← Int.sub_eq_add_neg] at hLeg
  exact hLeg

theorem credited_cases (r : Replay) (event : TransactionProcessedEvent) :
    (LegFits r.values event.toAccount event.amount.value.toInt ∧
        (r.credited event).errors = r.errors ∧
        (r.credited event).values = fun a => (r.values a).map fun balance =>
          balance + legOf a event.toAccount event.amount.value.toInt) ∨
      (¬ LegFits r.values event.toAccount event.amount.value.toInt ∧
        (r.credited event).errors = r.errors + 1) :=
  r.leg_cases event.amount.value.toInt (fun balance => by
    rcases balance.add_cases event.amount with hIn | ⟨hOut, hError⟩
    · exact Or.inl hIn
    · exact Or.inr ⟨hOut, _, hError⟩) event.toAccount

end Replay

/-- A transaction is its debit and then its credit. -/
theorem step_of_transaction (r : Replay) {e : EventEnvelope} {event : TransactionProcessedEvent}
    (h : e.eventData = .transactionProcessed event) :
    r.step e = (r.debited event).credited event := by
  rw [Replay.step, h]
  rfl

/-- **Step**: an event that fits is replayed exactly, and one that does not is
counted. -/
theorem replay_follows :
    Follows Replay.step exactStep Replay.values Replay.errors LegsFit := by
  constructor
  · intro r e hFits
    unfold LegsFit at hFits
    unfold exactStep
    cases hEvent : e.eventData with
    | accountCreated event =>
        rw [Replay.step, hEvent]
        exact ⟨rfl, r.values_insert _ _⟩
    | balanceUpdated event =>
        rw [Replay.step, hEvent]
        exact ⟨rfl, r.values_insert _ _⟩
    | transactionProcessed event =>
        rw [hEvent] at hFits
        rw [step_of_transaction r hEvent]
        rcases r.debited_cases event with ⟨-, hSame, hValues⟩ | ⟨hOut, -⟩
        · rcases (r.debited event).credited_cases event with ⟨-, hSame', hValues'⟩ | ⟨hOut, -⟩
          · refine ⟨hSame'.trans hSame, hValues'.trans ?_⟩
            simp only [hValues, Option.map_map]
            rfl
          · rw [hValues] at hOut
            exact absurd hFits.2 hOut
        · exact absurd hFits.1 hOut
    | _ =>
        rw [Replay.step, hEvent]
        exact ⟨rfl, rfl⟩
  · intro r e hNot
    unfold LegsFit at hNot
    cases hEvent : e.eventData with
    | transactionProcessed event =>
        rw [hEvent] at hNot
        rw [step_of_transaction r hEvent]
        rcases r.debited_cases event with ⟨hFits, hSame, hValues⟩ | ⟨-, hMore⟩
        · rcases (r.debited event).credited_cases event with ⟨hFits', -, -⟩ | ⟨-, hMore'⟩
          · rw [hValues] at hFits'
            exact absurd ⟨hFits, hFits'⟩ hNot
          · omega
        · rcases (r.debited event).credited_cases event with ⟨-, hSame', -⟩ | ⟨-, hMore'⟩ <;> omega
    | _ =>
        rw [hEvent] at hNot
        exact absurd trivial hNot

/-- **Run**: the replay counts no error exactly when all legs stay in range. -/
theorem run_errors_eq_zero_iff (events : List EventEnvelope) :
    (Replay.run events).errors = 0 ↔
      AtEach (fun before e => LegsFit (balanceAfter before) e) events :=
  replay_follows.errors_eq_iff Replay.empty events

/-- The balances a clean replay ends with are the exact ones. -/
theorem run_values (events : List EventEnvelope) (h : (Replay.run events).errors = 0) :
    (Replay.run events).values = balanceAfter events :=
  replay_follows.values_eq Replay.empty events h

/-! ## The verdict -/

section Verdict

variable {C : Crates} {store : EventStore} (kindText : Bincode.ErrorKind → String)
  (timeText : DateTime → String) {env : RecoveryEnv} {db : RocksDb}

/-- **What a recovery counts** as inconsistent below the cap: the errors of the replay and
the setbacks. -/
theorem errors_of_stored (hQuiet : env.Quiet) (options : RecoveryOptions)
    (hCap : db.contents.size ≤ 1000) {stored : CallEnv → List EventEnvelope}
    (hStored : ∀ pass, StoredEvents C store pass db.contents (stored pass)) :
    ∃ stats, recover C store kindText timeText env options db = .ok stats ∧
      stats.consistencyErrors = (Replay.run (stored env.balances)).errors +
        setbacks (stored env.balances) none := by
  refine ⟨_, recover_of_stored kindText timeText hQuiet options hStored, ?_⟩
  have hAll (pass : CallEnv) : (stored pass).take 1000 = stored pass := by
    rw [List.take_eq_self_iff, length_of_stored (hStored pass)]
    exact hCap
  have hTimes := timestamps_eq_of_stored (hStored env.temporal) (hStored env.balances)
  show (Replay.run ((stored env.balances).take 1000)).errors +
    setbacks ((stored env.temporal).take 1000) none = _
  rw [hAll, hAll, setbacks_eq_of_timestamps hTimes]

/-- **What a clean verdict means**: all legs stay in range and the timestamps do not
decrease. -/
theorem clean_iff (hQuiet : env.Quiet) (options : RecoveryOptions)
    (hCap : db.contents.size ≤ 1000) {stored : CallEnv → List EventEnvelope}
    (hStored : ∀ pass, StoredEvents C store pass db.contents (stored pass)) :
    ∃ stats, recover C store kindText timeText env options db = .ok stats ∧
      (stats.consistencyErrors = 0 ↔
        AtEach (fun before e => LegsFit (balanceAfter before) e) (stored env.balances) ∧
          Chronological (stored env.balances)) := by
  obtain ⟨stats, hOk, hErrors⟩ := errors_of_stored kindText timeText hQuiet options hCap hStored
  refine ⟨stats, hOk, ?_⟩
  rw [hErrors, Nat.add_eq_zero_iff, run_errors_eq_zero_iff, setbacks_eq_zero_iff]
  simp

end Verdict

/-- A clean verdict means that all snapshots agree, and each that contradicts the replayed
balance is counted, beside the errors of the replay and the setbacks. -/
structure ReportsBalances (stats : RecoveryStats) (events : List EventEnvelope) : Prop where
  sound : stats.consistencyErrors = 0 → AtEach SnapshotAgrees events
  reported : (Replay.run events).errors + setbacks events none + contradictions [] events ≤
    stats.consistencyErrors

/-- **When the verdict is about the recorded balances**: for a store in reach of the scans,
where a record cannot be read, so that there is no verdict; or where no snapshot contradicts
the replayed balance. -/
theorem clean_verdict_iff (C : Crates) (store : EventStore)
    (kindText : Bincode.ErrorKind → String) (timeText : DateTime → String) (env : RecoveryEnv)
    (hQuiet : env.Quiet) (options : RecoveryOptions) (db : RocksDb)
    (hCap : db.contents.size ≤ 1000) :
    (∀ stats events, recover C store kindText timeText env options db = .ok stats →
        StoredEvents C store env.balances db.contents events →
        ReportsBalances stats events) ↔
      (∃ record ∈ db.contents.toList, ¬ Readable C store record) ∨
        ∃ events, StoredEvents C store env.balances db.contents events ∧
          AtEach SnapshotAgrees events := by
  by_cases hReadable : ∀ record ∈ db.contents.toList, Readable C store record
  · obtain ⟨stored, hStored⟩ := exists_stored_of_readable hReadable
    obtain ⟨stats, hOk, hErrors⟩ := errors_of_stored kindText timeText hQuiet options hCap hStored
    constructor
    · intro hAlways
      refine Or.inr ⟨_, hStored env.balances, ?_⟩
      have hReported := (hAlways stats _ hOk (hStored _)).reported
      exact (contradictions_eq_zero_iff [] _).mp (by omega)
    · rintro hCases stats' events hOk' hEvents
      cases hOk.symm.trans hOk'
      cases hEvents.unique (hStored env.balances)
      rcases hCases with ⟨record, hMem, hNot⟩ | ⟨events', hEvents', hAgrees⟩
      · exact absurd (hReadable record hMem) hNot
      · cases hEvents.unique hEvents'
        have hNone := (contradictions_eq_zero_iff [] _).mpr hAgrees
        exact ⟨fun _ => hAgrees, by omega⟩
  · apply iff_of_true
    · intro stats events hOk
      have hReach := readable_of_recover kindText timeText hQuiet hOk
      rw [List.take_of_length_le (by rw [Std.ExtTreeMap.length_toList]; omega)] at hReach
      exact absurd hReach hReadable
    · obtain ⟨record, hMem, hNot⟩ : ∃ record ∈ db.contents.toList, ¬ Readable C store record := by
        simpa only [not_forall, exists_prop] using hReadable
      exact Or.inl ⟨record, hMem, hNot⟩

/-- A snapshot that sets an account from an old balance to 900, at the beginning
of 2026. -/
def createSnapshot (accountId : AccountId) (oldBalance : Amount) : EventEnvelope :=
  EventEnvelope.new ⟨Uuid.fromU128 2⟩ newYear2026.time accountId.uuid.toText 2
    (.balanceUpdated
      { accountId := accountId
        oldBalance := oldBalance
        newBalance := ⟨900⟩
        currency := Currency.usd
        transactionId := none
        updatedAt := newYear2026.time })
    EventMetadata.default

/-- A store with an account created with 1000 and a snapshot of it. -/
theorem exists_snapshot_history (a : AccountId) (oldBalance : Amount) :
    let created := createTestEnvelope a ⟨Uuid.fromU128 1⟩ newYear2026.time
    let snapshot := createSnapshot a oldBalance
    ∃ h : History, Reachable Crates.sample (new .default) DistinctIds .empty h ∧
      h.appended = [created, snapshot] ∧ h.db.contents.size = 2 ∧
      ∀ pass, ∃ hs hs', StoredEvents Crates.sample (new .default) pass h.db.contents
        [created.rehash hs, snapshot.rehash hs'] := by
  intro created snapshot
  have hIds : ([created, snapshot].map EventEnvelope.eventId).Nodup := by
    show [(⟨Uuid.fromU128 1⟩ : EventId), ⟨Uuid.fromU128 2⟩].Nodup
    decide
  obtain ⟨h, hReach, hAppended⟩ := exists_history_of_appends Crates.sample_lz4Encodes
    (new .default) (nodup_keys_of_ids hIds)
  have hBefore : KeyBefore created snapshot := by
    rw [KeyBefore, generateEventKey_lt_iff]
    refine Or.inr ⟨rfl, ?_⟩
    show compare (Uuid.fromU128 1).bytes (Uuid.fromU128 2).bytes = .lt
    decide
  have hSize : h.db.contents.size = 2 := by
    rw [hReach.size_eq, ← h.appended_perm.length_eq, hAppended]
    rfl
  refine ⟨h, hReach, hAppended, hSize, fun pass => ?_⟩
  obtain ⟨stored, hStored, hReread⟩ := exists_stored_in_order
    Crates.sample_timeTextReadsBack Crates.sample_lz4DecodesBack hReach
    (hAppended ▸ h.appended_perm.symm) (List.pairwise_pair.mpr hBefore) pass
  obtain ⟨_, rest, ⟨hs, rfl⟩, hRest, rfl⟩ := List.forall₂_cons_right_iff.mp hReread
  obtain ⟨_, rest, ⟨hs', rfl⟩, hNil, rfl⟩ := List.forall₂_cons_right_iff.mp hRest
  cases hNil
  exact ⟨hs, hs', hStored⟩

/-- The snapshot agrees when its old balance is the one the account was created with. -/
theorem snapshot_agrees_iff (a : AccountId) (oldBalance : Amount) (hs hs' : Hashers) :
    AtEach SnapshotAgrees [(createTestEnvelope a ⟨Uuid.fromU128 1⟩ newYear2026.time).rehash hs,
        (createSnapshot a oldBalance).rehash hs'] ↔ oldBalance.value.toInt = 1000 := by
  let created := createTestEnvelope a ⟨Uuid.fromU128 1⟩ newYear2026.time
  let snapshot := createSnapshot a oldBalance
  have hBalance : balanceAfter [created.rehash hs] a = some 1000 := by
    show Function.update (fun _ => none : Balances) a (some 1000) a = some 1000
    exact Function.update_self ..
  have hLast : SnapshotAgrees [created.rehash hs] (snapshot.rehash hs') ↔
      oldBalance.value.toInt = 1000 := by
    show (∀ balance ∈ balanceAfter [created.rehash hs] a, oldBalance.value.toInt = balance) ↔ _
    rw [hBalance]
    simp
  show AtEach SnapshotAgrees ([created.rehash hs] ++ [snapshot.rehash hs']) ↔ _
  rw [atEach_concat, hLast, and_iff_right]
  show AtEach SnapshotAgrees ([] ++ [created.rehash hs])
  rw [atEach_concat]
  exact ⟨atEach_nil _, trivial⟩

/-- The legs fit and the timestamps do not decrease, whatever the snapshot records. -/
theorem snapshot_unnoticed (a : AccountId) (oldBalance : Amount) (hs hs' : Hashers) :
    let events := [(createTestEnvelope a ⟨Uuid.fromU128 1⟩ newYear2026.time).rehash hs,
      (createSnapshot a oldBalance).rehash hs']
    AtEach (fun before e => LegsFit (balanceAfter before) e) events ∧ Chronological events := by
  intro events
  refine ⟨?_, List.pairwise_pair.mpr (le_refl newYear2026.time)⟩
  intro before e after hSplit
  have hMem : e ∈ events := by
    rw [hSplit]
    exact List.mem_append_right _ List.mem_cons_self
  rcases List.mem_pair.mp hMem with rfl | rfl <;> exact trivial

/-- An account created with 1000 and a snapshot that agrees. -/
theorem clean_verdict_test :
    let a : AccountId := ⟨Uuid.fromU128 0⟩
    ∃ (h : History) (stats : RecoveryStats) (events : List EventEnvelope),
      h.appended = [createTestEnvelope a ⟨Uuid.fromU128 1⟩ newYear2026.time,
        createSnapshot a ⟨1000⟩] ∧
      recover Crates.sample (new .default) (fun _ => "") (fun _ => "") (.still newYear2026)
        .default h.db = .ok stats ∧
      StoredEvents Crates.sample (new .default) .quiet h.db.contents events ∧
      events.length = 2 ∧ ReportsBalances stats events := by
  intro a
  obtain ⟨h, hReach, hAppended, hSize, hStored⟩ := exists_snapshot_history a ⟨1000⟩
  obtain ⟨hs, hs', hEvents⟩ := hStored .quiet
  have hCap : h.db.contents.size ≤ 1000 := by omega
  obtain ⟨stored, hEach⟩ := exists_stored_of_readable
    (readable_of_decodeAll (decodeAll_eq_ok hEvents))
  have hOk := recover_of_stored (fun _ => "") (fun _ => "")
    (RecoveryEnv.still_quiet newYear2026) .default hEach
  refine ⟨h, _, _, hAppended, hOk, hEvents, rfl, ?_⟩
  exact (clean_verdict_iff Crates.sample (new .default) (fun _ => "") (fun _ => "")
    (.still newYear2026) (RecoveryEnv.still_quiet _) .default h.db hCap).mpr
    (Or.inr ⟨_, hEvents, (snapshot_agrees_iff a ⟨1000⟩ hs hs').mpr rfl⟩) _ _ hOk hEvents

/-- An account created with 1000 and a snapshot that says it had 5: the verdict is
clean. -/
theorem clean_verdict_wrong :
    ¬ ∀ (h : History) (stats : RecoveryStats) (events : List EventEnvelope),
      Reachable Crates.sample (new .default) DistinctIds .empty h →
      h.db.contents.size ≤ 1000 →
      (∀ e ∈ events, e.timestamp.InNanosRange) →
      recover Crates.sample (new .default) (fun _ => "") (fun _ => "") (.still newYear2026)
        .default h.db = .ok stats →
      stats.consistencyErrors = 0 →
      StoredEvents Crates.sample (new .default) .quiet h.db.contents events →
      AtEach SnapshotAgrees events := by
  intro hAlways
  let a : AccountId := ⟨Uuid.fromU128 0⟩
  obtain ⟨h, hReach, -, hSize, hAll⟩ := exists_snapshot_history a ⟨5⟩
  obtain ⟨hs, hs', hEvents⟩ := hAll .quiet
  have hCap : h.db.contents.size ≤ 1000 := by omega
  obtain ⟨stored, hStored⟩ := exists_stored_of_readable
    (readable_of_decodeAll (decodeAll_eq_ok hEvents))
  obtain ⟨stats, hOk, hClean⟩ := clean_iff (fun _ => "") (fun _ => "")
    (RecoveryEnv.still_quiet newYear2026) .default hCap hStored
  have hSame : stored .quiet = _ := (hStored .quiet).unique hEvents
  have hZero : stats.consistencyErrors = 0 := by
    apply hClean.mpr
    show AtEach _ (stored .quiet) ∧ Chronological (stored .quiet)
    rw [hSame]
    exact snapshot_unnoticed a ⟨5⟩ hs hs'
  have hRange : ∀ e ∈ [(createTestEnvelope a ⟨Uuid.fromU128 1⟩ newYear2026.time).rehash hs,
      (createSnapshot a ⟨5⟩).rehash hs'], e.timestamp.InNanosRange := by
    intro e he
    rcases List.mem_pair.mp he with rfl | rfl
    · show newYear2026.time.InNanosRange
      decide
    · show newYear2026.time.InNanosRange
      decide
  have hAgrees := hAlways h stats _ hReach hCap hRange hOk hZero hEvents
  have hNot : (⟨5⟩ : Amount).value.toInt ≠ 1000 := by decide
  exact hNot ((snapshot_agrees_iff a ⟨5⟩ hs hs').mp hAgrees)

end LedgerFS.Recovery
