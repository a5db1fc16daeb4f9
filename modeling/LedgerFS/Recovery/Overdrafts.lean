import LedgerFS.Recovery.LedgerMeaning

/-!
# Overdrafts

A debit fails where the new balance leaves the range of an amount, and the recovery warns
of insufficient funds there.  The sign of the new balance is not looked at: a balance of
1000 that is debited 2000 is -1000, and no error is counted.  An overdraft is reported
only if it goes below the smallest amount there is, and a clean history stays at or
above zero only if no account pays others more than it has (`overdrafts_iff`).
-/

namespace LedgerFS.Recovery

open LedgerFS.Core
open LedgerFS.EventStore
open LedgerFS.Library

/-- A transaction takes more than the balance of the known account it is paid from. -/
structure Overdraft (balances : Balances) (e : EventEnvelope)
    (event : TransactionProcessedEvent) (a : AccountId) (balance : Int) : Prop where
  isTransaction : e.eventData = .transactionProcessed event
  paidBy : event.fromAccount = some a
  known : balances a = some balance
  positive : 0 < event.amount.value.toInt
  short : balance < event.amount.value.toInt

/-- The debit of an overdraft counts an error. -/
def OverdraftReported (r : Replay) (e : EventEnvelope) : Prop :=
  ∀ event a balance, Overdraft r.values e event a balance →
    (r.debited event).errors = r.errors + 1

/-- An overdraft goes below the smallest amount there is. -/
def OverdraftUnderflows (balances : Balances) (e : EventEnvelope) : Prop :=
  ∀ event a balance, Overdraft balances e event a balance →
    balance - event.amount.value.toInt < -2 ^ 63

/-- A payment from a known account to another one is at most its balance. -/
def PaysOthersWithin (balances : Balances) (e : EventEnvelope) : Prop :=
  ∀ event a balance, e.eventData = .transactionProcessed event →
    event.fromAccount = some a → event.toAccount ≠ some a → balances a = some balance →
    event.amount.value.toInt ≤ balance

/-- The balance an event sets, or the amount it moves, is not negative. -/
def NonNegativeEvent (e : EventEnvelope) : Prop :=
  match e.eventData with
  | .accountCreated event => 0 ≤ event.initialBalance.value.toInt
  | .balanceUpdated event => 0 ≤ event.newBalance.value.toInt
  | .transactionProcessed event => 0 ≤ event.amount.value.toInt
  | _ => True

/-- No known account is below zero. -/
def Solvent (balances : Balances) : Prop := ∀ a balance, balances a = some balance → 0 ≤ balance

/-- No known account is below zero after any of the events. -/
def NeverBelowZero (events : List EventEnvelope) : Prop :=
  ∀ before, before <+: events → Solvent (Replay.run before).values

/-! ## One debit -/

/-- **When an overdraft is reported**: where it leaves the range. -/
theorem overdraftReported_iff (r : Replay) (e : EventEnvelope) :
    OverdraftReported r e ↔ OverdraftUnderflows r.values e := by
  refine forall_congr' fun event => forall_congr' fun a => forall_congr' fun balance => ?_
  refine imp_congr_right fun hOverdraft => ?_
  have hFits : LegFits r.values event.fromAccount (-event.amount.value.toInt) ↔
      InI64 (balance + -event.amount.value.toInt) := by
    rw [hOverdraft.paidBy, legFits_some, hOverdraft.known]
    simp
  have hAmount := Replay.inI64_value event.amount
  have hPositive := hOverdraft.positive
  have hShort := hOverdraft.short
  rcases r.debited_cases event with ⟨hIn, hSame, -⟩ | ⟨hOut, hMore⟩
  · rw [hFits] at hIn
    unfold InI64 at hIn
    omega
  · rw [hFits] at hOut
    unfold InI64 at hOut hAmount
    omega

/-! ## One event of a clean history -/

theorem setTo_of_transaction {e : EventEnvelope} {event : TransactionProcessedEvent}
    (h : e.eventData = .transactionProcessed event) (a : AccountId) : setTo a e = none := by
  rw [setTo, h]

theorem nonneg_of_setTo {e : EventEnvelope} (hEvent : NonNegativeEvent e) {a : AccountId}
    {value : Int} (hSet : setTo a e = some value) : 0 ≤ value := by
  unfold NonNegativeEvent at hEvent
  unfold setTo at hSet
  cases hData : e.eventData with
  | accountCreated event =>
      rw [hData] at hEvent hSet
      obtain ⟨-, hValue⟩ := Option.ite_none_right_eq_some.mp hSet
      cases hValue
      exact hEvent
  | balanceUpdated event =>
      rw [hData] at hEvent hSet
      obtain ⟨-, hValue⟩ := Option.ite_none_right_eq_some.mp hSet
      cases hValue
      exact hEvent
  | _ =>
      rw [hData] at hSet
      cases hSet

/-- What an account pays is covered by what it has and what it is paid. -/
theorem paidFrom_le {balances : Balances} {e : EventEnvelope} (hEvent : NonNegativeEvent e)
    (hWithin : PaysOthersWithin balances e) {a : AccountId} {balance : Int}
    (hKnown : balances a = some balance) (hNotNegative : 0 ≤ balance) :
    paidFrom a e ≤ balance + paidTo a e := by
  unfold NonNegativeEvent at hEvent
  unfold paidFrom paidTo legOf
  cases hData : e.eventData with
  | transactionProcessed event =>
      rw [hData] at hEvent
      have hEnough := fun hFrom hTo => hWithin event a balance hData hFrom hTo hKnown
      by_cases hFrom : event.fromAccount = some a
      · by_cases hTo : event.toAccount = some a
        · simp only [hFrom, hTo, if_true]
          omega
        · simp only [hFrom, hTo, if_true, if_false, Int.add_zero]
          exact hEnough hFrom hTo
      · simp only [hFrom, if_false]
        split <;> omega
  | _ =>
      show (0 : Int) ≤ balance + 0
      omega

/-- **Step**: nobody is below zero after an event exactly if it pays no others more than
there is. -/
theorem solvent_exactStep_iff {balances : Balances} {e : EventEnvelope}
    (hEvent : NonNegativeEvent e) (hSolvent : Solvent balances) :
    Solvent (exactStep balances e) ↔ PaysOthersWithin balances e := by
  constructor
  · intro hAfter event a balance hTransaction hFrom hTo hKnown
    have hStep := exactStep_apply balances e a
    rw [setTo_of_transaction hTransaction, hKnown] at hStep
    have hLeft := hAfter a _ hStep
    simp only [paidTo, paidFrom, hTransaction, legOf, if_neg hTo, if_pos hFrom] at hLeft
    omega
  · intro hWithin a balance hStep
    rw [exactStep_apply] at hStep
    cases hSet : setTo a e with
    | some value =>
        rw [hSet, Option.some_or] at hStep
        cases hStep
        exact nonneg_of_setTo hEvent hSet
    | none =>
        rw [hSet, Option.none_or] at hStep
        obtain ⟨earlier, hKnown, rfl⟩ := Option.map_eq_some_iff.mp hStep
        have hCovered := paidFrom_le hEvent hWithin hKnown (hSolvent a earlier hKnown)
        omega

/-! ## Whole histories -/

theorem neverBelowZero_concat (events : List EventEnvelope) (last : EventEnvelope) :
    NeverBelowZero (events ++ [last]) ↔
      NeverBelowZero events ∧ Solvent (Replay.run (events ++ [last])).values := by
  unfold NeverBelowZero
  simp only [List.prefix_concat_iff, or_imp, forall_and, forall_eq]
  exact and_comm

/-- The last event of a clean history fits as well. -/
theorem clean_concat_iff (events : List EventEnvelope) (last : EventEnvelope) :
    (Replay.run (events ++ [last])).errors = 0 ↔
      (Replay.run events).errors = 0 ∧ LegsFit (Replay.run events).values last := by
  have hStep : Replay.run (events ++ [last]) = (Replay.run events).step last :=
    List.foldl_concat ..
  rw [hStep]
  by_cases hFits : LegsFit (Replay.run events).values last
  · rw [(replay_follows.fits _ _ hFits).1]
    simp only [hFits, and_true]
  · have hMore := replay_follows.fails _ _ hFits
    simp only [hFits, and_false, iff_false]
    omega

/-- **One event of a clean history**: nobody is below zero after it exactly if it pays no
others more than there is. -/
theorem solvent_concat_iff {events : List EventEnvelope} {last : EventEnvelope}
    (hLast : NonNegativeEvent last) (hClean : (Replay.run (events ++ [last])).errors = 0)
    (hSolvent : Solvent (Replay.run events).values) :
    Solvent (Replay.run (events ++ [last])).values ↔
      PaysOthersWithin (Replay.run events).values last := by
  rw [← solvent_exactStep_iff hLast hSolvent, run_values _ hClean,
    run_values _ ((clean_concat_iff events last).mp hClean).1, balanceAfter, List.foldl_concat]
  rfl

theorem neverBelowZero_nil : NeverBelowZero [] := by
  intro before hBefore a balance hKnown
  rw [List.prefix_nil.mp hBefore] at hKnown
  cases hKnown

/-- **Run**: a clean history stays at or above zero exactly if each of its events pays no
others more than there is. -/
theorem neverBelowZero_iff {events : List EventEnvelope}
    (hEvents : ∀ e ∈ events, NonNegativeEvent e) (hClean : (Replay.run events).errors = 0) :
    NeverBelowZero events ↔
      AtEach (fun before e => PaysOthersWithin (Replay.run before).values e) events := by
  induction events using List.reverseRecOn with
  | nil => exact iff_of_true neverBelowZero_nil (atEach_nil _)
  | append_singleton events last ih =>
      obtain ⟨hEarlier, hLast⟩ := List.forall_mem_append.mp hEvents
      rw [neverBelowZero_concat, atEach_concat,
        ← ih hEarlier ((clean_concat_iff events last).mp hClean).1]
      refine and_congr_right fun hNever => ?_
      exact solvent_concat_iff (hLast last List.mem_cons_self) hClean
        (hNever events (List.prefix_refl events))

/-- A payment that fits is within the balance, if an overdraft would not fit. -/
theorem paysOthersWithin_of_fits {balances : Balances} {e : EventEnvelope}
    (hEvent : NonNegativeEvent e) (hSolvent : Solvent balances) (hFits : LegsFit balances e)
    (hUnderflows : OverdraftUnderflows balances e) : PaysOthersWithin balances e := by
  intro event a balance hTransaction hFrom hTo hKnown
  have hAmount : 0 ≤ event.amount.value.toInt := by
    rw [NonNegativeEvent, hTransaction] at hEvent
    exact hEvent
  have hDebit : LegFits balances event.fromAccount (-event.amount.value.toInt) := by
    rw [LegsFit, hTransaction] at hFits
    exact hFits.1
  rw [hFrom, legFits_some] at hDebit
  have hIn := hDebit balance hKnown
  have hNotNegative := hSolvent a balance hKnown
  unfold InI64 at hIn
  by_contra hMore
  have hShort := hUnderflows event a balance
    ⟨hTransaction, hFrom, hKnown, by omega, by omega⟩
  omega

/-- **Run**: if each overdraft would go below the smallest amount, a clean history has
none. -/
theorem neverBelowZero_of_underflows {events : List EventEnvelope}
    (hUnderflows : AtEach (fun before e => OverdraftUnderflows (Replay.run before).values e)
      events)
    (hEvents : ∀ e ∈ events, NonNegativeEvent e) (hClean : (Replay.run events).errors = 0) :
    NeverBelowZero events := by
  induction events using List.reverseRecOn with
  | nil => exact neverBelowZero_nil
  | append_singleton events last ih =>
      obtain ⟨hEarlier, hLast⟩ := List.forall_mem_append.mp hEvents
      obtain ⟨hCleanBefore, hFits⟩ := (clean_concat_iff events last).mp hClean
      rw [atEach_concat] at hUnderflows
      have hNever := ih hUnderflows.1 hEarlier hCleanBefore
      have hSolvent := hNever events (List.prefix_refl events)
      rw [neverBelowZero_concat]
      refine ⟨hNever, (solvent_concat_iff (hLast last List.mem_cons_self) hClean hSolvent).mpr ?_⟩
      exact paysOthersWithin_of_fits (hLast last List.mem_cons_self) hSolvent hFits hUnderflows.2

/-- **When overdrafts are reported**: exactly where each goes below the smallest amount
there is, and then no clean history is ever below zero.  Without that, a clean history is
never below zero exactly if no account pays others more than it has. -/
theorem overdrafts_iff (events : List EventEnvelope) :
    ((AtEach (fun before e => OverdraftReported (Replay.run before) e) events ∧
        ((∀ e ∈ events, NonNegativeEvent e) → (Replay.run events).errors = 0 →
          NeverBelowZero events)) ↔
      AtEach (fun before e => OverdraftUnderflows (Replay.run before).values e) events) ∧
    ((∀ e ∈ events, NonNegativeEvent e) → (Replay.run events).errors = 0 →
      (NeverBelowZero events ↔
        AtEach (fun before e => PaysOthersWithin (Replay.run before).values e) events)) := by
  refine ⟨?_, neverBelowZero_iff⟩
  have hReported : AtEach (fun before e => OverdraftReported (Replay.run before) e) events ↔
      AtEach (fun before e => OverdraftUnderflows (Replay.run before).values e) events := by
    simp only [overdraftReported_iff]
  constructor
  · intro h
    exact hReported.mp h.1
  · intro hUnderflows
    exact ⟨hReported.mpr hUnderflows, neverBelowZero_of_underflows hUnderflows⟩

/-- An account is created with 1000 and pays 2000 to one that is not known. -/
theorem overdraft_unreported :
    (¬ ∀ events, AtEach (fun before e => OverdraftReported (Replay.run before) e) events) ∧
      ¬ ∀ events, (∀ e ∈ events, NonNegativeEvent e) → (Replay.run events).errors = 0 →
        NeverBelowZero events := by
  let a : AccountId := ⟨Uuid.fromU128 0⟩
  let b : AccountId := ⟨Uuid.fromU128 1⟩
  let created := createTestEnvelope a ⟨Uuid.fromU128 1⟩ newYear2026.time
  let transfer := createTransfer a b ⟨2000⟩
  have hAfter : (Replay.run [created, transfer]).values a = some (-1000) := by decide +kernel
  constructor
  · intro hAlways
    have hReported := hAlways [created, transfer] [created] transfer [] rfl
    have hMore := hReported _ a 1000
      { isTransaction := rfl
        paidBy := rfl
        known := by decide +kernel
        positive := by decide
        short := by decide }
    revert hMore
    decide +kernel
  · intro hAlways
    have hEvents : ∀ e ∈ [created, transfer], NonNegativeEvent e := by
      intro e he
      rcases List.mem_pair.mp he with rfl | rfl
      · show (0 : Int) ≤ 1000
        decide
      · show (0 : Int) ≤ 2000
        decide
    have hClean : (Replay.run [created, transfer]).errors = 0 := by decide +kernel
    have hSolvent := hAlways _ hEvents hClean _ (List.prefix_refl _) a _ hAfter
    omega

end LedgerFS.Recovery
