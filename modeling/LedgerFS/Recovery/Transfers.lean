import LedgerFS.Library.Totals
import LedgerFS.Recovery.Balances

/-!
# Transfers

A transaction between two known accounts is a debit and a credit.  The replay tries each
leg by itself, and where one would leave the range of an amount it counts an error and
goes on with the other.  So a transfer moves the amount, or does nothing, exactly when
both legs fit or neither does (`transfer_moves_iff`).  Where one leg fits alone it is
booked alone, and the total of all balances changes.
-/

namespace LedgerFS.Recovery

open LedgerFS.Core
open LedgerFS.EventStore
open LedgerFS.Library

/-- The event is replayed exactly, or nothing changes and an error is counted; the known
balances have the same total before and after. -/
def MovesOrNothing (r : Replay) (e : EventEnvelope) : Prop :=
  ((r.step e).values = exactStep r.values e ∨
      ((r.step e).values = r.values ∧ r.errors < (r.step e).errors)) ∧
    ∃ total, SumsTo r.values total ∧ SumsTo (r.step e).values total

/-! ## Known balances have a total -/

namespace Replay

theorem exists_total_insert {r : Replay} (h : ∃ total, SumsTo r.values total) (a : AccountId)
    (balance : Amount) : ∃ total, SumsTo (r.insert a balance).values total := by
  obtain ⟨total, hTotal⟩ := h
  rw [values_insert]
  exact ⟨_, hTotal.update a balance.value.toInt⟩

theorem exists_total_leg {r : Replay} (h : ∃ total, SumsTo r.values total)
    (change : Amount → Except LedgerError Amount) (account : Option AccountId) :
    ∃ total, SumsTo (r.leg change account).values total := by
  cases account with
  | none => exact h
  | some a =>
      cases hKnown : r.balances a with
      | none => rwa [leg_of_unknown hKnown]
      | some balance =>
          cases hChange : change balance with
          | error error =>
              rw [leg_of_error hKnown hChange]
              exact h
          | ok newBalance =>
              rw [leg_of_ok hKnown hChange]
              exact exists_total_insert h a newBalance

/-- **Step**: there are finitely many known accounts. -/
theorem exists_total_step {r : Replay} (h : ∃ total, SumsTo r.values total)
    (e : EventEnvelope) : ∃ total, SumsTo (r.step e).values total := by
  unfold step
  cases e.eventData with
  | accountCreated event => exact exists_total_insert h _ _
  | balanceUpdated event => exact exists_total_insert h _ _
  | transactionProcessed event => exact exists_total_leg (exists_total_leg h _ _) _ _
  | _ => exact h

/-- **Run**: the known balances of a replay have a total. -/
theorem exists_total (events : List EventEnvelope) :
    ∃ total, SumsTo (run events).values total := by
  induction events using List.reverseRecOn with
  | nil => exact ⟨0, sumsTo_none⟩
  | append_singleton events e ih =>
      rw [run, List.foldl_concat]
      exact exists_total_step ih e

/-! ## The legs -/

theorem inI64_value (amount : Amount) : InI64 amount.value.toInt :=
  ⟨amount.value.le_toInt, amount.value.toInt_lt⟩

/-- What is out of range differs from what is in range. -/
theorem ne_of_out {m n : Int} (hIn : InI64 n) (hOut : ¬ InI64 m) : m ≠ n := by
  rintro rfl
  exact hOut hIn

theorem values_of_known {r : Replay} {a : AccountId} {balance : Amount}
    (h : r.balances a = some balance) : r.values a = some balance.value.toInt := by
  rw [values, h]
  rfl

/-- The debit of a known account books the new balance or counts an error. -/
theorem debited_of_known {r : Replay} {event : TransactionProcessedEvent} {a : AccountId}
    {balance : Amount} (hFrom : event.fromAccount = some a)
    (hKnown : r.balances a = some balance) :
    (InI64 (balance.value.toInt - event.amount.value.toInt) ∧
        ∃ c : Amount, c.value.toInt = balance.value.toInt - event.amount.value.toInt ∧
          r.debited event = r.insert a c) ∨
      (¬ InI64 (balance.value.toInt - event.amount.value.toInt) ∧
        r.debited event = { r with errors := r.errors + 1 }) := by
  unfold debited
  rw [hFrom]
  rcases balance.subtract_cases event.amount with ⟨hIn, c, hOk, hValue⟩ | ⟨hOut, hError⟩
  · exact Or.inl ⟨hIn, c, hValue, leg_of_ok hKnown hOk⟩
  · exact Or.inr ⟨hOut, leg_of_error hKnown hError⟩

/-- So does the credit. -/
theorem credited_of_known {r : Replay} {event : TransactionProcessedEvent} {b : AccountId}
    {balance : Amount} (hTo : event.toAccount = some b)
    (hKnown : r.balances b = some balance) :
    (InI64 (balance.value.toInt + event.amount.value.toInt) ∧
        ∃ c : Amount, c.value.toInt = balance.value.toInt + event.amount.value.toInt ∧
          r.credited event = r.insert b c) ∨
      (¬ InI64 (balance.value.toInt + event.amount.value.toInt) ∧
        r.credited event = { r with errors := r.errors + 1 }) := by
  unfold credited
  rw [hTo]
  rcases balance.add_cases event.amount with ⟨hIn, c, hOk, hValue⟩ | ⟨hOut, hError⟩
  · exact Or.inl ⟨hIn, c, hValue, leg_of_ok hKnown hOk⟩
  · exact Or.inr ⟨hOut, leg_of_error hKnown hError⟩

end Replay

/-! ## A transfer -/

section Transfer

variable {r : Replay} {e : EventEnvelope} {event : TransactionProcessedEvent}
  {a b : AccountId} {x y : Amount}

theorem exactStep_between {balances : Balances} {x y : Int}
    (hEvent : e.eventData = .transactionProcessed event) (hFrom : event.fromAccount = some a)
    (hTo : event.toAccount = some b) (hne : a ≠ b) (hx : balances a = some x)
    (hy : balances b = some y) :
    exactStep balances e =
      Function.update (Function.update balances a (some (x - event.amount.value.toInt))) b
        (some (y + event.amount.value.toInt)) := by
  unfold exactStep
  rw [hEvent]
  funext c
  by_cases hb : c = b
  · subst hb
    simp [legOf, hFrom, hTo, hy, hne]
  · by_cases ha : c = a
    · subst ha
      simp [legOf, hFrom, hTo, hx, hne, hne.symm]
    · simp [legOf, hFrom, hTo, ha, hb, Ne.symm ha, Ne.symm hb]

/-- What an account sends itself it has already. -/
theorem exactStep_self {balances : Balances}
    (hEvent : e.eventData = .transactionProcessed event) (hFrom : event.fromAccount = some a)
    (hTo : event.toAccount = some a) : exactStep balances e = balances := by
  unfold exactStep
  rw [hEvent]
  funext c
  simp [hFrom, hTo]

/-- Nothing changes, and the total stays. -/
theorem movesOrNothing_of_same (hTotal : ∃ total, SumsTo r.values total)
    (hSame : (r.step e).values = r.values) (hMore : r.errors < (r.step e).errors) :
    MovesOrNothing r e := by
  obtain ⟨total, hTotal⟩ := hTotal
  exact ⟨Or.inr ⟨hSame, hMore⟩, total, hTotal, hSame ▸ hTotal⟩

/-- A single leg changes the total. -/
theorem not_movesOrNothing_of_leg {c : AccountId} {balance newBalance : Int}
    (hKnown : r.values c = some balance)
    (hLeg : (r.step e).values = Function.update r.values c (some newBalance))
    (hChanged : newBalance ≠ balance) : ¬ MovesOrNothing r e := by
  rintro ⟨-, total, hBefore, hAfter⟩
  rw [hLeg] at hAfter
  exact hChanged (hBefore.eq_of_update hKnown hAfter)

/-- **Between two accounts**: the legs have to go the same way. -/
theorem movesOrNothing_between (hTotal : ∃ total, SumsTo r.values total)
    (hEvent : e.eventData = .transactionProcessed event) (hFrom : event.fromAccount = some a)
    (hTo : event.toAccount = some b) (hne : a ≠ b) (hx : r.balances a = some x)
    (hy : r.balances b = some y) :
    MovesOrNothing r e ↔
      (InI64 (x.value.toInt - event.amount.value.toInt) ↔
        InI64 (y.value.toInt + event.amount.value.toInt)) := by
  have hStep := step_of_transaction r hEvent
  have hxIn := Replay.inI64_value x
  have hyIn := Replay.inI64_value y
  have hxValue := Replay.values_of_known hx
  have hyValue := Replay.values_of_known hy
  rcases Replay.debited_of_known hFrom hx with ⟨hDebit, c, hc, hDebited⟩ | ⟨hDebit, hDebited⟩
  · have hyAfter : (r.insert a c).balances b = some y :=
      (Function.update_of_ne hne.symm _ _).trans hy
    rw [hDebited] at hStep
    rcases Replay.credited_of_known hTo hyAfter with
      ⟨hCredit, d, hd, hCredited⟩ | ⟨hCredit, hCredited⟩
    · -- Both legs are booked.
      apply iff_of_true _ (iff_of_true hDebit hCredit)
      have hExact := exactStep_between hEvent hFrom hTo hne hxValue hyValue
      have hValues : (r.step e).values = exactStep r.values e := by
        rw [hStep, hCredited, Replay.values_insert, Replay.values_insert, hc, hd, hExact]
      obtain ⟨total, hTotal⟩ := hTotal
      refine ⟨Or.inl hValues, total, hTotal, ?_⟩
      rw [hValues, hExact]
      exact hTotal.transfer hne hxValue hyValue _
    · -- The debit is booked alone.
      apply iff_of_false
      · apply not_movesOrNothing_of_leg hxValue
        · rw [hStep, hCredited]
          exact r.values_insert a c
        · have hMoved := Replay.ne_of_out hyIn hCredit
          omega
      · exact fun h => hCredit (h.mp hDebit)
  · rw [hDebited] at hStep
    rcases Replay.credited_of_known (r := { r with errors := r.errors + 1 }) hTo hy with
      ⟨hCredit, d, hd, hCredited⟩ | ⟨hCredit, hCredited⟩
    · -- The credit is booked alone.
      apply iff_of_false
      · apply not_movesOrNothing_of_leg hyValue
        · rw [hStep, hCredited]
          exact Replay.values_insert _ b d
        · have hMoved := Replay.ne_of_out hxIn hDebit
          omega
      · exact fun h => hDebit (h.mpr hCredit)
    · -- Neither is.
      apply iff_of_true _ (iff_of_false hDebit hCredit)
      rw [hCredited] at hStep
      apply movesOrNothing_of_same hTotal
      · rw [hStep]
        rfl
      · rw [hStep]
        show r.errors < r.errors + 1 + 1
        omega

/-- **To oneself**: the debit has to fit, and then the credit takes it back. -/
theorem movesOrNothing_self (hTotal : ∃ total, SumsTo r.values total)
    (hEvent : e.eventData = .transactionProcessed event) (hFrom : event.fromAccount = some a)
    (hTo : event.toAccount = some a) (hx : r.balances a = some x) :
    MovesOrNothing r e ↔ InI64 (x.value.toInt - event.amount.value.toInt) := by
  have hStep := step_of_transaction r hEvent
  have hxIn := Replay.inI64_value x
  have hxValue := Replay.values_of_known hx
  rcases Replay.debited_of_known hFrom hx with ⟨hDebit, c, hc, hDebited⟩ | ⟨hDebit, hDebited⟩
  · apply iff_of_true _ hDebit
    have hcAfter : (r.insert a c).balances a = some c := Function.update_self ..
    rw [hDebited] at hStep
    rcases Replay.credited_of_known hTo hcAfter with ⟨-, d, hd, hCredited⟩ | ⟨hCredit, -⟩
    · have hBack : d.value.toInt = x.value.toInt := by omega
      have hValues : (r.step e).values = r.values := by
        rw [hStep, hCredited, Replay.values_insert, Replay.values_insert, Function.update_idem,
          hBack, ← hxValue, Function.update_eq_self]
      obtain ⟨total, hTotal⟩ := hTotal
      refine ⟨Or.inl (hValues.trans (exactStep_self hEvent hFrom hTo).symm), total, hTotal, ?_⟩
      rwa [hValues]
    · rw [hc, Int.sub_add_cancel] at hCredit
      exact absurd hxIn hCredit
  · apply iff_of_false _ hDebit
    rw [hDebited] at hStep
    rcases Replay.credited_of_known (r := { r with errors := r.errors + 1 }) hTo hx with
      ⟨-, d, hd, hCredited⟩ | ⟨hCredit, -⟩
    · apply not_movesOrNothing_of_leg hxValue
      · rw [hStep, hCredited]
        exact Replay.values_insert _ a d
      · have hMoved := Replay.ne_of_out hxIn hDebit
        omega
    · -- An amount cannot leave the range both ways.
      have hAmount := Replay.inI64_value event.amount
      unfold InI64 at hxIn hAmount hDebit hCredit
      omega

end Transfer

/-- **When a transfer moves money or does nothing**: from an account to itself where the
debit fits, and between two where both legs fit or neither does. -/
theorem transfer_moves_iff (before : List EventEnvelope) (e : EventEnvelope)
    (event : TransactionProcessedEvent) (a b : AccountId) (x y : Amount)
    (hEvent : e.eventData = .transactionProcessed event) (hFrom : event.fromAccount = some a)
    (hTo : event.toAccount = some b) (hx : (Replay.run before).balances a = some x)
    (hy : (Replay.run before).balances b = some y) :
    MovesOrNothing (Replay.run before) e ↔
      (a = b ∧ InI64 (x.value.toInt - event.amount.value.toInt)) ∨
        (a ≠ b ∧ (InI64 (x.value.toInt - event.amount.value.toInt) ↔
          InI64 (y.value.toInt + event.amount.value.toInt))) := by
  have hTotal := Replay.exists_total before
  by_cases hab : a = b
  · subst hab
    rw [movesOrNothing_self hTotal hEvent hFrom hTo hx]
    simp
  · rw [movesOrNothing_between hTotal hEvent hFrom hTo hab hx hy]
    simp [hab]

/-- A transfer between two accounts, at the beginning of 2026. -/
def createTransfer (fromAccount toAccount : AccountId) (amount : Amount) : EventEnvelope :=
  EventEnvelope.new ⟨Uuid.fromU128 3⟩ newYear2026.time toAccount.uuid.toText 3
    (.transactionProcessed
      { transactionId := ⟨Uuid.fromU128 0⟩
        transactionType := .transfer
        fromAccount := some fromAccount
        toAccount := some toAccount
        amount := amount
        currency := Currency.usd
        metadata :=
          { reference := none
            description := none
            tags := HashMap.empty
            regulatoryFlags := RustVec.empty }
        processedAt := newYear2026.time })
    EventMetadata.default

/-- Two accounts that are created with 1000 each. -/
def createTwoAccounts (a b : AccountId) : List EventEnvelope :=
  [createTestEnvelope a ⟨Uuid.fromU128 1⟩ newYear2026.time,
    createTestEnvelope b ⟨Uuid.fromU128 2⟩ newYear2026.time]

theorem balances_of_two (a b : AccountId) :
    (Replay.run (createTwoAccounts a b)).balances a = some ⟨1000⟩ ∧
      (Replay.run (createTwoAccounts a b)).balances b = some ⟨1000⟩ := by
  show Function.update (Function.update (fun _ => none) a (some ⟨1000⟩)) b (some ⟨1000⟩) a =
      some (⟨1000⟩ : Amount) ∧
    Function.update (Function.update (fun _ => none) a (some ⟨1000⟩)) b (some ⟨1000⟩) b =
      some (⟨1000⟩ : Amount)
  rw [Function.update_self]
  refine ⟨?_, rfl⟩
  by_cases hab : a = b
  · rw [hab, Function.update_self]
  · rw [Function.update_of_ne hab, Function.update_self]

/-- A store of two accounts and 250 from the first to the second. -/
theorem exists_transfer_history :
    let a : AccountId := ⟨Uuid.fromU128 0⟩
    let b : AccountId := ⟨Uuid.fromU128 1⟩
    ∃ h : History, Reachable Crates.sample (new .default) DistinctIds .empty h ∧
      h.appended = createTwoAccounts a b ++ [createTransfer a b ⟨250⟩] ∧
      h.db.contents.size = 3 ∧
      ∃ hs hs' hs'', StoredEvents Crates.sample (new .default) .quiet h.db.contents
        [(createTestEnvelope a ⟨Uuid.fromU128 1⟩ newYear2026.time).rehash hs,
          (createTestEnvelope b ⟨Uuid.fromU128 2⟩ newYear2026.time).rehash hs',
          (createTransfer a b ⟨250⟩).rehash hs''] := by
  intro a b
  let first := createTestEnvelope a ⟨Uuid.fromU128 1⟩ newYear2026.time
  let second := createTestEnvelope b ⟨Uuid.fromU128 2⟩ newYear2026.time
  let transfer := createTransfer a b ⟨250⟩
  have hIds : ([first, second, transfer].map EventEnvelope.eventId).Nodup := by
    show [(⟨Uuid.fromU128 1⟩ : EventId), ⟨Uuid.fromU128 2⟩, ⟨Uuid.fromU128 3⟩].Nodup
    decide
  obtain ⟨h, hReach, hAppended⟩ := exists_history_of_appends Crates.sample_lz4Encodes
    (new .default) (nodup_keys_of_ids hIds)
  have hLess {e f : EventEnvelope} (hTime : e.timestamp = f.timestamp)
      (hId : compare e.eventId.uuid.bytes f.eventId.uuid.bytes = .lt) : KeyBefore e f := by
    rw [KeyBefore, generateEventKey_lt_iff, hTime]
    exact Or.inr ⟨rfl, hId⟩
  have hOrder : [first, second, transfer].Pairwise KeyBefore := by
    have hOne : compare (Uuid.fromU128 1).bytes (Uuid.fromU128 2).bytes = .lt := by decide
    have hTwo : compare (Uuid.fromU128 1).bytes (Uuid.fromU128 3).bytes = .lt := by decide
    have hThree : compare (Uuid.fromU128 2).bytes (Uuid.fromU128 3).bytes = .lt := by decide
    refine .cons ?_ (List.pairwise_pair.mpr (hLess rfl hThree))
    intro e he
    rcases List.mem_pair.mp he with rfl | rfl
    · exact hLess rfl hOne
    · exact hLess rfl hTwo
  have hSize : h.db.contents.size = 3 := by
    rw [hReach.size_eq, ← h.appended_perm.length_eq, hAppended]
    rfl
  obtain ⟨_, hStored, hReread⟩ := exists_stored_in_order Crates.sample_timeTextReadsBack
    Crates.sample_lz4DecodesBack hReach (hAppended ▸ h.appended_perm.symm) hOrder .quiet
  obtain ⟨_, _, ⟨hs, rfl⟩, hTwo, rfl⟩ := List.forall₂_cons_right_iff.mp hReread
  obtain ⟨_, _, ⟨hs', rfl⟩, hOne, rfl⟩ := List.forall₂_cons_right_iff.mp hTwo
  obtain ⟨_, _, ⟨hs'', rfl⟩, hNil, rfl⟩ := List.forall₂_cons_right_iff.mp hOne
  cases hNil
  have hPlain : ∀ e ∈ [first, second, transfer], e.Unambiguous := by decide
  rw [EventEnvelope.reread_of_unambiguous (hPlain first (by simp)),
    EventEnvelope.reread_of_unambiguous (hPlain second (by simp)),
    EventEnvelope.reread_of_unambiguous (hPlain transfer (by simp))] at hStored
  exact ⟨h, hReach, hAppended, hSize, hs, hs', hs'', hStored⟩

/-- 250 of the 1000 move. -/
theorem transfer_moves_test :
    let a : AccountId := ⟨Uuid.fromU128 0⟩
    let b : AccountId := ⟨Uuid.fromU128 1⟩
    MovesOrNothing (Replay.run (createTwoAccounts a b)) (createTransfer a b ⟨250⟩) := by
  intro a b
  have hne : a ≠ b := by decide
  obtain ⟨hx, hy⟩ := balances_of_two a b
  exact (transfer_moves_iff (createTwoAccounts a b) (createTransfer a b ⟨250⟩) _ a b ⟨1000⟩
    ⟨1000⟩ rfl rfl rfl hx hy).mpr (Or.inr ⟨hne, by decide⟩)

/-- The greatest amount there is can be taken from the first account and not be added to
the second: it is gone. -/
theorem transfer_of_greatest :
    ¬ ∀ (before : List EventEnvelope) (e : EventEnvelope) (event : TransactionProcessedEvent)
      (a b : AccountId) (x y : Amount), e.eventData = .transactionProcessed event →
      event.fromAccount = some a → event.toAccount = some b →
      (Replay.run before).balances a = some x → (Replay.run before).balances b = some y →
      MovesOrNothing (Replay.run before) e := by
  intro hAlways
  let a : AccountId := ⟨Uuid.fromU128 0⟩
  let b : AccountId := ⟨Uuid.fromU128 1⟩
  have hne : a ≠ b := by decide
  obtain ⟨hx, hy⟩ := balances_of_two a b
  have hMoves := hAlways (createTwoAccounts a b)
    (createTransfer a b ⟨9223372036854775807⟩) _ a b ⟨1000⟩ ⟨1000⟩ rfl rfl rfl hx hy
  rw [movesOrNothing_between (Replay.exists_total _) rfl rfl rfl hne hx hy] at hMoves
  have hDebit : InI64 ((⟨1000⟩ : Amount).value.toInt -
      (⟨9223372036854775807⟩ : Amount).value.toInt) := by decide
  have hCredit : ¬ InI64 ((⟨1000⟩ : Amount).value.toInt +
      (⟨9223372036854775807⟩ : Amount).value.toInt) := by decide
  exact hCredit (hMoves.mp hDebit)

/-- **Run**: transfers that each move money or do nothing keep the total. -/
theorem transfers_keep_total (before transfers : List EventEnvelope)
    (hMoves : AtEach (fun earlier e => MovesOrNothing (Replay.run (before ++ earlier)) e)
      transfers) {total : Int} (hTotal : SumsTo (Replay.run before).values total) :
    SumsTo (Replay.run (before ++ transfers)).values total := by
  induction transfers using List.reverseRecOn with
  | nil =>
      rw [List.append_nil]
      exact hTotal
  | append_singleton transfers e ih =>
      rw [atEach_concat] at hMoves
      obtain ⟨hEarlier, -, same, hBefore, hAfter⟩ := hMoves
      rw [hBefore.unique (ih hEarlier)] at hAfter
      rw [← List.append_assoc, Replay.run, List.foldl_concat]
      exact hAfter

end LedgerFS.Recovery
