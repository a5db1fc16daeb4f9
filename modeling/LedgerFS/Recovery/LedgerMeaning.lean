import LedgerFS.Recovery.Transfers

/-!
# The meaning of a ledger

What a history says of an account, read without replaying it: nothing, before the account
is created or a snapshot of it is taken; and from then on the value it was last set to,
with all later payments to it added and all later payments from it taken off
(`balanceAfter_of_set`).  A replay that counts no error ends with just these balances
(`replay_means`).
-/

namespace LedgerFS.Recovery

open LedgerFS.Core
open LedgerFS.EventStore

/-! ## What an event says of an account -/

/-- The value that a creation or a snapshot sets an account to. -/
def setTo (a : AccountId) (e : EventEnvelope) : Option Int :=
  match e.eventData with
  | .accountCreated event =>
      if event.accountId = a then some event.initialBalance.value.toInt else none
  | .balanceUpdated event =>
      if event.accountId = a then some event.newBalance.value.toInt else none
  | _ => none

/-- The amount that a transaction pays to an account. -/
def paidTo (a : AccountId) (e : EventEnvelope) : Int :=
  match e.eventData with
  | .transactionProcessed event => legOf a event.toAccount event.amount.value.toInt
  | _ => 0

/-- The amount that a transaction pays from an account. -/
def paidFrom (a : AccountId) (e : EventEnvelope) : Int :=
  match e.eventData with
  | .transactionProcessed event => legOf a event.fromAccount event.amount.value.toInt
  | _ => 0

/-- A payment of an account to itself nets to zero. -/
theorem paidTo_sub_paidFrom_self {a : AccountId} {e : EventEnvelope}
    {event : TransactionProcessedEvent} (h : e.eventData = .transactionProcessed event)
    (hSelf : event.fromAccount = event.toAccount) : paidTo a e - paidFrom a e = 0 := by
  unfold paidTo paidFrom
  rw [h]
  simp only [hSelf, Int.sub_self]

/-- **One account in one step**: it is set, or it is paid to and from. -/
theorem exactStep_apply (balances : Balances) (e : EventEnvelope) (a : AccountId) :
    exactStep balances e a =
      (setTo a e).or ((balances a).map fun balance => balance + (paidTo a e - paidFrom a e)) := by
  unfold exactStep setTo paidTo paidFrom
  have hKept : balances a = (balances a).map fun balance => balance + ((0 : Int) - 0) := by simp
  cases e.eventData with
  | accountCreated event =>
      by_cases ha : event.accountId = a
      · simp [ha]
      · simp [ha, Ne.symm ha]
  | balanceUpdated event =>
      by_cases ha : event.accountId = a
      · simp [ha]
      · simp [ha, Ne.symm ha]
  | transactionProcessed event =>
      have hOrder (balance debit credit : Int) :
          balance - debit + credit = balance + (credit - debit) := by omega
      simp only [hOrder, Option.none_or]
  | _ => exact hKept

/-! ## What a history says of an account -/

/-- **Known**: an account has a balance once an event sets one. -/
theorem balanceAfter_isSome (events : List EventEnvelope) (a : AccountId) :
    (balanceAfter events a).isSome ↔ ∃ e ∈ events, (setTo a e).isSome := by
  induction events using List.reverseRecOn with
  | nil => simp [balanceAfter]
  | append_singleton events last ih =>
      rw [balanceAfter, List.foldl_concat, exactStep_apply, Option.isSome_or, Option.isSome_map,
        Bool.or_eq_true]
      rw [balanceAfter] at ih
      rw [ih]
      constructor
      · rintro (hHere | ⟨e, he, hSet⟩)
        · exact ⟨last, List.mem_append_right _ List.mem_cons_self, hHere⟩
        · exact ⟨e, List.mem_append_left _ he, hSet⟩
      · rintro ⟨e, he, hSet⟩
        rcases List.mem_append.mp he with hEarlier | hLast
        · exact Or.inr ⟨e, hEarlier, hSet⟩
        · exact Or.inl (List.mem_singleton.mp hLast ▸ hSet)

/-- The payments of an account, as long as no event sets it. -/
theorem foldl_of_unset (balances : Balances) {a : AccountId} {after : List EventEnvelope}
    (hUnset : ∀ e ∈ after, setTo a e = none) :
    after.foldl exactStep balances a = (balances a).map fun balance =>
      balance + ((after.map (paidTo a)).sum - (after.map (paidFrom a)).sum) := by
  induction after generalizing balances with
  | nil => simp
  | cons e after ih =>
      obtain ⟨hHere, hLater⟩ := List.forall_mem_cons.mp hUnset
      rw [List.foldl_cons, ih _ hLater, exactStep_apply, hHere, Option.none_or, Option.map_map]
      congr 1
      funext balance
      simp only [Function.comp_apply, List.map_cons, List.sum_cons]
      omega

/-- **Balance**: the value that was last set, and the payments since. -/
theorem balanceAfter_of_set {before after : List EventEnvelope} {e : EventEnvelope}
    {a : AccountId} {value : Int} (hSet : setTo a e = some value)
    (hUnset : ∀ f ∈ after, setTo a f = none) :
    balanceAfter (before ++ e :: after) a =
      some (value + ((after.map (paidTo a)).sum - (after.map (paidFrom a)).sum)) := by
  rw [balanceAfter, List.foldl_append, List.foldl_cons, foldl_of_unset _ hUnset, exactStep_apply,
    hSet, Option.some_or, Option.map_some]

/-! ## The replay means this -/

/-- **A clean replay has the meaning of its history**: the accounts that were set, each
with the last value and the payments since; those to itself net to zero. -/
theorem replay_means (events : List EventEnvelope) (h : (Replay.run events).errors = 0)
    (a : AccountId) :
    (((Replay.run events).balances a).isSome ↔ ∃ e ∈ events, (setTo a e).isSome) ∧
      (∀ before e after value, events = before ++ e :: after → setTo a e = some value →
        (∀ f ∈ after, setTo a f = none) →
        ∃ balance, (Replay.run events).balances a = some balance ∧
          balance.value.toInt =
            value + (after.map (paidTo a)).sum - (after.map (paidFrom a)).sum) ∧
      ∀ e event, e.eventData = .transactionProcessed event →
        event.fromAccount = event.toAccount → paidTo a e - paidFrom a e = 0 := by
  have hValues : ((Replay.run events).balances a).map (fun balance => balance.value.toInt) =
      balanceAfter events a := congrFun (run_values events h) a
  refine ⟨?_, ?_, fun e event => paidTo_sub_paidFrom_self⟩
  · rw [← balanceAfter_isSome, ← hValues, Option.isSome_map]
  · intro before e after value hSplit hSet hUnset
    rw [hSplit, balanceAfter_of_set hSet hUnset, ← hSplit] at hValues
    obtain ⟨balance, hKnown, hBalance⟩ := Option.map_eq_some_iff.mp hValues
    refine ⟨balance, hKnown, ?_⟩
    omega

/-- Two accounts with 1000 each, and 250 of the first one to the second. -/
theorem replay_means_test :
    let a : AccountId := ⟨Uuid.fromU128 0⟩
    let b : AccountId := ⟨Uuid.fromU128 1⟩
    let events := createTwoAccounts a b ++ [createTransfer a b ⟨250⟩]
    ∃ balance, (Replay.run events).balances a = some balance ∧ balance.value.toInt = 750 := by
  intro a b events
  have hClean : (Replay.run events).errors = 0 := by decide +kernel
  obtain ⟨-, hBalance, -⟩ := replay_means events hClean a
  exact hBalance [] _ [createTestEnvelope b ⟨Uuid.fromU128 2⟩ newYear2026.time,
    createTransfer a b ⟨250⟩] 1000 rfl (by decide) (by decide)

end LedgerFS.Recovery
