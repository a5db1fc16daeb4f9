import LedgerFS.EventStore.Query
import LedgerFS.Library.Reordering
import LedgerFS.Recovery.Transfers

/-!
# Independent events

One event of the replay changes the entries of the accounts it mentions and looks at no
other: it is a list of changes at single accounts (`step_eq_touches`).  So events without
a common account commute, also where a leg overflows and is skipped, and a history may be
reordered by exchanging such neighbours (`replay_of_exchanges`).
-/

namespace LedgerFS.Recovery

open LedgerFS.Core
open LedgerFS.EventStore
open LedgerFS.Library

/-- A change of the entry of one account, and the errors it counts. -/
structure LocalChange where
  account : AccountId
  change : Option Amount → Option Amount × Nat

/-- Events that mention no common account. -/
def Independent (e f : EventEnvelope) : Prop := ∀ a ∈ accounts e, a ∉ accounts f

namespace Replay

/-- The replay after a change of one account. -/
def touch (r : Replay) (c : LocalChange) : Replay where
  balances := Function.update r.balances c.account (c.change (r.balances c.account)).1
  errors := r.errors + (c.change (r.balances c.account)).2

/-- Changes of different accounts commute. -/
theorem touch_comm (r : Replay) {c d : LocalChange} (hne : c.account ≠ d.account) :
    (r.touch c).touch d = (r.touch d).touch c := by
  unfold touch
  simp only [Function.update_of_ne hne, Function.update_of_ne hne.symm]
  rw [Function.update_comm hne, Nat.add_right_comm]

/-- What a leg does to the entry of its account. -/
def legChange (change : Amount → Except LedgerError Amount) :
    Option Amount → Option Amount × Nat
  | none => (none, 0)
  | some currentBalance =>
      match change currentBalance with
      | .ok newBalance => (some newBalance, 0)
      | .error _ => (some currentBalance, 1)

theorem leg_eq_touch (r : Replay) (change : Amount → Except LedgerError Amount)
    (a : AccountId) : r.leg change (some a) = r.touch ⟨a, legChange change⟩ := by
  unfold touch
  cases hKnown : r.balances a with
  | none =>
      rw [leg_of_unknown hKnown]
      simp only [legChange, ← hKnown, Function.update_eq_self, Nat.add_zero]
  | some balance =>
      cases hChange : change balance with
      | ok newBalance =>
          rw [leg_of_ok hKnown hChange]
          simp only [legChange, hChange, Nat.add_zero]
          rfl
      | error error =>
          rw [leg_of_error hKnown hChange]
          simp only [legChange, hChange, ← hKnown, Function.update_eq_self]

/-- A leg without an account does nothing. -/
theorem leg_eq_touches (r : Replay) (change : Amount → Except LedgerError Amount)
    (account : Option AccountId) :
    r.leg change account =
      (account.toList.map fun a => (⟨a, legChange change⟩ : LocalChange)).foldl touch r := by
  cases account with
  | none => rfl
  | some a => exact r.leg_eq_touch change a

/-- **A step** is a list of changes at accounts the event mentions. -/
theorem step_eq_touches (e : EventEnvelope) :
    ∃ changes : List LocalChange, (∀ c ∈ changes, c.account ∈ accounts e) ∧
      ∀ r : Replay, r.step e = changes.foldl touch r := by
  unfold accounts step
  cases e.eventData with
  | accountCreated event =>
      refine ⟨[⟨event.accountId, fun _ => (some event.initialBalance, 0)⟩], ?_, fun r => rfl⟩
      simp
  | balanceUpdated event =>
      refine ⟨[⟨event.accountId, fun _ => (some event.newBalance, 0)⟩], ?_, fun r => rfl⟩
      simp
  | transactionProcessed event =>
      let debit : Option Amount → Option Amount × Nat :=
        legChange fun currentBalance => currentBalance.subtract event.amount
      let credit : Option Amount → Option Amount × Nat :=
        legChange fun currentBalance => currentBalance.add event.amount
      refine ⟨event.fromAccount.toList.map (⟨·, debit⟩) ++
        event.toAccount.toList.map (⟨·, credit⟩), ?_, ?_⟩
      · intro c hc
        rcases List.mem_append.mp hc with hDebit | hCredit
        · obtain ⟨a, ha, rfl⟩ := List.mem_map.mp hDebit
          exact List.mem_append_left _ ha
        · obtain ⟨a, ha, rfl⟩ := List.mem_map.mp hCredit
          exact List.mem_append_right _ ha
      · intro r
        rw [List.foldl_append, ← leg_eq_touches, ← leg_eq_touches]
  | _ => exact ⟨[], by simp, fun r => rfl⟩

/-- **Independent events commute.** -/
theorem step_comm (r : Replay) {e f : EventEnvelope} (h : Independent e f) :
    (r.step e).step f = (r.step f).step e := by
  obtain ⟨changes, hAt, hStep⟩ := step_eq_touches e
  obtain ⟨changes', hAt', hStep'⟩ := step_eq_touches f
  rw [hStep, hStep', hStep', hStep]
  apply foldl_comm_of_blocks
  intro c hc d hd s
  apply s.touch_comm
  intro hSame
  exact h _ (hAt c hc) (hSame ▸ hAt' d hd)

end Replay

/-- **Independent events may be exchanged**: the replay ends with the same balances and
has counted the same errors. -/
theorem replay_of_exchanges (es fs : List EventEnvelope) (h : Exchanges Independent es fs) :
    (Replay.run es).balances = (Replay.run fs).balances ∧
      (Replay.run es).errors = (Replay.run fs).errors := by
  have hSame : Replay.run es = Replay.run fs :=
    foldl_eq_of_exchanges (fun r _ _ hIndependent => r.step_comm hIndependent) h Replay.empty
  rw [hSame]
  exact ⟨rfl, rfl⟩

/-- An account goes past a transfer of another one, whose debit overflows. -/
theorem replay_of_exchanges_test :
    let a : AccountId := ⟨Uuid.fromU128 0⟩
    let b : AccountId := ⟨Uuid.fromU128 1⟩
    let createdA := createTestEnvelope a ⟨Uuid.fromU128 1⟩ newYear2026.time
    let createdB := createTestEnvelope b ⟨Uuid.fromU128 2⟩ newYear2026.time
    let transfer := createTransfer a a ⟨-9223372036854775808⟩
    (Replay.run [createdA, transfer, createdB]).balances =
        (Replay.run [createdA, createdB, transfer]).balances ∧
      (Replay.run [createdA, transfer, createdB]).errors =
        (Replay.run [createdA, createdB, transfer]).errors := by
  intro a b createdA createdB transfer
  apply replay_of_exchanges
  apply Relation.ReflTransGen.single
  apply Exchange.swap [createdA] transfer createdB []
  show ∀ c ∈ [a, a], c ∉ [b]
  decide

end LedgerFS.Recovery
