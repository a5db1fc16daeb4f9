import Mathlib.Algebra.BigOperators.Group.Finset.Basic
import Mathlib.Tactic.Abel

/-!
# Totals

Where finitely many accounts are known, what they hold has a total.  It is the only one
(`SumsTo.unique`), and it changes by as much as an account does (`SumsTo.update`), so
that a transfer between two accounts keeps it (`SumsTo.transfer`).
-/

namespace LedgerFS.Library

variable {α M : Type} [AddCommGroup M]

/-- What the known accounts hold altogether. -/
def SumsTo (held : α → Option M) (total : M) : Prop :=
  ∃ known : Finset α, (∀ a, a ∈ known ↔ (held a).isSome) ∧
    ∑ a ∈ known, (held a).getD 0 = total

theorem sumsTo_none : SumsTo (fun _ : α => (none : Option M)) 0 :=
  ⟨∅, by simp, by simp⟩

namespace SumsTo

variable {held : α → Option M} {total : M}

/-- **There is one total.** -/
theorem unique {total' : M} (h : SumsTo held total) (h' : SumsTo held total') :
    total = total' := by
  obtain ⟨known, hKnown, rfl⟩ := h
  obtain ⟨known', hKnown', rfl⟩ := h'
  have hSame : known = known' := by
    ext a
    rw [hKnown, hKnown']
  rw [hSame]

variable [DecidableEq α]

/-- All accounts but one hold what remains. -/
theorem sum_erase {known : Finset α} (hKnown : ∀ a, a ∈ known ↔ (held a).isSome) (a : α) :
    ∑ c ∈ known.erase a, (held c).getD 0 =
      (∑ c ∈ known, (held c).getD 0) - (held a).getD 0 := by
  by_cases ha : a ∈ known
  · rw [← Finset.add_sum_erase known _ ha]
    abel
  · have hNone : held a = none := by
      rw [hKnown] at ha
      simpa using ha
    rw [Finset.erase_eq_of_notMem ha, hNone, Option.getD_none, sub_zero]

/-- **Update**: an account that is set to an amount moves the total by the difference. -/
theorem update (h : SumsTo held total) (a : α) (amount : M) :
    SumsTo (Function.update held a (some amount)) (total - (held a).getD 0 + amount) := by
  obtain ⟨known, hKnown, rfl⟩ := h
  refine ⟨insert a (known.erase a), ?_, ?_⟩
  · intro c
    by_cases hc : c = a
    · simp [hc]
    · simp [hc, hKnown]
  · have hOthers : ∑ c ∈ known.erase a, (Function.update held a (some amount) c).getD 0 =
        ∑ c ∈ known.erase a, (held c).getD 0 := by
      apply Finset.sum_congr rfl
      intro c hc
      rw [Function.update_of_ne (Finset.ne_of_mem_erase hc)]
    rw [Finset.sum_insert (Finset.notMem_erase a known), hOthers, sum_erase hKnown,
      Function.update_self, Option.getD_some, add_comm]

/-- An update keeps the total only if it changes nothing. -/
theorem eq_of_update {a : α} {x y : M} (h : SumsTo held total) (hx : held a = some x)
    (hSame : SumsTo (Function.update held a (some y)) total) : y = x := by
  have hMoved := unique hSame (h.update a y)
  rw [hx, Option.getD_some, sub_add_eq_add_sub, add_sub_assoc] at hMoved
  have hZero : y - x = 0 := left_eq_add.mp hMoved
  exact sub_eq_zero.mp hZero

/-- **Transfer**: an amount that goes from one account to another keeps the total. -/
theorem transfer {a b : α} (hne : a ≠ b) {x y : M} (h : SumsTo held total)
    (hx : held a = some x) (hy : held b = some y) (amount : M) :
    SumsTo (Function.update (Function.update held a (some (x - amount))) b
      (some (y + amount))) total := by
  have hBoth := (h.update a (x - amount)).update b (y + amount)
  rw [Function.update_of_ne hne.symm, hx, hy, Option.getD_some, Option.getD_some] at hBoth
  have hTotal : total - x + (x - amount) - y + (y + amount) = total := by abel
  rwa [hTotal] at hBoth

end SumsTo

end LedgerFS.Library
