import Mathlib.Data.List.Nodup
import Mathlib.Data.List.Perm.Subperm

/-!
# Scans over ordered lists

A scan walks a list in its order, stops at the first element that fails a test
and returns at most a given number of elements.  When the test fails from some
point on, stopping early loses nothing (`takeWhile_eq_filter`).  In general an
element is returned exactly when nothing before it fails the test and few
enough elements come before it (`mem_take_takeWhile_iff`); "before" is the
order of the list, a relation that never holds both ways.
-/

namespace LedgerFS.Library.OrderedScan

variable {α : Type} {R : α → α → Prop}

/-- A test that fails from some point on may as well stop the scan. -/
theorem takeWhile_eq_filter {p : α → Bool} (l : List α)
    (hMono : l.Pairwise fun x y => p y = true → p x = true) :
    l.takeWhile p = l.filter p := by
  induction l with
  | nil => rfl
  | cons x l ih =>
      rw [List.pairwise_cons] at hMono
      by_cases hx : p x = true
      · rw [List.takeWhile_cons_of_pos hx, List.filter_cons_of_pos hx, ih hMono.2]
      · have hNone : l.filter p = [] := by
          rw [List.filter_eq_nil_iff]
          intro y hy hp
          exact hx (hMono.1 y hy hp)
        rw [List.takeWhile_cons_of_neg hx, List.filter_cons_of_neg hx, hNone]

/-- A scan over a longer list returns first what it returned over its beginning. -/
theorem takeWhile_prefix_of_prefix (p : α → Bool) {l m : List α} (h : l <+: m) :
    l.takeWhile p <+: m.takeWhile p := by
  obtain ⟨more, rfl⟩ := h
  rw [List.takeWhile_append]
  split
  · exact (List.takeWhile_prefix p).trans (List.prefix_append l _)
  · exact List.prefix_refl _

/-- Scans over lists that correspond stop at the same place. -/
theorem forall₂_takeWhile {β : Type} {S : α → β → Prop} {p : α → Bool} {q : β → Bool}
    (hSame : ∀ a b, S a b → p a = q b) {l : List α} {m : List β} (h : List.Forall₂ S l m) :
    List.Forall₂ S (l.takeWhile p) (m.takeWhile q) := by
  induction h with
  | nil => exact .nil
  | @cons a b _ _ hHere _ ih =>
      rw [List.takeWhile_cons, List.takeWhile_cons, hSame a b hHere]
      split
      · exact .cons hHere ih
      · exact .nil

/-- Two elements of an ordered list are in order one way or the other. -/
theorem ordered_of_mem {l : List α} (hOrder : l.Pairwise R) {a b : α} (ha : a ∈ l)
    (hb : b ∈ l) : a = b ∨ R a b ∨ R b a := by
  induction l with
  | nil => cases ha
  | cons x l ih =>
      rw [List.pairwise_cons] at hOrder
      rcases List.mem_cons.mp ha with rfl | haTail
      · rcases List.mem_cons.mp hb with rfl | hbTail
        · exact Or.inl rfl
        · exact Or.inr (Or.inl (hOrder.1 b hbTail))
      · rcases List.mem_cons.mp hb with rfl | hbTail
        · exact Or.inr (Or.inr (hOrder.1 a haTail))
        · exact ih hOrder.2 haTail hbTail

/-- **What a scan returns**: the elements that pass the test, with everything
before them, and with fewer than `n` elements before them. -/
theorem mem_take_takeWhile_iff [DecidableRel R] (hAsymm : ∀ a b, R a b → ¬ R b a)
    {p : α → Bool} (l : List α) (hOrder : l.Pairwise R) (n : Nat) {e : α} (he : e ∈ l) :
    e ∈ (l.takeWhile p).take n ↔
      p e = true ∧ (∀ f ∈ l, R f e → p f = true) ∧
        (l.countP fun f => decide (R f e)) < n := by
  induction l generalizing n with
  | nil => cases he
  | cons x l ih =>
      rw [List.pairwise_cons] at hOrder
      rcases List.mem_cons.mp he with rfl | hLater
      · -- nothing comes before the first element
        have hNone : ∀ f ∈ e :: l, ¬ R f e := by
          intro f hf hBefore
          rcases List.mem_cons.mp hf with rfl | hTail
          · exact hAsymm f f hBefore hBefore
          · exact hAsymm e f (hOrder.1 f hTail) hBefore
        have hCount : ((e :: l).countP fun f => decide (R f e)) = 0 := by
          rw [List.countP_eq_zero]
          intro f hf
          simpa using hNone f hf
        rw [hCount]
        have hVacuous : ∀ f ∈ e :: l, R f e → p f = true := fun f hf hBefore =>
          absurd hBefore (hNone f hf)
        by_cases hp : p e = true
        · rw [List.takeWhile_cons_of_pos hp]
          cases n with
          | zero => simp
          | succ n =>
              rw [List.take_succ_cons]
              exact iff_of_true List.mem_cons_self ⟨hp, hVacuous, Nat.succ_pos n⟩
        · rw [List.takeWhile_cons_of_neg hp]
          simp [hp]
      · have hBefore : R x e := hOrder.1 e hLater
        have hNe : e ≠ x := by
          rintro rfl
          exact hAsymm e e hBefore hBefore
        have hCount : ((x :: l).countP fun f => decide (R f e)) =
            (l.countP fun f => decide (R f e)) + 1 := by
          rw [List.countP_cons_of_pos (by simpa using hBefore)]
        rw [hCount]
        by_cases hx : p x = true
        · rw [List.takeWhile_cons_of_pos hx]
          cases n with
          | zero => simp
          | succ n =>
              rw [List.take_succ_cons, List.mem_cons, ih hOrder.2 n hLater]
              simp only [hNe, false_or, List.forall_mem_cons, hx, implies_true, true_and]
              constructor
              · rintro ⟨hp, hAll, hLt⟩
                exact ⟨hp, hAll, by omega⟩
              · rintro ⟨hp, hAll, hLt⟩
                exact ⟨hp, hAll, by omega⟩
        · rw [List.takeWhile_cons_of_neg hx]
          constructor
          · intro hMem
            simp at hMem
          · rintro ⟨-, hAll, -⟩
            exact absurd (hAll x List.mem_cons_self hBefore) hx

/-- A reordering into ascending order changes nothing exactly where the list is
in order already. -/
theorem perm_eq_iff_ordered (hAsymm : ∀ a b, R a b → ¬ R b a) {l sorted : List α}
    (hPerm : sorted.Perm l) (hOrder : sorted.Pairwise R) : sorted = l ↔ l.Pairwise R := by
  constructor
  · rintro rfl
    exact hOrder
  · intro hAlready
    apply List.Perm.eq_of_pairwise _ hOrder hAlready hPerm
    intro a b _ _ hab hba
    exact absurd hba (hAsymm a b hab)

/-- A list without repetitions that fits into its first `n` elements is no
longer than that. -/
theorem forall_mem_take_iff {l : List α} (hNodup : l.Nodup) (n : Nat) :
    (∀ e ∈ l, e ∈ l.take n) ↔ l.length ≤ n := by
  constructor
  · intro hAll
    have hSub : l.length ≤ (l.take n).length :=
      (List.subperm_of_subset hNodup hAll).length_le
    rw [List.length_take] at hSub
    omega
  · intro hLen e he
    rw [List.take_of_length_le hLen]
    exact he

end LedgerFS.Library.OrderedScan
