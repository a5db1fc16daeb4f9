import Mathlib.Algebra.BigOperators.Fin
import Mathlib.Algebra.Order.BigOperators.Group.Finset

/-!
# Work queues

Items are submitted to one queue and taken from its front by any number of
holders; a holder finishes what it holds all at once.  However these steps
interleave, every submitted item is in the queue, with one holder, or done
(`Conserves`), and nothing else is.  An item submitted once is in exactly one of
those places (`Conserves.placedOnce`), and when no holder holds anything it is
done unless it is still queued (`Conserves.mem_done_iff`).

A single holder finishes the items in the order in which they were submitted
(`InOrder`).
-/

namespace LedgerFS.Library

/-- A queue, its holders, and what was submitted and done so far. -/
structure WorkQueue (ι α : Type) where
  accepted : List α
  queue : List α
  held : ι → List α
  done : List α

namespace WorkQueue

variable {ι α : Type}

/-- Nothing submitted yet. -/
def empty : WorkQueue ι α := ⟨[], [], fun _ => [], []⟩

section Conservation

variable [Fintype ι] [DecidableEq α]

/-- **Conservation**: what was submitted is in the queue, with a holder, or
done. -/
def Conserves (q : WorkQueue ι α) : Prop :=
  ∀ a, q.accepted.count a = q.queue.count a + ∑ i, (q.held i).count a + q.done.count a

theorem conserves_empty : Conserves (empty : WorkQueue ι α) := by
  intro a
  simp [empty]

variable {q : WorkQueue ι α}

/-- The order of what is done does not matter. -/
theorem Conserves.perm (h : Conserves q) {done : List α} (hPerm : q.done.Perm done) :
    Conserves { q with done := done } := by
  intro a
  rw [h a, hPerm.count_eq a]

private theorem count_held_le (q : WorkQueue ι α) (i : ι) (a : α) :
    (q.held i).count a ≤ ∑ j, (q.held j).count a :=
  Finset.single_le_sum (f := fun j => (q.held j).count a) (fun _ _ => Nat.zero_le _)
    (Finset.mem_univ i)

/-- An item submitted once is in one place. -/
theorem Conserves.placedOnce (h : Conserves q) (hNodup : q.accepted.Nodup) {a : α}
    (ha : a ∈ q.accepted) :
    q.queue.count a + ∑ i, (q.held i).count a + q.done.count a = 1 := by
  rw [← h a]
  exact List.count_eq_one_of_mem hNodup ha

/-- Only submitted items are held. -/
theorem Conserves.accepted_of_held (h : Conserves q) {a : α} {i : ι} (ha : a ∈ q.held i) :
    a ∈ q.accepted := by
  have hHere := h a
  have hHeld := List.count_pos_iff.mpr ha
  have hSum := count_held_le q i a
  rw [← List.count_pos_iff]
  omega

/-- Only submitted items are done. -/
theorem Conserves.accepted_of_done (h : Conserves q) {a : α} (ha : a ∈ q.done) :
    a ∈ q.accepted := by
  have hHere := h a
  have hDone := List.count_pos_iff.mpr ha
  rw [← List.count_pos_iff]
  omega

/-- What is held is not done. -/
theorem Conserves.not_mem_done (h : Conserves q) (hNodup : q.accepted.Nodup) {a : α} {i : ι}
    (ha : a ∈ q.held i) : a ∉ q.done := by
  intro hDone
  have hOnce := h.placedOnce hNodup (h.accepted_of_held ha)
  have hHeld := List.count_pos_iff.mpr ha
  have hCount := List.count_pos_iff.mpr hDone
  have hSum := count_held_le q i a
  omega

/-- A holder holds no item twice. -/
theorem Conserves.nodup_held (h : Conserves q) (hNodup : q.accepted.Nodup) (i : ι) :
    (q.held i).Nodup := by
  rw [List.nodup_iff_count_le_one]
  intro a
  have hHere := h a
  have hOnce := List.nodup_iff_count_le_one.mp hNodup a
  have hSum := count_held_le q i a
  omega

/-- When nothing is held, what is not queued any more is done. -/
theorem Conserves.mem_done_iff (h : Conserves q) (hNodup : q.accepted.Nodup)
    (hIdle : ∀ i, q.held i = []) {a : α} (ha : a ∈ q.accepted) :
    a ∈ q.done ↔ a ∉ q.queue := by
  have hOnce := h.placedOnce hNodup ha
  have hNone : ∑ i, (q.held i).count a = 0 := by simp [hIdle]
  rw [← List.count_pos_iff, ← List.count_pos_iff]
  omega

end Conservation

/-- Numbered holders: what was submitted is a permutation of what is in the three places. -/
theorem Conserves.perm_accepted {n : Nat} [DecidableEq α] {q : WorkQueue (Fin n) α}
    (h : Conserves q) :
    q.accepted.Perm (q.queue ++ (List.finRange n).flatMap q.held ++ q.done) := by
  rw [List.perm_iff_count]
  intro a
  rw [h a, List.count_append, List.count_append, List.count_flatMap, Fin.sum_univ_def]
  rfl

section Steps

variable [DecidableEq ι]

/-- One step of the queue or of a holder. -/
inductive Step : WorkQueue ι α → WorkQueue ι α → Prop
  | submit (q : WorkQueue ι α) (a : α) :
      Step q { q with accepted := q.accepted ++ [a], queue := q.queue ++ [a] }
  | take (q : WorkQueue ι α) (i : ι) {a : α} {rest : List α} (hFront : q.queue = a :: rest) :
      Step q { q with
        queue := rest
        held := Function.update q.held i (q.held i ++ [a]) }
  | finish (q : WorkQueue ι α) (i : ι) :
      Step q { q with
        held := Function.update q.held i []
        done := q.done ++ q.held i }

variable [Fintype ι] [DecidableEq α]

/-- Changing what one holder holds changes the total by the difference. -/
theorem sum_update (held : ι → List α) (i : ι) (items : List α) (a : α) :
    (∑ j, (Function.update held i items j).count a) + (held i).count a =
      (∑ j, (held j).count a) + items.count a := by
  have hOthers : ∀ j ∈ Finset.univ.erase i,
      (Function.update held i items j).count a = (held j).count a := by
    intro j hj
    rw [Function.update_of_ne (Finset.ne_of_mem_erase hj)]
  rw [← Finset.add_sum_erase Finset.univ _ (Finset.mem_univ i),
    ← Finset.add_sum_erase Finset.univ (fun j => (held j).count a) (Finset.mem_univ i),
    Finset.sum_congr rfl hOthers, Function.update_self]
  omega

/-- **Every step conserves.** -/
theorem Step.conserves {q q' : WorkQueue ι α} (hStep : Step q q') (h : Conserves q) :
    Conserves q' := by
  intro a
  have hHere := h a
  cases hStep with
  | submit b =>
      simp only [List.count_append]
      omega
  | @take i b rest hFront =>
      have hSum := sum_update q.held i (q.held i ++ [b]) a
      rw [hFront, List.count_cons] at hHere
      simp only [List.count_append, List.count_cons, List.count_nil] at hSum ⊢
      omega
  | finish i =>
      have hSum := sum_update q.held i [] a
      simp only [List.count_append, List.count_nil] at hSum ⊢
      omega

end Steps

/-! ## Order -/

section Order

/-- What the holder has and then what is queued are the last items submitted. -/
def InOrder (q : WorkQueue ι α) (i : ι) : Prop := q.held i ++ q.queue <:+ q.accepted

theorem inOrder_empty (i : ι) : InOrder (empty : WorkQueue ι α) i := List.suffix_refl _

variable [DecidableEq ι] {q q' : WorkQueue ι α}

theorem Step.accepted_prefix (hStep : Step q q') : q.accepted <+: q'.accepted := by
  cases hStep with
  | submit a => exact List.prefix_append _ _
  | take => exact List.prefix_refl _
  | finish => exact List.prefix_refl _

/-- A single holder takes and finishes the items in their order. -/
theorem Step.inOrder [Subsingleton ι] (hStep : Step q q') {i : ι} (h : InOrder q i) :
    InOrder q' i := by
  cases hStep with
  | submit a =>
      obtain ⟨before, hBefore⟩ := h
      refine ⟨before, ?_⟩
      show before ++ (q.held i ++ (q.queue ++ [a])) = q.accepted ++ [a]
      rw [← hBefore]
      simp only [List.append_assoc]
  | @take j a rest hFront =>
      obtain rfl : i = j := Subsingleton.elim i j
      show Function.update q.held i (q.held i ++ [a]) i ++ rest <:+ q.accepted
      rw [Function.update_self, List.append_assoc, List.singleton_append, ← hFront]
      exact h
  | finish j =>
      obtain rfl : i = j := Subsingleton.elim i j
      show Function.update q.held i [] i ++ q.queue <:+ q.accepted
      rw [Function.update_self, List.nil_append]
      exact (List.suffix_append _ _).trans h

end Order

section OneHolder

variable {q q' : WorkQueue ι α} {i : ι}

/-- How many items came before those that are held and queued. -/
def finishedCount (q : WorkQueue ι α) (i : ι) : Nat :=
  q.accepted.length - (q.held i ++ q.queue).length

theorem finishedCount_le (q : WorkQueue ι α) (i : ι) : q.finishedCount i ≤ q.accepted.length :=
  Nat.sub_le _ _

/-- The items before, and then those that are held and queued. -/
theorem InOrder.take_append (h : InOrder q i) :
    q.accepted.take (q.finishedCount i) ++ (q.held i ++ q.queue) = q.accepted := by
  obtain ⟨before, hBefore⟩ := h
  rw [finishedCount, ← hBefore, List.length_append, Nat.add_sub_cancel, List.take_left' rfl]

theorem InOrder.drop_eq (h : InOrder q i) :
    q.accepted.drop (q.finishedCount i) = q.held i ++ q.queue := by
  have hSplit := List.take_append_drop (q.finishedCount i) q.accepted
  conv_rhs at hSplit => rw [← h.take_append]
  exact List.append_cancel_left hSplit

/-- A holder never takes back what it has finished. -/
theorem Step.finishedCount_le [DecidableEq ι] [Subsingleton ι] (hStep : Step q q') :
    q.finishedCount i ≤ q'.finishedCount i := by
  cases hStep with
  | submit a =>
      simp only [finishedCount, List.length_append, List.length_singleton]
      omega
  | @take j a rest hFront =>
      obtain rfl : i = j := Subsingleton.elim i j
      simp only [finishedCount, Function.update_self, hFront, List.length_append,
        List.length_cons, List.length_nil]
      omega
  | finish j =>
      obtain rfl : i = j := Subsingleton.elim i j
      simp only [finishedCount, Function.update_self, List.length_append, List.length_nil]
      omega

variable [Fintype ι] [Subsingleton ι] [DecidableEq α]

/-- **A single holder** has finished just the items before these. -/
theorem Conserves.done_perm (h : Conserves q) (hOrder : InOrder q i) :
    q.done.Perm (q.accepted.take (q.finishedCount i)) := by
  rw [List.perm_iff_count]
  intro a
  have hHere := h a
  have hHeld : ∑ j, (q.held j).count a = (q.held i).count a :=
    Fintype.sum_subsingleton (fun j => (q.held j).count a) i
  have hSplit : q.accepted.count a = (q.accepted.take (q.finishedCount i)).count a +
      ((q.held i).count a + q.queue.count a) := by
    rw [← List.count_append, ← List.count_append, hOrder.take_append]
  omega

end OneHolder

end WorkQueue

end LedgerFS.Library
