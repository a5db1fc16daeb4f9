import Mathlib.Data.List.Forall2

/-!
# Reads in several calls

A list is read in several calls.  Each call names a position and gets some of the elements
from there on, and the position to go on from, unless there is nothing more
(`Resumes`).  However the calls cut the list, the portions make up the list, each element
once and in order, and there are at most as many calls as elements and one more
(`readAll_eq`).

The elements need not come back identical: a relation `R` says which stand for which.
Calls have a number, so that they need not be alike, and may change a state as long as an
invariant holds.

The list may also grow at its end between the calls (`ResumesGrowing`).  A reader that
comes to an end then has the list as it was at its last call (`readAll_growing`).
-/

namespace LedgerFS.Library

variable {α β σ : Type}

/-- What one call returns. -/
structure Portion (α : Type) where
  elements : List α
  next : Option Nat

/-- The calls of one reader, up to the first that says where nothing more comes. -/
def readAll (call : Nat → Nat → σ → Option (Portion α × σ)) :
    Nat → Nat → Nat → σ → Option (List α × σ)
  | 0, _, _, _ => none
  | fuel + 1, i, position, s =>
      match call i position s with
      | none => none
      | some (portion, s') =>
          match portion.next with
          | none => some (portion.elements, s')
          | some next =>
              (readAll call fuel (i + 1) next s').map fun (rest, s'') =>
                (portion.elements ++ rest, s'')

/-- A portion is the elements up to the next position, or all that are left. -/
def Portion.Covers (R : α → β → Prop) (l : List β) (position : Nat) (portion : Portion α) : Prop :=
  match portion.next with
  | none => List.Forall₂ R portion.elements (l.drop position)
  | some next =>
      position < next ∧ next ≤ l.length ∧
        List.Forall₂ R portion.elements ((l.drop position).take (next - position))

/-- Every call gets a portion, and it covers what comes next. -/
def Resumes (R : α → β → Prop) (I : σ → Prop) (l : List β)
    (call : Nat → Nat → σ → Option (Portion α × σ)) : Prop :=
  ∀ i position s, I s → position ≤ l.length →
    ∃ portion s', call i position s = some (portion, s') ∧ I s' ∧ portion.Covers R l position

/-- The next few elements are such a portion; none come where nothing is left. -/
theorem covers_piece {l : List α} {position n : Nat} (hPosition : position ≤ l.length)
    (hn : 0 < n) :
    Portion.Covers Eq l position ⟨(l.drop position).take n,
      if ((l.drop position).take n).isEmpty then none
      else some (position + ((l.drop position).take n).length)⟩ := by
  have hLength : ((l.drop position).take n).length = min n (l.length - position) := by
    rw [List.length_take, List.length_drop]
  unfold Portion.Covers
  cases hPiece : ((l.drop position).take n).isEmpty with
  | true =>
      rw [List.isEmpty_iff] at hPiece
      rw [hPiece, List.length_nil] at hLength
      have hRest : l.drop position = [] := List.drop_eq_nil_of_le (by omega)
      simp only [if_true, hRest, List.take_nil]
      exact List.Forall₂.nil
  | false =>
      have hSome : ((l.drop position).take n).length ≠ 0 := by
        rw [Ne, List.length_eq_zero_iff, ← List.isEmpty_iff, hPiece]
        exact Bool.false_ne_true
      simp only [Bool.false_eq_true, if_false, Nat.add_sub_cancel_left, List.forall₂_eq_eq_eq]
      refine ⟨by omega, by omega, ?_⟩
      rw [hLength, ← List.length_drop, ← List.take_eq_take_min]

/-- **Run**: the portions are the rest of the list, and there is at most one call for each
element of it, and the last one. -/
theorem readAll_eq {R : α → β → Prop} {I : σ → Prop} {l : List β}
    {call : Nat → Nat → σ → Option (Portion α × σ)} (h : Resumes R I l call) (fuel i position : Nat)
    {s : σ} (hs : I s) (hPosition : position ≤ l.length) (hFuel : l.length - position < fuel) :
    ∃ elements s', readAll call fuel i position s = some (elements, s') ∧ I s' ∧
      List.Forall₂ R elements (l.drop position) := by
  induction fuel generalizing i position s with
  | zero => omega
  | succ fuel ih =>
      obtain ⟨portion, s', hCall, hs', hCovers⟩ := h i position s hs hPosition
      rw [readAll, hCall]
      unfold Portion.Covers at hCovers
      cases hNext : portion.next with
      | none =>
          rw [hNext] at hCovers
          simp only [hNext]
          exact ⟨_, _, rfl, hs', hCovers⟩
      | some next =>
          rw [hNext] at hCovers
          obtain ⟨hLater, hInside, hElements⟩ := hCovers
          obtain ⟨rest, s'', hRest, hs'', hAll⟩ := ih (i + 1) next hs' hInside (by omega)
          simp only [hNext, hRest]
          refine ⟨_, _, rfl, hs'', ?_⟩
          have hSplit : (l.drop position).take (next - position) ++ l.drop next =
              l.drop position := by
            have hHere := List.take_append_drop (next - position) (l.drop position)
            rwa [List.drop_drop, Nat.add_sub_cancel' (Nat.le_of_lt hLater)] at hHere
          rw [← hSplit]
          exact List.rel_append hElements hAll

/-! ## Lists that grow -/

/-- Every call gets a portion of the list as it is at that call, and leaves its number. -/
def ResumesGrowing (R : α → β → Prop) (l : Nat → List β)
    (call : Nat → Nat → Nat → Option (Portion α × Nat)) : Prop :=
  ∀ i position s, position ≤ (l i).length →
    ∃ portion, call i position s = some (portion, i) ∧ portion.Covers R (l i) position

section Growing

variable {R : α → β → Prop} {l : Nat → List β}
  {call : Nat → Nat → Nat → Option (Portion α × Nat)}

theorem prefix_of_le (hGrows : ∀ i, l i <+: l (i + 1)) {i j : Nat} (h : i ≤ j) :
    l i <+: l j := by
  induction h with
  | refl => exact List.prefix_refl _
  | step _ ih => exact ih.trans (hGrows _)

/-- **Run**: what a reader ends with is the list at its last call, from where it began. -/
theorem readAll_growing (h : ResumesGrowing R l call) (hGrows : ∀ i, l i <+: l (i + 1))
    {fuel i position s last : Nat} {elements : List α} (hPosition : position ≤ (l i).length)
    (hRead : readAll call fuel i position s = some (elements, last)) :
    i ≤ last ∧ List.Forall₂ R elements ((l last).drop position) := by
  induction fuel generalizing i position s elements with
  | zero => cases hRead
  | succ fuel ih =>
      obtain ⟨portion, hCall, hCovers⟩ := h i position s hPosition
      rw [readAll, hCall] at hRead
      unfold Portion.Covers at hCovers
      cases hNext : portion.next with
      | none =>
          rw [hNext] at hCovers
          simp only [hNext] at hRead
          cases hRead
          exact ⟨Nat.le_refl _, hCovers⟩
      | some next =>
          rw [hNext] at hCovers
          obtain ⟨hLater, hInside, hElements⟩ := hCovers
          simp only [hNext] at hRead
          obtain ⟨⟨rest, last'⟩, hRest, hAll⟩ := Option.map_eq_some_iff.mp hRead
          cases hAll
          have hStill : next ≤ (l (i + 1)).length := Nat.le_trans hInside (hGrows i).length_le
          obtain ⟨hLast, hTail⟩ := ih hStill hRest
          refine ⟨by omega, ?_⟩
          -- what was read before is still there
          obtain ⟨more, hMore⟩ := prefix_of_le hGrows (Nat.le_of_succ_le hLast)
          have hSame : ((l last').drop position).take (next - position) =
              ((l i).drop position).take (next - position) := by
            rw [← hMore, List.drop_append_of_le_length hPosition,
              List.take_append_of_le_length (by rw [List.length_drop]; omega)]
          have hSplit : ((l last').drop position).take (next - position) ++ (l last').drop next =
              (l last').drop position := by
            have hHere := List.take_append_drop (next - position) ((l last').drop position)
            rwa [List.drop_drop, Nat.add_sub_cancel' (Nat.le_of_lt hLater)] at hHere
          rw [← hSplit, hSame]
          exact List.rel_append hElements hTail

/-- **Run**: while the list stays within a bound the reader comes to an end. -/
theorem readAll_growing_ends (h : ResumesGrowing R l call) (hGrows : ∀ i, l i <+: l (i + 1))
    {bound : Nat} (hBound : ∀ i, (l i).length ≤ bound) (fuel i position s : Nat)
    (hPosition : position ≤ (l i).length) (hFuel : bound - position < fuel) :
    (readAll call fuel i position s).isSome := by
  induction fuel generalizing i position s with
  | zero => omega
  | succ fuel ih =>
      obtain ⟨portion, hCall, hCovers⟩ := h i position s hPosition
      rw [readAll, hCall]
      unfold Portion.Covers at hCovers
      cases hNext : portion.next with
      | none =>
          simp only [hNext]
          rfl
      | some next =>
          rw [hNext] at hCovers
          obtain ⟨hLater, hInside, -⟩ := hCovers
          have hWithin := Nat.le_trans hInside (hBound i)
          have hRest := ih (i + 1) next i (Nat.le_trans hInside (hGrows i).length_le)
            (by omega)
          simp only [hNext, Option.isSome_map]
          exact hRest

end Growing

end LedgerFS.Library
