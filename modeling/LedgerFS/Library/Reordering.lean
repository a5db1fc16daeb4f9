import Mathlib.Logic.Relation

/-!
# Reordering of independent steps

Steps that commute may be taken in another order.  `Exchange` swaps two neighbours of a
list that a relation allows to be swapped; where related steps commute, a fold does not
see any number of exchanges (`foldl_eq_of_exchanges`).  Two blocks of steps commute when
each step of the one commutes with each of the other (`foldl_comm_of_blocks`).
-/

namespace LedgerFS.Library

variable {σ ε : Type}

/-- Two neighbours that are allowed to are swapped. -/
inductive Exchange (Allowed : ε → ε → Prop) : List ε → List ε → Prop
  | swap (before : List ε) (e f : ε) (after : List ε) (h : Allowed e f) :
      Exchange Allowed (before ++ e :: f :: after) (before ++ f :: e :: after)

/-- Any number of exchanges, one after the other. -/
abbrev Exchanges (Allowed : ε → ε → Prop) : List ε → List ε → Prop :=
  Relation.ReflTransGen (Exchange Allowed)

section Folds

variable {step : σ → ε → σ}

theorem foldl_eq_of_exchange {Allowed : ε → ε → Prop}
    (hComm : ∀ s e f, Allowed e f → step (step s e) f = step (step s f) e) {es fs : List ε}
    (h : Exchange Allowed es fs) (s : σ) : es.foldl step s = fs.foldl step s := by
  cases h with
  | swap before e f after hAllowed =>
      rw [List.foldl_append, List.foldl_append]
      simp only [List.foldl_cons]
      rw [hComm _ e f hAllowed]

/-- **Run**: the order of independent steps does not matter. -/
theorem foldl_eq_of_exchanges {Allowed : ε → ε → Prop}
    (hComm : ∀ s e f, Allowed e f → step (step s e) f = step (step s f) e) {es fs : List ε}
    (h : Exchanges Allowed es fs) (s : σ) : es.foldl step s = fs.foldl step s := by
  induction h with
  | refl => rfl
  | tail _ hStep ih => rw [ih, foldl_eq_of_exchange hComm hStep]

/-- One step goes past a block. -/
theorem foldl_step_of_block {e : ε} {fs : List ε}
    (hComm : ∀ f ∈ fs, ∀ s, step (step s e) f = step (step s f) e) (s : σ) :
    fs.foldl step (step s e) = step (fs.foldl step s) e := by
  induction fs generalizing s with
  | nil => rfl
  | cons f fs ih =>
      have hHere := hComm f List.mem_cons_self s
      have hRest : ∀ g ∈ fs, ∀ s, step (step s e) g = step (step s g) e := fun g hg =>
        hComm g (List.mem_cons_of_mem f hg)
      rw [List.foldl_cons, List.foldl_cons, hHere]
      exact ih hRest _

/-- **Blocks**: a block goes past a block. -/
theorem foldl_comm_of_blocks {es fs : List ε}
    (hComm : ∀ e ∈ es, ∀ f ∈ fs, ∀ s, step (step s e) f = step (step s f) e) (s : σ) :
    fs.foldl step (es.foldl step s) = es.foldl step (fs.foldl step s) := by
  induction es generalizing s with
  | nil => rfl
  | cons e es ih =>
      have hHere := hComm e List.mem_cons_self
      have hRest : ∀ g ∈ es, ∀ f ∈ fs, ∀ s, step (step s g) f = step (step s f) g :=
        fun g hg => hComm g (List.mem_cons_of_mem e hg)
      rw [List.foldl_cons, List.foldl_cons, ih hRest, foldl_step_of_block hHere]

end Folds

end LedgerFS.Library
