import Mathlib.Data.List.Induction

/-!
# Replays that count their errors

A replay folds a step over events.  It keeps values, and a count of the events it could
not carry out as they stand.  The exact replay carries out every event.  While all events
fit, the two have the same values, and the replay counts no error exactly as long as they
do (`Follows.errors_eq_iff`, `Follows.values_eq`).

`AtEach` speaks of an event of a history together with the events before it; two
properties that agree along an invariant agree at each event (`atEach_iff`).
-/

namespace LedgerFS.Library

variable {ε : Type}

/-- A property of each event and the events before it. -/
def AtEach (P : List ε → ε → Prop) (events : List ε) : Prop :=
  ∀ before e after, events = before ++ e :: after → P before e

theorem atEach_nil (P : List ε → ε → Prop) : AtEach P [] := by
  intro before e after hSplit
  cases before <;> cases hSplit

/-- The first event comes before all others. -/
theorem atEach_cons (P : List ε → ε → Prop) (first : ε) (events : List ε) :
    AtEach P (first :: events) ↔
      P [] first ∧ AtEach (fun before e => P (first :: before) e) events := by
  constructor
  · intro h
    refine ⟨h [] first events rfl, ?_⟩
    intro before e after hSplit
    apply h (first :: before) e after
    rw [hSplit, List.cons_append]
  · intro h before e after hSplit
    cases before with
    | nil =>
        cases hSplit
        exact h.1
    | cons f before =>
        cases hSplit
        exact h.2 before e after rfl

/-- The last event comes after all others. -/
theorem atEach_concat (P : List ε → ε → Prop) (events : List ε) (last : ε) :
    AtEach P (events ++ [last]) ↔ AtEach P events ∧ P events last := by
  constructor
  · intro h
    refine ⟨?_, h events last [] rfl⟩
    intro before e after hSplit
    apply h before e (after ++ [last])
    rw [hSplit, List.append_assoc, List.cons_append]
  · intro h before e after hSplit
    rcases List.eq_nil_or_concat after with rfl | ⟨after, f, rfl⟩
    · obtain ⟨rfl, hLast⟩ := List.append_inj' hSplit rfl
      cases hLast
      exact h.2
    · apply h.1 before e after
      have hShift : events ++ [last] = (before ++ e :: after) ++ [f] := by
        rw [hSplit, List.append_assoc, List.cons_append, List.concat_eq_append]
      exact (List.append_inj' hShift rfl).1

/-- Two properties of an event and the state before it, which agree wherever an
invariant holds that the first one carries along, hold together at each event
of a history. -/
theorem atEach_iff {σ : Type} (step : σ → ε → σ) (start : σ) (I : σ → Prop)
    {P Q : σ → ε → Prop} (hStart : I start) (hAgree : ∀ s e, I s → (P s e ↔ Q s e))
    (hKeep : ∀ s e, I s → P s e → I (step s e)) (events : List ε) :
    AtEach (fun before e => P (before.foldl step start) e) events ↔
      AtEach (fun before e => Q (before.foldl step start) e) events := by
  have hRun : ((AtEach (fun before e => P (before.foldl step start) e) events ↔
      AtEach (fun before e => Q (before.foldl step start) e) events) ∧
      (AtEach (fun before e => P (before.foldl step start) e) events →
        I (events.foldl step start))) := by
    induction events using List.reverseRecOn with
    | nil => exact ⟨iff_of_true (atEach_nil _) (atEach_nil _), fun _ => hStart⟩
    | append_singleton events last ih =>
        obtain ⟨ihIff, ihInvariant⟩ := ih
        rw [atEach_concat, atEach_concat, ← ihIff]
        constructor
        · exact and_congr_right fun hBefore => hAgree _ last (ihInvariant hBefore)
        · intro hBoth
          rw [List.foldl_append]
          exact hKeep _ last (ihInvariant hBoth.1) hBoth.2
  exact hRun.1

/-- A step follows the exact one on the events that fit, and counts an error on the
others. -/
structure Follows {σ τ : Type} (step : σ → ε → σ) (exact : τ → ε → τ) (values : σ → τ)
    (errors : σ → Nat) (Fits : τ → ε → Prop) : Prop where
  fits : ∀ s e, Fits (values s) e →
    errors (step s e) = errors s ∧ values (step s e) = exact (values s) e
  fails : ∀ s e, ¬ Fits (values s) e → errors s < errors (step s e)

namespace Follows

variable {σ τ : Type} {step : σ → ε → σ} {exact : τ → ε → τ} {values : σ → τ}
  {errors : σ → Nat} {Fits : τ → ε → Prop}

/-- **Step**: errors are never taken back. -/
theorem errors_le (h : Follows step exact values errors Fits) (s : σ) (e : ε) :
    errors s ≤ errors (step s e) := by
  by_cases hFits : Fits (values s) e
  · exact Nat.le_of_eq (h.fits s e hFits).1.symm
  · exact Nat.le_of_lt (h.fails s e hFits)

theorem errors_le_run (h : Follows step exact values errors Fits) (s : σ) (events : List ε) :
    errors s ≤ errors (events.foldl step s) := by
  induction events generalizing s with
  | nil => exact Nat.le_refl _
  | cons e events ih => exact Nat.le_trans (h.errors_le s e) (ih (step s e))

/-- **Run**: without an error the values are the exact ones, and there is none exactly
when each event fits the exact values before it. -/
theorem run (h : Follows step exact values errors Fits) (s : σ) (events : List ε) :
    (errors (events.foldl step s) = errors s ↔
        AtEach (fun before e => Fits (before.foldl exact (values s)) e) events) ∧
      (errors (events.foldl step s) = errors s →
        values (events.foldl step s) = events.foldl exact (values s)) := by
  induction events using List.reverseRecOn with
  | nil => exact ⟨iff_of_true rfl (atEach_nil _), fun _ => rfl⟩
  | append_singleton events e ih =>
      rw [List.foldl_append, List.foldl_append, atEach_concat]
      show (errors (step (events.foldl step s) e) = errors s ↔ _) ∧
        (errors (step (events.foldl step s) e) = errors s →
          values (step (events.foldl step s) e) = exact (events.foldl exact (values s)) e)
      have hBefore := h.errors_le_run s events
      have hHere := h.errors_le (events.foldl step s) e
      by_cases hClean : errors (events.foldl step s) = errors s
      · rw [← ih.2 hClean, ← ih.1, hClean]
        by_cases hFits : Fits (values (events.foldl step s)) e
        · obtain ⟨hSame, hValues⟩ := h.fits _ e hFits
          exact ⟨iff_of_true (hSame.trans hClean) ⟨rfl, hFits⟩, fun _ => hValues⟩
        · have hMore := h.fails _ e hFits
          have hNot : errors (step (events.foldl step s) e) ≠ errors s := by omega
          exact ⟨iff_of_false hNot fun hBoth => hFits hBoth.2, fun hSame => absurd hSame hNot⟩
      · have hNot : errors (step (events.foldl step s) e) ≠ errors s := by omega
        rw [← ih.1]
        exact ⟨iff_of_false hNot fun hBoth => hClean hBoth.1, fun hSame => absurd hSame hNot⟩

/-- There is no error exactly when each event fits the exact values before it. -/
theorem errors_eq_iff (h : Follows step exact values errors Fits) (s : σ) (events : List ε) :
    errors (events.foldl step s) = errors s ↔
      AtEach (fun before e => Fits (before.foldl exact (values s)) e) events :=
  (h.run s events).1

/-- Without an error the values are the exact ones. -/
theorem values_eq (h : Follows step exact values errors Fits) (s : σ) (events : List ε)
    (hClean : errors (events.foldl step s) = errors s) :
    values (events.foldl step s) = events.foldl exact (values s) :=
  (h.run s events).2 hClean

end Follows

end LedgerFS.Library
