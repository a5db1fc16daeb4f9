import LedgerFS.Library.GuardedCalls
import Mathlib.Data.DFinsupp.WellFounded
import Mathlib.Order.WellFounded
import Mathlib.SetTheory.Cardinal.Order

/-!
# Calls under a readers-writer lock come to an end

Every step of the system moves one call on, and a call only moves on: from waiting to
inside, there from an operation to what is left of it, and from inside to finished
(`Later`).  An operation is a tree of steps and so has no infinite branch, though its
branches need not be bounded.  With finitely many calls there is therefore no infinite
interleaving (`step_wellFounded`).

A call that waits for the lock waits for a call that is inside, and that one can always
move.  So nothing is stuck as long as a call is unfinished (`Reachable.exists_step`), and
a run that cannot go on has answered every call (`Reachable.finished_of_stuck`).
-/

namespace LedgerFS.Library

namespace CallSystem

variable {σ ρ ι : Type}

/-! ## One call -/

/-- Where a call may stand after one step of its own. -/
inductive Later : CallState σ ρ → CallState σ ρ → Prop
  | answered (r : ρ) : Later (.finished r) .waiting
  | begun (body : Steps σ ρ) : Later (.inside body) .waiting
  | stepped (effect : σ → σ) (next : σ → Steps σ ρ) (s : σ) :
      Later (.inside (next s)) (.inside (.step effect next))
  | released (r : ρ) : Later (.finished r) (.inside (.done r))

theorem acc_finished (r : ρ) : Acc Later (.finished r : CallState σ ρ) := by
  constructor
  intro c hLater
  cases hLater

/-- An operation has no infinite branch. -/
theorem acc_inside (rest : Steps σ ρ) : Acc Later (.inside rest) := by
  induction rest with
  | done r =>
      constructor
      intro c hLater
      cases hLater
      exact acc_finished r
  | step effect next ih =>
      constructor
      intro c hLater
      cases hLater with
      | stepped _ _ s => exact ih s

theorem later_wellFounded : WellFounded (Later : CallState σ ρ → CallState σ ρ → Prop) := by
  constructor
  intro c
  cases c with
  | finished r => exact acc_finished r
  | inside rest => exact acc_inside rest
  | waiting =>
      constructor
      intro c hLater
      cases hLater with
      | answered r => exact acc_finished r
      | begun body => exact acc_inside body

/-! ## All calls -/

section Termination

variable [DecidableEq ι] {jobs : ι → GuardedCall σ ρ}

/-- A step moves one call on. -/
theorem Step.later {sys sys' : CallSystem ι σ ρ} (h : Step jobs sys sys') :
    ∃ i c, sys'.calls = Function.update sys.calls i c ∧ Later c (sys.calls i) := by
  cases h with
  | answered i r hCall =>
      refine ⟨i, .finished r, rfl, ?_⟩
      rw [hCall]
      exact .answered r
  | acquired i hCall =>
      refine ⟨i, .inside (jobs i).body, rfl, ?_⟩
      rw [hCall]
      exact .begun _
  | stepped i effect next hCall =>
      refine ⟨i, .inside (next sys.state), rfl, ?_⟩
      rw [hCall]
      exact .stepped effect next sys.state
  | released i r hCall =>
      refine ⟨i, .finished r, rfl, ?_⟩
      rw [hCall]
      exact .released r

/-- **Termination**: finitely many calls have no infinite interleaving. -/
theorem step_wellFounded [Finite ι] (jobs : ι → GuardedCall σ ρ) :
    WellFounded fun sys' sys : CallSystem ι σ ρ => Step jobs sys sys' := by
  have hCalls : WellFounded (Pi.Lex WellOrderingRel
      fun {_ : ι} => (Later : CallState σ ρ → CallState σ ρ → Prop)) :=
    Pi.Lex.wellFounded WellOrderingRel fun _ => later_wellFounded
  refine Subrelation.wf ?_ (InvImage.wf CallSystem.calls hCalls)
  intro sys' sys hStep
  obtain ⟨i, c, hNext, hLater⟩ := hStep.later
  show Pi.Lex _ _ sys'.calls sys.calls
  rw [hNext]
  -- the other calls stay where they are
  refine ⟨i, fun j hj => Function.update_of_ne (ne_of_irrefl hj) c sys.calls, ?_⟩
  rw [Function.update_self]
  exact hLater

theorem no_infinite_run [Finite ι] (run : Nat → CallSystem ι σ ρ) :
    ¬ ∀ n, Step jobs (run n) (run (n + 1)) := by
  intro hRun
  exact (wellFounded_iff_isEmpty_descending_chain.mp (step_wellFounded jobs)).false ⟨run, hRun⟩

end Termination

/-! ## Nothing is stuck -/

section Progress

variable [DecidableEq ι] {jobs : ι → GuardedCall σ ρ} {start : σ} {sys : CallSystem ι σ ρ}

/-- A call inside can always move. -/
theorem exists_step_of_inside {i : ι} (hInside : sys.Inside i) : ∃ sys', Step jobs sys sys' := by
  obtain ⟨rest, hCall⟩ := hInside
  cases rest with
  | done r => exact ⟨_, .released i r hCall⟩
  | step effect next => exact ⟨_, .stepped i effect next hCall⟩

omit [DecidableEq ι] in
/-- A lock that cannot be had is held by a call inside. -/
theorem Excludes.exists_inside (h : Excludes jobs sys) {access : Access}
    (hGuarded : access ≠ .unguarded) (hNot : ¬ sys.lock.Admits access) :
    ∃ i, sys.Inside i := by
  by_cases hWriter : sys.lock.writer = true
  · obtain ⟨i, hInside, -⟩ := h.writer.mp hWriter
    exact ⟨i, hInside⟩
  · rw [Bool.not_eq_true] at hWriter
    cases access with
    | unguarded => exact absurd rfl hGuarded
    | shared => exact absurd hWriter hNot
    | exclusive =>
        obtain ⟨holders, hCard, hHolders⟩ := h.readers
        have hSome : holders.Nonempty := by
          rw [← Finset.card_pos, hCard, Nat.pos_iff_ne_zero]
          exact fun hNone => hNot ⟨hWriter, hNone⟩
        obtain ⟨i, hi⟩ := hSome
        exact ⟨i, ((hHolders i).mp hi).1⟩

/-- **No deadlock**: as long as a call is unfinished, some call can move. -/
theorem Reachable.exists_step (hReach : Reachable jobs start sys) {i : ι}
    (hUnfinished : ∀ r, sys.calls i ≠ .finished r) : ∃ sys', Step jobs sys sys' := by
  cases hCall : sys.calls i with
  | finished r => exact absurd hCall (hUnfinished r)
  | inside rest => exact exists_step_of_inside ⟨rest, hCall⟩
  | waiting =>
      by_cases hAccess : (jobs i).access = .unguarded
      · obtain ⟨r, hBody⟩ := (jobs i).settled hAccess
        exact ⟨_, .answered i r hCall hAccess hBody⟩
      · by_cases hAdmits : sys.lock.Admits (jobs i).access
        · exact ⟨_, .acquired i hCall hAdmits⟩
        · obtain ⟨j, hInside⟩ := hReach.invariant.1.exists_inside hAccess hAdmits
          exact exists_step_of_inside hInside

/-- A run that cannot go on has answered every call. -/
theorem Reachable.finished_of_stuck (hReach : Reachable jobs start sys)
    (hStuck : ∀ sys', ¬ Step jobs sys sys') (i : ι) : ∃ r, sys.calls i = .finished r := by
  by_contra hNot
  obtain ⟨sys', hStep⟩ := hReach.exists_step (i := i) (fun r hCall => hNot ⟨r, hCall⟩)
  exact hStuck sys' hStep

/-- Every run can be continued until every call is answered. -/
theorem Reachable.exists_finished [Finite ι] (hReach : Reachable jobs start sys) :
    ∃ sys', Relation.ReflTransGen (Step jobs) sys sys' ∧ Reachable jobs start sys' ∧
      ∀ i, ∃ r, sys'.calls i = .finished r := by
  induction sys using (step_wellFounded jobs).induction with
  | _ sys ih =>
      by_cases hStuck : ∀ sys', ¬ Step jobs sys sys'
      · exact ⟨sys, .refl, hReach, hReach.finished_of_stuck hStuck⟩
      · rw [not_forall] at hStuck
        obtain ⟨sys', hStep⟩ := hStuck
        rw [not_not] at hStep
        obtain ⟨last, hRun, hLast, hFinished⟩ := ih sys' hStep (hReach.tail hStep)
        exact ⟨last, .head hStep hRun, hLast, hFinished⟩

/-- The system once a call has run from the lock to its end. -/
def afterRun (jobs : ι → GuardedCall σ ρ) (sys : CallSystem ι σ ρ) (i : ι) :
    CallSystem ι σ ρ where
  state := ((jobs i).body.exec sys.state).2
  calls := Function.update sys.calls i (.finished ((jobs i).body.exec sys.state).1)
  lock := (sys.lock.acquire (jobs i).access).release (jobs i).access
  order := sys.order ++ [i]

/-- A waiting call that the lock admits may run to its end. -/
theorem steps_afterRun {i : ι} (hCall : sys.calls i = .waiting)
    (hAdmits : sys.lock.Admits (jobs i).access) :
    Relation.ReflTransGen (Step jobs) sys (afterRun jobs sys i) :=
  exists_run i sys hCall hAdmits

omit [DecidableEq ι] in
/-- Nobody is inside who has finished. -/
theorem not_inside_of_finished (hFinished : ∀ i, ∃ r, sys.calls i = .finished r) (i : ι) :
    ¬ sys.Inside i := by
  rintro ⟨rest, hCall⟩
  obtain ⟨r, hDone⟩ := hFinished i
  rw [hDone] at hCall
  cases hCall

end Progress

end CallSystem

/-! ## Calls with another answer -/

namespace GuardedCall

variable {σ ρ ρ' : Type}

/-- The same call, with its answer wrapped. -/
def map (f : ρ → ρ') (call : GuardedCall σ ρ) : GuardedCall σ ρ' where
  access := call.access
  body := f <$> call.body
  settled := by
    intro hAccess
    obtain ⟨r, hBody⟩ := call.settled hAccess
    rw [hBody]
    exact ⟨f r, rfl⟩
  reads := fun hAccess => (call.reads hAccess).map f

@[simp] theorem map_access (f : ρ → ρ') (call : GuardedCall σ ρ) :
    (call.map f).access = call.access := rfl

@[simp] theorem exec_map_body (f : ρ → ρ') (call : GuardedCall σ ρ) (s : σ) :
    (call.map f).body.exec s = (f (call.body.exec s).1, (call.body.exec s).2) :=
  Steps.exec_map f call.body s

end GuardedCall

/-! ## The sequential run -/

section Sequential

variable {σ ρ ι : Type} (perform : ι → σ → ρ × σ)

/-- Every answer is given on the state that the calls before it have left. -/
theorem exists_prefix_of_answer {order : List ι} {s : σ} {i : ι} {r : ρ}
    (h : (i, r) ∈ (sequentially perform order s).1) :
    ∃ before after, order = before ++ i :: after ∧
      r = (perform i (sequentially perform before s).2).1 := by
  induction order generalizing s with
  | nil => cases h
  | cons j order ih =>
      rcases List.mem_cons.mp h with hHere | hLater
      · obtain ⟨rfl, rfl⟩ := Prod.mk.inj hHere
        exact ⟨[], order, rfl, rfl⟩
      · obtain ⟨before, after, rfl, hAnswer⟩ := ih hLater
        exact ⟨j :: before, after, rfl, hAnswer⟩

/-- What each call keeps, all of them keep. -/
theorem sequentially_keeps {p : σ → Prop} (hKeep : ∀ i s, p s → p (perform i s).2)
    (order : List ι) {s : σ} (h : p s) : p (sequentially perform order s).2 := by
  induction order generalizing s with
  | nil => exact h
  | cons i order ih => exact ih (hKeep i s h)

end Sequential

end LedgerFS.Library
