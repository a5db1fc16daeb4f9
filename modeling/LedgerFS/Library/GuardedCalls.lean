import Mathlib.Data.Finset.Card
import Mathlib.Logic.Relation

/-!
# Calls under a readers-writer lock

Several parties call operations on one shared state.  An operation is a tree of
atomic steps (`Steps`), and between any two of them other calls may take theirs.
A call first acquires the lock, shared or exclusively, and releases it after its
last step; a call whose answer is settled in advance returns without the lock.

The lock is a word: whether it is held exclusively, and by how many calls it is
shared.  What it is good for is `Reachable.linearizes`: whatever the
interleaving, every answer and the state left behind are those of the calls made
one at a time, in the order in which they acquired the lock.  The invariant
behind it (`Consistent`) ties the word to the calls that are inside, and every
call inside to the answer that the sequential run gives it.
-/

namespace LedgerFS.Library

variable {σ ρ α β ι : Type}

/-! ## Atomic steps -/

/-- An operation as the atomic steps it takes; what comes next depends on the
state that a step has met. -/
inductive Steps (σ ρ : Type) : Type
  | done (result : ρ)
  | step (effect : σ → σ) (next : σ → Steps σ ρ)

namespace Steps

/-- One operation after the other. -/
def bind : Steps σ α → (α → Steps σ β) → Steps σ β
  | .done a, f => f a
  | .step effect next, f => .step effect fun s => (next s).bind f

instance : Monad (Steps σ) where
  pure := .done
  bind := bind

/-- The operation by itself: its result and the state it leaves. -/
def exec : Steps σ ρ → σ → ρ × σ
  | .done r, s => (r, s)
  | .step effect next, s => (next s).exec (effect s)

@[simp] theorem exec_done (r : ρ) (s : σ) : (done r).exec s = (r, s) := rfl

@[simp] theorem exec_step (effect : σ → σ) (next : σ → Steps σ ρ) (s : σ) :
    (step effect next).exec s = (next s).exec (effect s) := rfl

@[simp] theorem exec_pure (a : α) (s : σ) : (pure a : Steps σ α).exec s = (a, s) := rfl

@[simp] theorem exec_bind (p : Steps σ α) (f : α → Steps σ β) (s : σ) :
    (p >>= f).exec s = (f (p.exec s).1).exec (p.exec s).2 := by
  show (p.bind f).exec s = _
  induction p generalizing s with
  | done a => rfl
  | step effect next ih => exact ih s (effect s)

/-- No step changes the state. -/
inductive ReadOnly : Steps σ ρ → Prop
  | done (r : ρ) : ReadOnly (.done r)
  | step {effect : σ → σ} {next : σ → Steps σ ρ} (hEffect : ∀ s, effect s = s)
      (hNext : ∀ s, (next s).ReadOnly) : ReadOnly (.step effect next)

@[simp] theorem exec_map (f : α → β) (p : Steps σ α) (s : σ) :
    (f <$> p).exec s = (f (p.exec s).1, (p.exec s).2) :=
  exec_bind p (fun a => pure (f a)) s

theorem ReadOnly.bind {p : Steps σ α} {f : α → Steps σ β} (hp : p.ReadOnly)
    (hf : ∀ a, (f a).ReadOnly) : ReadOnly (p >>= f) := by
  show ReadOnly (p.bind f)
  induction hp with
  | done a => exact hf a
  | step hEffect _ ih => exact .step hEffect ih

theorem ReadOnly.map {p : Steps σ α} (hp : p.ReadOnly) (f : α → β) : ReadOnly (f <$> p) :=
  hp.bind fun a => .done (f a)

theorem ReadOnly.exec_snd {p : Steps σ ρ} (hp : p.ReadOnly) (s : σ) : (p.exec s).2 = s := by
  induction hp generalizing s with
  | done r => rfl
  | @step effect next hEffect _ ih =>
      rw [exec_step, hEffect]
      exact ih s s

/-- What is left of an operation that only reads only reads. -/
theorem ReadOnly.next {effect : σ → σ} {next : σ → Steps σ ρ}
    (h : ReadOnly (.step effect next)) (s : σ) : effect s = s ∧ (next s).ReadOnly := by
  cases h with
  | step hEffect hNext => exact ⟨hEffect s, hNext s⟩

end Steps

/-! ## The lock -/

/-- How a call takes the lock. -/
inductive Access
  | unguarded
  | shared
  | exclusive
deriving DecidableEq

/-- A call: its steps and how it guards them.  Only an answer that is settled in
advance goes without the lock, and a shared holder only reads. -/
structure GuardedCall (σ ρ : Type) where
  access : Access
  body : Steps σ ρ
  settled : access = .unguarded → ∃ r, body = .done r
  reads : access = .shared → body.ReadOnly

namespace GuardedCall

/-- A call that returns before it asks for the lock. -/
def settledAs (r : ρ) : GuardedCall σ ρ where
  access := .unguarded
  body := .done r
  settled := fun _ => ⟨r, rfl⟩
  reads := by simp

/-- A call under the shared lock. -/
def underShared (body : Steps σ ρ) (hReads : body.ReadOnly) : GuardedCall σ ρ where
  access := .shared
  body := body
  settled := by simp
  reads := fun _ => hReads

/-- A call under the exclusive lock. -/
def underExclusive (body : Steps σ ρ) : GuardedCall σ ρ where
  access := .exclusive
  body := body
  settled := by simp
  reads := by simp

end GuardedCall

/-- The lock word. -/
structure LockWord where
  writer : Bool
  readers : Nat
deriving DecidableEq

namespace LockWord

def free : LockWord := ⟨false, 0⟩

/-- The lock can be had now. -/
def Admits (lock : LockWord) : Access → Prop
  | .unguarded => False
  | .shared => lock.writer = false
  | .exclusive => lock.writer = false ∧ lock.readers = 0

def acquire (lock : LockWord) : Access → LockWord
  | .unguarded => lock
  | .shared => { lock with readers := lock.readers + 1 }
  | .exclusive => { lock with writer := true }

def release (lock : LockWord) : Access → LockWord
  | .unguarded => lock
  | .shared => { lock with readers := lock.readers - 1 }
  | .exclusive => { lock with writer := false }

end LockWord

/-! ## The system -/

/-- Where a call stands. -/
inductive CallState (σ ρ : Type)
  | waiting
  | inside (rest : Steps σ ρ)
  | finished (result : ρ)

/-- The shared state, the calls, the lock, and the order of its acquisitions. -/
structure CallSystem (ι σ ρ : Type) where
  state : σ
  calls : ι → CallState σ ρ
  lock : LockWord
  order : List ι

namespace CallSystem

/-- No call has begun. -/
def initial (s : σ) : CallSystem ι σ ρ := ⟨s, fun _ => .waiting, .free, []⟩

/-- A call has the lock. -/
def Inside (sys : CallSystem ι σ ρ) (i : ι) : Prop := ∃ rest, sys.calls i = .inside rest

section Run

variable [DecidableEq ι] (jobs : ι → GuardedCall σ ρ)

/-- One atomic step of one call. -/
inductive Step : CallSystem ι σ ρ → CallSystem ι σ ρ → Prop
  | answered {sys : CallSystem ι σ ρ} (i : ι) (r : ρ) (hCall : sys.calls i = .waiting)
      (hAccess : (jobs i).access = .unguarded) (hBody : (jobs i).body = .done r) :
      Step sys { sys with calls := Function.update sys.calls i (.finished r) }
  | acquired {sys : CallSystem ι σ ρ} (i : ι) (hCall : sys.calls i = .waiting)
      (hAdmits : sys.lock.Admits (jobs i).access) :
      Step sys
        { sys with
          calls := Function.update sys.calls i (.inside (jobs i).body)
          lock := sys.lock.acquire (jobs i).access
          order := sys.order ++ [i] }
  | stepped {sys : CallSystem ι σ ρ} (i : ι) (effect : σ → σ) (next : σ → Steps σ ρ)
      (hCall : sys.calls i = .inside (.step effect next)) :
      Step sys
        { sys with
          state := effect sys.state
          calls := Function.update sys.calls i (.inside (next sys.state)) }
  | released {sys : CallSystem ι σ ρ} (i : ι) (r : ρ)
      (hCall : sys.calls i = .inside (.done r)) :
      Step sys
        { sys with
          calls := Function.update sys.calls i (.finished r)
          lock := sys.lock.release (jobs i).access }

/-- What the calls can come to, in any interleaving. -/
def Reachable (start : σ) (sys : CallSystem ι σ ρ) : Prop :=
  Relation.ReflTransGen (Step jobs) (.initial start) sys

end Run

end CallSystem

/-- The calls one at a time: what each answers, and the state at the end. -/
def sequentially (perform : ι → σ → ρ × σ) : List ι → σ → List (ι × ρ) × σ
  | [], s => ([], s)
  | i :: order, s =>
      let here := perform i s
      let rest := sequentially perform order here.2
      ((i, here.1) :: rest.1, rest.2)

section Sequential

variable (perform : ι → σ → ρ × σ)

theorem sequentially_append (order order' : List ι) (s : σ) :
    sequentially perform (order ++ order') s =
      ((sequentially perform order s).1 ++
          (sequentially perform order' (sequentially perform order s).2).1,
        (sequentially perform order' (sequentially perform order s).2).2) := by
  induction order generalizing s with
  | nil => rfl
  | cons i order ih =>
      rw [List.cons_append, sequentially, ih]
      rfl

theorem sequentially_concat (order : List ι) (i : ι) (s : σ) :
    sequentially perform (order ++ [i]) s =
      ((sequentially perform order s).1 ++
          [(i, (perform i (sequentially perform order s).2).1)],
        (perform i (sequentially perform order s).2).2) :=
  sequentially_append perform order [i] s

/-- Every call of the order is answered. -/
theorem keys_sequentially (order : List ι) (s : σ) :
    (sequentially perform order s).1.map Prod.fst = order := by
  induction order generalizing s with
  | nil => rfl
  | cons i order ih => rw [sequentially, List.map_cons, ih]

/-- Every answer was given on some state. -/
theorem sequentially_answer {order : List ι} {s : σ} {answer : ι × ρ}
    (h : answer ∈ (sequentially perform order s).1) :
    ∃ s', (perform answer.1 s').1 = answer.2 := by
  induction order generalizing s with
  | nil => cases h
  | cons i order ih =>
      rcases List.mem_cons.mp h with rfl | hLater
      · exact ⟨s, rfl⟩
      · exact ih hLater

/-- Calls that leave the state alone can be left out. -/
theorem sequentially_filter (keep : ι → Bool)
    (hKeep : ∀ i, keep i = false → ∀ s, (perform i s).2 = s) (order : List ι) (s : σ) :
    sequentially perform (order.filter keep) s =
      ((sequentially perform order s).1.filter fun answer => keep answer.1,
        (sequentially perform order s).2) := by
  induction order generalizing s with
  | nil => rfl
  | cons i order ih =>
      cases hi : keep i with
      | true =>
          rw [List.filter_cons_of_pos hi, sequentially, sequentially, ih,
            List.filter_cons_of_pos (by exact hi)]
      | false =>
          rw [List.filter_cons_of_neg (by simp [hi]), ih, sequentially, hKeep i hi,
            List.filter_cons_of_neg (by simp [hi])]

end Sequential

/-! ## The invariant -/

namespace CallSystem

section Invariant

variable (jobs : ι → GuardedCall σ ρ)

/-- The calls one at a time, each with the state to itself. -/
def oneAtATime (order : List ι) (s : σ) : List (ι × ρ) × σ :=
  sequentially (fun i => (jobs i).body.exec) order s

/-- The lock word tells who is inside. -/
structure Excludes (sys : CallSystem ι σ ρ) : Prop where
  guarded : ∀ i, sys.Inside i → (jobs i).access ≠ .unguarded
  writer : sys.lock.writer = true ↔ ∃ i, sys.Inside i ∧ (jobs i).access = .exclusive
  readers : ∃ holders : Finset ι, holders.card = sys.lock.readers ∧
    ∀ i, i ∈ holders ↔ sys.Inside i ∧ (jobs i).access = .shared
  alone : ∀ i j, sys.Inside i → (jobs i).access = .exclusive → sys.Inside j → j = i
  reads : ∀ i rest, sys.calls i = .inside rest → (jobs i).access = .shared → rest.ReadOnly

/-- The run so far and the calls one at a time: who is finished has the answer of
the sequential run, and who is inside will get it from the state as it is. -/
structure Simulates (start : σ) (sys : CallSystem ι σ ρ) : Prop where
  nodup : sys.order.Nodup
  ordered : ∀ i, i ∈ sys.order ↔ (jobs i).access ≠ .unguarded ∧ sys.calls i ≠ .waiting
  answered : ∀ i r, sys.calls i = .finished r → (jobs i).access ≠ .unguarded →
    (i, r) ∈ (oneAtATime jobs sys.order start).1
  settled : ∀ i r, sys.calls i = .finished r → (jobs i).access = .unguarded →
    (jobs i).body = .done r
  pending : ∀ i rest, sys.calls i = .inside rest →
    (i, (rest.exec sys.state).1) ∈ (oneAtATime jobs sys.order start).1
  quiet : (∀ i, sys.Inside i → (jobs i).access ≠ .exclusive) →
    (oneAtATime jobs sys.order start).2 = sys.state
  writing : ∀ i rest, sys.calls i = .inside rest → (jobs i).access = .exclusive →
    (oneAtATime jobs sys.order start).2 = (rest.exec sys.state).2

variable {jobs}

theorem excludes_initial (s : σ) : Excludes jobs (.initial s) where
  guarded := by
    rintro i ⟨rest, hCall⟩
    cases hCall
  writer := by
    refine iff_of_false (by simp [initial, LockWord.free]) ?_
    rintro ⟨i, ⟨rest, hCall⟩, -⟩
    cases hCall
  readers := by
    refine ⟨∅, rfl, fun i => iff_of_false (by simp) ?_⟩
    rintro ⟨⟨rest, hCall⟩, -⟩
    cases hCall
  alone := by
    rintro i j ⟨rest, hCall⟩
    cases hCall
  reads := by
    intro i rest hCall
    cases hCall

theorem simulates_initial (s : σ) : Simulates jobs s (.initial s) where
  nodup := List.nodup_nil
  ordered := fun i => by simp [initial]
  answered := by
    intro i r hCall
    cases hCall
  settled := by
    intro i r hCall
    cases hCall
  pending := by
    intro i rest hCall
    cases hCall
  quiet := fun _ => rfl
  writing := by
    intro i rest hCall
    cases hCall

/-! ### The lock word -/

/-- The same calls are inside. -/
theorem Excludes.congr {sys sys' : CallSystem ι σ ρ} (h : Excludes jobs sys)
    (hLock : sys'.lock = sys.lock) (hInside : ∀ i, sys'.Inside i ↔ sys.Inside i)
    (hReads : ∀ i rest, sys'.calls i = .inside rest → (jobs i).access = .shared →
      rest.ReadOnly) : Excludes jobs sys' where
  guarded := fun i hi => h.guarded i ((hInside i).mp hi)
  writer := by
    simp only [hLock, hInside]
    exact h.writer
  readers := by
    simp only [hLock, hInside]
    exact h.readers
  alone := fun i j hi hExclusive hj =>
    h.alone i j ((hInside i).mp hi) hExclusive ((hInside j).mp hj)
  reads := hReads

/-- A free enough lock has nobody inside who is in the way. -/
theorem Excludes.admits {sys : CallSystem ι σ ρ} (h : Excludes jobs sys) {access : Access}
    (hAdmits : sys.lock.Admits access) {j : ι} (hj : sys.Inside j) :
    access = .shared ∧ (jobs j).access = .shared := by
  have hFree : sys.lock.writer = false := by
    cases access with
    | unguarded => cases hAdmits
    | shared => exact hAdmits
    | exclusive => exact hAdmits.1
  have hShared : (jobs j).access = .shared := by
    cases hAccess : (jobs j).access with
    | unguarded => exact absurd hAccess (h.guarded j hj)
    | shared => rfl
    | exclusive =>
        have hHeld := h.writer.mpr ⟨j, hj, hAccess⟩
        rw [hFree] at hHeld
        cases hHeld
  refine ⟨?_, hShared⟩
  cases access with
  | unguarded => cases hAdmits
  | shared => rfl
  | exclusive =>
      obtain ⟨holders, hCard, hHolders⟩ := h.readers
      have hNone : holders = ∅ := Finset.card_eq_zero.mp (hCard.trans hAdmits.2)
      have hMem := (hHolders j).mpr ⟨hj, hShared⟩
      rw [hNone] at hMem
      cases hMem

/-- One more reader inside. -/
theorem Excludes.acquireShared [DecidableEq ι] {sys sys' : CallSystem ι σ ρ}
    (h : Excludes jobs sys) {i : ι} (hOut : ¬ sys.Inside i) (hAccess : (jobs i).access = .shared)
    (hAdmits : sys.lock.Admits .shared) (hLock : sys'.lock = sys.lock.acquire .shared)
    (hInside : ∀ j, sys'.Inside j ↔ j = i ∨ sys.Inside j)
    (hReads : ∀ j rest, sys'.calls j = .inside rest → (jobs j).access = .shared →
      rest.ReadOnly) : Excludes jobs sys' := by
  obtain ⟨holders, hCard, hHolders⟩ := h.readers
  have hNoWriter : ∀ j, sys'.Inside j → (jobs j).access = .shared := by
    intro j hj
    rcases (hInside j).mp hj with rfl | hj
    · exact hAccess
    · exact (h.admits hAdmits hj).2
  refine ⟨fun j hj => by simp [hNoWriter j hj], ?_, ?_, ?_, hReads⟩
  · refine iff_of_false ?_ ?_
    · rw [hLock]
      show ¬ sys.lock.writer = true
      rw [show sys.lock.writer = false from hAdmits]
      simp
    · rintro ⟨j, hj, hExclusive⟩
      rw [hNoWriter j hj] at hExclusive
      cases hExclusive
  · refine ⟨insert i holders, ?_, ?_⟩
    · rw [Finset.card_insert_of_notMem fun hMem => hOut ((hHolders i).mp hMem).1, hCard, hLock]
      rfl
    · intro j
      rw [Finset.mem_insert, hHolders, hInside]
      constructor
      · rintro (rfl | ⟨hj, hShared⟩)
        · exact ⟨Or.inl rfl, hAccess⟩
        · exact ⟨Or.inr hj, hShared⟩
      · rintro ⟨rfl | hj, hShared⟩
        · exact Or.inl rfl
        · exact Or.inr ⟨hj, hShared⟩
  · intro j k hj hExclusive
    rw [hNoWriter j hj] at hExclusive
    cases hExclusive

/-- A writer inside, alone. -/
theorem Excludes.acquireExclusive {sys sys' : CallSystem ι σ ρ}
    (h : Excludes jobs sys) {i : ι} (hAccess : (jobs i).access = .exclusive)
    (hAdmits : sys.lock.Admits .exclusive) (hLock : sys'.lock = sys.lock.acquire .exclusive)
    (hInside : ∀ j, sys'.Inside j ↔ j = i ∨ sys.Inside j)
    (hReads : ∀ j rest, sys'.calls j = .inside rest → (jobs j).access = .shared →
      rest.ReadOnly) : Excludes jobs sys' := by
  obtain ⟨holders, hCard, hHolders⟩ := h.readers
  have hEmpty : ∀ j, ¬ sys.Inside j := by
    intro j hj
    have hShared := (h.admits hAdmits hj).1
    cases hShared
  have hOnly : ∀ j, sys'.Inside j ↔ j = i := by
    intro j
    rw [hInside]
    exact or_iff_left (hEmpty j)
  refine ⟨?_, ?_, ?_, ?_, hReads⟩
  · intro j hj
    rw [(hOnly j).mp hj, hAccess]
    simp
  · rw [hLock]
    exact iff_of_true rfl ⟨i, (hOnly i).mpr rfl, hAccess⟩
  · refine ⟨holders, by rw [hLock]; exact hCard, fun j => ?_⟩
    refine iff_of_false (fun hMem => hEmpty j ((hHolders j).mp hMem).1) ?_
    rintro ⟨hj, hShared⟩
    rw [(hOnly j).mp hj, hAccess] at hShared
    cases hShared
  · intro j k hj _ hk
    rw [(hOnly j).mp hj, (hOnly k).mp hk]

/-- One more call inside. -/
theorem Excludes.acquire [DecidableEq ι] {sys sys' : CallSystem ι σ ρ}
    (h : Excludes jobs sys) {i : ι} (hOut : ¬ sys.Inside i)
    (hAdmits : sys.lock.Admits (jobs i).access)
    (hLock : sys'.lock = sys.lock.acquire (jobs i).access)
    (hInside : ∀ j, sys'.Inside j ↔ j = i ∨ sys.Inside j)
    (hReads : ∀ j rest, sys'.calls j = .inside rest → (jobs j).access = .shared →
      rest.ReadOnly) : Excludes jobs sys' := by
  cases hAccess : (jobs i).access with
  | unguarded =>
      rw [hAccess] at hAdmits
      cases hAdmits
  | shared =>
      rw [hAccess] at hAdmits hLock
      exact h.acquireShared hOut hAccess hAdmits hLock hInside hReads
  | exclusive =>
      rw [hAccess] at hAdmits hLock
      exact h.acquireExclusive hAccess hAdmits hLock hInside hReads

/-- One call less inside. -/
theorem Excludes.release [DecidableEq ι] {sys sys' : CallSystem ι σ ρ}
    (h : Excludes jobs sys) {i : ι} (hIn : sys.Inside i)
    (hLock : sys'.lock = sys.lock.release (jobs i).access)
    (hInside : ∀ j, sys'.Inside j ↔ j ≠ i ∧ sys.Inside j)
    (hReads : ∀ j rest, sys'.calls j = .inside rest → (jobs j).access = .shared →
      rest.ReadOnly) : Excludes jobs sys' := by
  obtain ⟨holders, hCard, hHolders⟩ := h.readers
  have hStill : ∀ j, sys'.Inside j → sys.Inside j := fun j hj => ((hInside j).mp hj).2
  cases hAccess : (jobs i).access with
  | unguarded => exact absurd hAccess (h.guarded i hIn)
  | shared =>
      rw [hAccess] at hLock
      refine ⟨fun j hj => h.guarded j (hStill j hj), ?_, ?_,
        fun j k hj hExclusive hk => h.alone j k (hStill j hj) hExclusive (hStill k hk), hReads⟩
      · rw [hLock]
        show sys.lock.writer = true ↔ _
        rw [h.writer]
        constructor
        · rintro ⟨j, hj, hExclusive⟩
          refine ⟨j, (hInside j).mpr ⟨?_, hj⟩, hExclusive⟩
          rintro rfl
          rw [hAccess] at hExclusive
          cases hExclusive
        · rintro ⟨j, hj, hExclusive⟩
          exact ⟨j, hStill j hj, hExclusive⟩
      · refine ⟨holders.erase i, ?_, ?_⟩
        · rw [Finset.card_erase_of_mem ((hHolders i).mpr ⟨hIn, hAccess⟩), hCard, hLock]
          rfl
        · intro j
          rw [Finset.mem_erase, hHolders, hInside, and_assoc]
  | exclusive =>
      have hEmpty : ∀ j, ¬ sys'.Inside j := fun j hj =>
        ((hInside j).mp hj).1 (h.alone i j hIn hAccess (hStill j hj))
      rw [hAccess] at hLock
      refine ⟨fun j hj => absurd hj (hEmpty j), ?_, ?_,
        fun j k hj => absurd hj (hEmpty j), hReads⟩
      · rw [hLock]
        refine iff_of_false (by simp [LockWord.release]) ?_
        rintro ⟨j, hj, -⟩
        exact hEmpty j hj
      · refine ⟨holders, by rw [hLock]; exact hCard, fun j => ?_⟩
        refine iff_of_false ?_ (fun hj => hEmpty j hj.1)
        intro hMem
        obtain ⟨hj, hShared⟩ := (hHolders j).mp hMem
        rw [h.alone i j hIn hAccess hj, hAccess] at hShared
        cases hShared

end Invariant

/-! ### One step -/

section Step

variable [DecidableEq ι] {jobs : ι → GuardedCall σ ρ} {start : σ}

/-- Where a call stands after one call has moved. -/
theorem update_cases {calls : ι → CallState σ ρ} {i j : ι} {c d : CallState σ ρ}
    (h : Function.update calls i c j = d) : (j = i ∧ c = d) ∨ (j ≠ i ∧ calls j = d) := by
  by_cases hj : j = i
  · subst hj
    rw [Function.update_self] at h
    exact Or.inl ⟨rfl, h⟩
  · rw [Function.update_of_ne hj] at h
    exact Or.inr ⟨hj, h⟩

/-- Who is inside after one call has moved. -/
theorem inside_update {sys sys' : CallSystem ι σ ρ} {i : ι} {c : CallState σ ρ}
    (hCalls : sys'.calls = Function.update sys.calls i c) (j : ι) :
    sys'.Inside j ↔ (j = i ∧ ∃ rest, c = .inside rest) ∨ (j ≠ i ∧ sys.Inside j) := by
  unfold Inside
  rw [hCalls]
  by_cases hj : j = i
  · subst hj
    simp
  · simp [hj]

/-- What is left of the shared calls still only reads. -/
theorem reads_update {sys sys' : CallSystem ι σ ρ} (h : Excludes jobs sys) {i : ι}
    {c : CallState σ ρ} (hCalls : sys'.calls = Function.update sys.calls i c)
    (hHere : ∀ rest, c = .inside rest → (jobs i).access = .shared → rest.ReadOnly)
    (j : ι) (rest : Steps σ ρ) (hCall : sys'.calls j = .inside rest)
    (hShared : (jobs j).access = .shared) : rest.ReadOnly := by
  rw [hCalls] at hCall
  rcases update_cases hCall with ⟨rfl, hNow⟩ | ⟨-, hBefore⟩
  · exact hHere rest hNow hShared
  · exact h.reads j rest hBefore hShared

/-- **Exclusion**: the lock word tells who is inside after every step. -/
theorem Excludes.step {sys sys' : CallSystem ι σ ρ} (h : Excludes jobs sys)
    (hStep : Step jobs sys sys') : Excludes jobs sys' := by
  cases hStep with
  | answered i r hCall hAccess hBody =>
      refine h.congr ?_ ?_ ?_
      · rfl
      · intro j
        rw [inside_update rfl]
        constructor
        · rintro (⟨-, rest, hRest⟩ | ⟨-, hj⟩)
          · cases hRest
          · exact hj
        · rintro ⟨rest, hj⟩
          refine Or.inr ⟨?_, rest, hj⟩
          rintro rfl
          rw [hCall] at hj
          cases hj
      · exact reads_update h rfl (by rintro rest hRest; cases hRest)
  | acquired i hCall hAdmits =>
      have hOut : ¬ sys.Inside i := by
        rintro ⟨rest, hi⟩
        rw [hCall] at hi
        cases hi
      apply h.acquire hOut hAdmits rfl
      · intro j
        rw [inside_update rfl]
        by_cases hj : j = i
        · exact iff_of_true (Or.inl ⟨hj, _, rfl⟩) (Or.inl hj)
        · simp [hj]
      · apply reads_update h rfl
        intro rest hRest hShared
        cases hRest
        exact (jobs i).reads hShared
  | stepped i effect next hCall =>
      refine h.congr ?_ ?_ ?_
      · rfl
      · intro j
        rw [inside_update rfl]
        by_cases hj : j = i
        · subst hj
          exact iff_of_true (Or.inl ⟨rfl, _, rfl⟩) ⟨_, hCall⟩
        · simp [hj]
      · apply reads_update h rfl
        intro rest hRest hShared
        cases hRest
        exact ((h.reads i _ hCall hShared).next sys.state).2
  | released i r hCall =>
      apply h.release ⟨_, hCall⟩ rfl
      · intro j
        rw [inside_update rfl]
        simp
      · exact reads_update h rfl (by rintro rest hRest; cases hRest)

omit [DecidableEq ι] in
/-- Who is let in gets its turn after all that came before, on the state as it is. -/
theorem Simulates.sequentially_acquired {sys : CallSystem ι σ ρ}
    (h : Simulates jobs start sys) (hLock : Excludes jobs sys) {i : ι}
    (hAdmits : sys.lock.Admits (jobs i).access) :
    oneAtATime jobs (sys.order ++ [i]) start =
      ((oneAtATime jobs sys.order start).1 ++ [(i, ((jobs i).body.exec sys.state).1)],
        ((jobs i).body.exec sys.state).2) := by
  have hState : (oneAtATime jobs sys.order start).2 = sys.state := by
    apply h.quiet
    intro j hj
    rw [(hLock.admits hAdmits hj).2]
    simp
  rw [oneAtATime, sequentially_concat]
  rw [oneAtATime] at hState
  rw [hState]
  rfl

/-- Acquiring the lock is the moment a call counts: it gets its answer from the
state as it is, since nobody inside will still change it. -/
theorem Simulates.acquire {sys : CallSystem ι σ ρ} (h : Simulates jobs start sys)
    (hLock : Excludes jobs sys) {i : ι} (hCall : sys.calls i = .waiting)
    (hAdmits : sys.lock.Admits (jobs i).access) :
    Simulates jobs start
      { sys with
        calls := Function.update sys.calls i (.inside (jobs i).body)
        lock := sys.lock.acquire (jobs i).access
        order := sys.order ++ [i] } := by
  have hRun := h.sequentially_acquired hLock hAdmits
  have hGuarded : (jobs i).access ≠ .unguarded := by
    intro hNone
    rw [hNone] at hAdmits
    cases hAdmits
  have hNew : i ∉ sys.order := fun hMem => ((h.ordered i).mp hMem).2 hCall
  constructor
  · exact List.nodup_append.mpr ⟨h.nodup, List.nodup_singleton i, by
      intro a ha b hb
      rw [List.mem_singleton.mp hb]
      rintro rfl
      exact hNew ha⟩
  · intro j
    rw [List.mem_append, h.ordered, List.mem_singleton]
    by_cases hj : j = i
    · subst hj
      simp [hGuarded]
    · simp [hj]
  · intro j r hj hAccess
    show (j, r) ∈ (oneAtATime jobs (sys.order ++ [i]) start).1
    rw [hRun]
    rcases update_cases hj with ⟨-, hNow⟩ | ⟨hji, hj⟩
    · cases hNow
    · exact List.mem_append_left _ (h.answered j r hj hAccess)
  · intro j r hj hAccess
    rcases update_cases hj with ⟨-, hNow⟩ | ⟨hji, hj⟩
    · cases hNow
    · exact h.settled j r hj hAccess
  · intro j rest hj
    show (j, (rest.exec sys.state).1) ∈ (oneAtATime jobs (sys.order ++ [i]) start).1
    rw [hRun]
    rcases update_cases hj with ⟨rfl, hNow⟩ | ⟨hji, hj⟩
    · cases hNow
      exact List.mem_append_right _ List.mem_cons_self
    · exact List.mem_append_left _ (h.pending j rest hj)
  · intro hNone
    show (oneAtATime jobs (sys.order ++ [i]) start).2 = sys.state
    rw [hRun]
    have hHere := hNone i ⟨(jobs i).body, Function.update_self ..⟩
    cases hAccess : (jobs i).access with
    | unguarded => exact absurd hAccess hGuarded
    | shared => exact ((jobs i).reads hAccess).exec_snd sys.state
    | exclusive => exact absurd hAccess hHere
  · intro j rest hj hExclusive
    show (oneAtATime jobs (sys.order ++ [i]) start).2 = (rest.exec sys.state).2
    rw [hRun]
    rcases update_cases hj with ⟨rfl, hNow⟩ | ⟨hji, hj⟩
    · cases hNow
      rfl
    · have hShared := (hLock.admits hAdmits ⟨rest, hj⟩).2
      rw [hExclusive] at hShared
      cases hShared

/-- A step of a call inside: its answer is what it was, and nobody else's is
touched, since a writer is alone and a reader changes nothing. -/
theorem Simulates.stepped {sys : CallSystem ι σ ρ} (h : Simulates jobs start sys)
    (hLock : Excludes jobs sys) {i : ι} {effect : σ → σ} {next : σ → Steps σ ρ}
    (hCall : sys.calls i = .inside (.step effect next)) :
    Simulates jobs start
      { sys with
        state := effect sys.state
        calls := Function.update sys.calls i (.inside (next sys.state)) } := by
  have hOther : ∀ j, j ≠ i → sys.Inside j → effect sys.state = sys.state := by
    intro j hji hj
    cases hAccess : (jobs i).access with
    | unguarded => exact absurd hAccess (hLock.guarded i ⟨_, hCall⟩)
    | shared => exact ((hLock.reads i _ hCall hAccess).next sys.state).1
    | exclusive => exact absurd (hLock.alone i j ⟨_, hCall⟩ hAccess hj) hji
  refine ⟨h.nodup, ?_, ?_, ?_, ?_, ?_, ?_⟩
  · intro j
    by_cases hji : j = i
    · subst hji
      rw [h.ordered]
      simp [hCall]
    · simp [h.ordered, hji]
  · intro j r hj hAccess
    rcases update_cases hj with ⟨-, hNow⟩ | ⟨hji, hj⟩
    · cases hNow
    · exact h.answered j r hj hAccess
  · intro j r hj hAccess
    rcases update_cases hj with ⟨-, hNow⟩ | ⟨hji, hj⟩
    · cases hNow
    · exact h.settled j r hj hAccess
  · intro j rest hj
    show (j, (rest.exec (effect sys.state)).1) ∈ (oneAtATime jobs sys.order start).1
    rcases update_cases hj with ⟨rfl, hNow⟩ | ⟨hji, hj⟩
    · cases hNow
      exact h.pending j _ hCall
    · rw [hOther j hji ⟨rest, hj⟩]
      exact h.pending j rest hj
  · intro hNone
    show (oneAtATime jobs sys.order start).2 = effect sys.state
    have hHere := hNone i ⟨_, Function.update_self ..⟩
    have hSame : effect sys.state = sys.state := by
      cases hAccess : (jobs i).access with
      | unguarded => exact absurd hAccess (hLock.guarded i ⟨_, hCall⟩)
      | shared => exact ((hLock.reads i _ hCall hAccess).next sys.state).1
      | exclusive => exact absurd hAccess hHere
    rw [hSame]
    apply h.quiet
    intro j hj
    by_cases hji : j = i
    · rw [hji]
      exact hHere
    · obtain ⟨rest, hj⟩ := hj
      exact hNone j ⟨rest, by rw [← hj]; exact Function.update_of_ne hji ..⟩
  · intro j rest hj hExclusive
    show (oneAtATime jobs sys.order start).2 = (rest.exec (effect sys.state)).2
    rcases update_cases hj with ⟨rfl, hNow⟩ | ⟨hji, hj⟩
    · cases hNow
      exact h.writing j _ hCall hExclusive
    · exact absurd (hLock.alone j i ⟨rest, hj⟩ hExclusive ⟨_, hCall⟩) (Ne.symm hji)

/-- A call that finishes with its answer; the state is the one it leaves. -/
theorem Simulates.finish {sys sys' : CallSystem ι σ ρ} (h : Simulates jobs start sys) {i : ι}
    {r : ρ} (hState : sys'.state = sys.state) (hOrder : sys'.order = sys.order)
    (hCalls : sys'.calls = Function.update sys.calls i (.finished r))
    (hMem : i ∈ sys.order ↔ (jobs i).access ≠ .unguarded)
    (hAnswer : (jobs i).access ≠ .unguarded → (i, r) ∈ (oneAtATime jobs sys.order start).1)
    (hSettled : (jobs i).access = .unguarded → (jobs i).body = .done r)
    (hQuiet : sys.Inside i → (jobs i).access = .exclusive →
      (oneAtATime jobs sys.order start).2 = sys.state) : Simulates jobs start sys' := by
  refine ⟨hOrder ▸ h.nodup, ?_, ?_, ?_, ?_, ?_, ?_⟩
  · intro j
    rw [hOrder, hCalls]
    by_cases hji : j = i
    · subst hji
      simp [hMem]
    · simp [h.ordered, hji]
  · intro j r' hj hAccess
    rw [hOrder]
    rw [hCalls] at hj
    rcases update_cases hj with ⟨rfl, hNow⟩ | ⟨-, hj⟩
    · cases hNow
      exact hAnswer hAccess
    · exact h.answered j r' hj hAccess
  · intro j r' hj hAccess
    rw [hCalls] at hj
    rcases update_cases hj with ⟨rfl, hNow⟩ | ⟨-, hj⟩
    · cases hNow
      exact hSettled hAccess
    · exact h.settled j r' hj hAccess
  · intro j rest hj
    rw [hOrder, hState]
    rw [hCalls] at hj
    rcases update_cases hj with ⟨-, hNow⟩ | ⟨-, hj⟩
    · cases hNow
    · exact h.pending j rest hj
  · intro hNone
    rw [hOrder, hState]
    by_cases hLast : sys.Inside i ∧ (jobs i).access = .exclusive
    · exact hQuiet hLast.1 hLast.2
    · apply h.quiet
      intro j hj hExclusive
      by_cases hji : j = i
      · exact hLast (hji ▸ ⟨hj, hExclusive⟩)
      · exact hNone j ((inside_update hCalls j).mpr (Or.inr ⟨hji, hj⟩)) hExclusive
  · intro j rest hj hExclusive
    rw [hOrder, hState]
    rw [hCalls] at hj
    rcases update_cases hj with ⟨-, hNow⟩ | ⟨-, hj⟩
    · cases hNow
    · exact h.writing j rest hj hExclusive

/-- **Simulation**: every step of the system is one of the sequential run, or
none. -/
theorem Simulates.step {sys sys' : CallSystem ι σ ρ} (h : Simulates jobs start sys)
    (hLock : Excludes jobs sys) (hStep : Step jobs sys sys') : Simulates jobs start sys' := by
  cases hStep with
  | answered i r hCall hAccess hBody =>
      have hOut : i ∉ sys.order := fun hMem => ((h.ordered i).mp hMem).1 hAccess
      refine h.finish rfl rfl rfl ?_ (fun hGuarded => absurd hAccess hGuarded)
        (fun _ => hBody) ?_
      · exact iff_of_false hOut (fun hGuarded => hGuarded hAccess)
      · rintro ⟨rest, hi⟩
        rw [hCall] at hi
        cases hi
  | acquired i hCall hAdmits => exact h.acquire hLock hCall hAdmits
  | stepped i effect next hCall => exact h.stepped hLock hCall
  | released i r hCall =>
      have hGuarded : (jobs i).access ≠ .unguarded := hLock.guarded i ⟨_, hCall⟩
      refine h.finish rfl rfl rfl ?_ (fun _ => h.pending i _ hCall)
        (fun hNone => absurd hNone hGuarded) (fun _ hExclusive => h.writing i _ hCall hExclusive)
      rw [h.ordered, hCall]
      simp

/-! ## Runs -/

/-- The invariant of a run. -/
theorem Reachable.invariant {sys : CallSystem ι σ ρ} (hReach : Reachable jobs start sys) :
    Excludes jobs sys ∧ Simulates jobs start sys := by
  induction hReach with
  | refl => exact ⟨excludes_initial start, simulates_initial start⟩
  | tail _ hStep ih => exact ⟨ih.1.step hStep, ih.2.step ih.1 hStep⟩

/-- The order of acquisitions only grows. -/
theorem order_prefix {sys sys' : CallSystem ι σ ρ}
    (hSteps : Relation.ReflTransGen (Step jobs) sys sys') : sys.order <+: sys'.order := by
  induction hSteps with
  | refl => exact List.prefix_refl _
  | tail _ hStep ih =>
      refine ih.trans ?_
      cases hStep with
      | acquired i hCall hAdmits => exact List.prefix_append _ _
      | answered => exact List.prefix_refl _
      | stepped => exact List.prefix_refl _
      | released => exact List.prefix_refl _

/-- A call inside can go on to its end. -/
theorem exists_steps (i : ι) (rest : Steps σ ρ) (sys : CallSystem ι σ ρ)
    (hCall : sys.calls i = .inside rest) :
    Relation.ReflTransGen (Step jobs) sys
      { sys with
        state := (rest.exec sys.state).2
        calls := Function.update sys.calls i (.inside (.done (rest.exec sys.state).1)) } := by
  induction rest generalizing sys with
  | done r =>
      rw [Steps.exec_done, ← hCall, Function.update_eq_self]
  | step effect next ih =>
      have hRest := ih sys.state
        { sys with
          state := effect sys.state
          calls := Function.update sys.calls i (.inside (next sys.state)) }
        (Function.update_self ..)
      rw [Function.update_idem] at hRest
      exact .head (.stepped i effect next hCall) hRest

/-- **Progress**: where the lock admits a waiting call, it may run to its end. -/
theorem exists_run (i : ι) (sys : CallSystem ι σ ρ) (hCall : sys.calls i = .waiting)
    (hAdmits : sys.lock.Admits (jobs i).access) :
    Relation.ReflTransGen (Step jobs) sys
      { state := ((jobs i).body.exec sys.state).2
        calls := Function.update sys.calls i (.finished ((jobs i).body.exec sys.state).1)
        lock := (sys.lock.acquire (jobs i).access).release (jobs i).access
        order := sys.order ++ [i] } := by
  let held (state : σ) (rest : Steps σ ρ) : CallSystem ι σ ρ :=
    { state := state
      calls := Function.update sys.calls i (.inside rest)
      lock := sys.lock.acquire (jobs i).access
      order := sys.order ++ [i] }
  have hAcquire : Step jobs sys (held sys.state (jobs i).body) := .acquired i hCall hAdmits
  have hRun : Relation.ReflTransGen (Step jobs) (held sys.state (jobs i).body) _ :=
    exists_steps i (jobs i).body _ (Function.update_self ..)
  have hRelease : Step jobs (held ((jobs i).body.exec sys.state).2 _) _ :=
    .released i ((jobs i).body.exec sys.state).1 (Function.update_self ..)
  simp only [held, Function.update_idem] at hRun hRelease
  exact .head hAcquire (hRun.tail hRelease)

/-- **Linearization**: the answers given, and the state once nobody is inside,
are those of the calls made one at a time in the order in which they acquired
the lock; the calls that do without it may stand anywhere in between. -/
theorem Reachable.linearizes {sys : CallSystem ι σ ρ} (hReach : Reachable jobs start sys)
    {order : List ι}
    (hOrder : order.filter (fun i => (jobs i).access ≠ .unguarded) = sys.order) :
    (∀ i ∈ order, ∀ r, sys.calls i = .finished r → (i, r) ∈ (oneAtATime jobs order start).1) ∧
      ((∀ i, ¬ sys.Inside i) → (oneAtATime jobs order start).2 = sys.state) := by
  have hSim := hReach.invariant.2
  have hFilter := sequentially_filter (fun i => (jobs i).body.exec)
    (fun i => decide ((jobs i).access ≠ .unguarded)) (fun i hi s => by
      obtain ⟨r, hBody⟩ := (jobs i).settled (by simpa using hi)
      rw [hBody]
      rfl) order start
  rw [hOrder] at hFilter
  constructor
  · intro i hi r hCall
    by_cases hAccess : (jobs i).access = .unguarded
    · obtain ⟨answer, hMem, rfl⟩ : ∃ answer ∈ (oneAtATime jobs order start).1, answer.1 = i := by
        have hKey : i ∈ (oneAtATime jobs order start).1.map Prod.fst := by
          rw [oneAtATime, keys_sequentially]
          exact hi
        exact List.mem_map.mp hKey
      have hValue := sequentially_answer (fun i => (jobs i).body.exec) hMem
      obtain ⟨s, hValue⟩ := hValue
      rw [hSim.settled _ r hCall hAccess] at hValue
      rw [show r = answer.2 from hValue]
      exact hMem
    · have hMem := hSim.answered i r hCall hAccess
      rw [oneAtATime, hFilter] at hMem
      exact (List.mem_filter.mp hMem).1
  · intro hNone
    rw [← hSim.quiet fun i hi => absurd hi (hNone i)]
    exact (congrArg Prod.snd hFilter).symm

end Step

end CallSystem

end LedgerFS.Library
