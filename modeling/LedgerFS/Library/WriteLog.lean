import Mathlib.Data.List.Basic

/-!
# Write logs with a durable prefix

A store that appends every write to a log before it answers.  The log is the
list of writes since the store was opened; a prefix of it is known to be on
disk.  A synchronous write makes the whole log durable, an asynchronous one
leaves the durable prefix as it was.  A crash keeps some prefix that reaches at
least to the durable writes, and the store is opened again on what that prefix
amounts to.

`Kept apply P log` says that `P` holds of every state a crash may leave behind.
The rules below carry it through writes and crashes, so a proof about a run
only looks at the writes themselves.
-/

namespace LedgerFS.Library

variable {σ ω : Type}

/-- The state a store was opened on, the writes since, and how many of them
are durable. -/
structure WriteLog (σ ω : Type) where
  base : σ
  writes : List ω
  durable : Nat
  durable_le : durable ≤ writes.length

namespace WriteLog

/-- A store just opened: what is on disk is durable. -/
def opened (s : σ) : WriteLog σ ω := ⟨s, [], 0, Nat.le_refl 0⟩

/-- One more write. -/
def write (log : WriteLog σ ω) (w : ω) (sync : Bool) : WriteLog σ ω where
  base := log.base
  writes := log.writes ++ [w]
  durable := if sync then log.writes.length + 1 else log.durable
  durable_le := by
    have := log.durable_le
    simp only [List.length_append, List.length_singleton]
    split <;> omega

section Replay

variable (apply : σ → ω → σ)

/-- The state after the first `n` writes. -/
def stateAt (log : WriteLog σ ω) (n : Nat) : σ := (log.writes.take n).foldl apply log.base

/-- The state after all writes. -/
def state (log : WriteLog σ ω) : σ := log.writes.foldl apply log.base

@[simp] theorem state_write (log : WriteLog σ ω) (w : ω) (sync : Bool) :
    (log.write w sync).state apply = apply (log.state apply) w := by
  simp [state, write]

theorem stateAt_length (log : WriteLog σ ω) :
    log.stateAt apply log.writes.length = log.state apply := by
  rw [stateAt, List.take_length, state]

/-- A write does not reach back. -/
theorem stateAt_write_of_le (log : WriteLog σ ω) (w : ω) (sync : Bool) {n : Nat}
    (h : n ≤ log.writes.length) :
    (log.write w sync).stateAt apply n = log.stateAt apply n := by
  rw [stateAt, stateAt, write, List.take_append_of_le_length h]

/-- What a crash may leave: a prefix that includes the durable writes, on which
the store is opened again. -/
def Crash (log log' : WriteLog σ ω) : Prop :=
  ∃ n, log.durable ≤ n ∧ n ≤ log.writes.length ∧ log' = opened (log.stateAt apply n)

/-- `P` holds of every state a crash may leave. -/
def Kept (P : σ → Prop) (log : WriteLog σ ω) : Prop :=
  ∀ n, log.durable ≤ n → n ≤ log.writes.length → P (log.stateAt apply n)

end Replay

section Rules

variable {apply : σ → ω → σ} {P : σ → Prop} {log : WriteLog σ ω}

theorem Kept.state (h : Kept apply P log) : P (log.state apply) := by
  rw [← stateAt_length]
  exact h _ log.durable_le (Nat.le_refl _)

theorem Kept.mono {Q : σ → Prop} (h : Kept apply P log) (hWeaker : ∀ s, P s → Q s) :
    Kept apply Q log :=
  fun n hDurable hLen => hWeaker _ (h n hDurable hLen)

/-- A crash keeps what is kept. -/
theorem Kept.crash (h : Kept apply P log) {log' : WriteLog σ ω} (hCrash : Crash apply log log') :
    Kept apply P log' := by
  obtain ⟨n, hDurable, hLen, rfl⟩ := hCrash
  intro m _ hNone
  have hZero : m = 0 := Nat.le_zero.mp hNone
  subst hZero
  exact h n hDurable hLen

/-- A property of the state that a write keeps is kept with it. -/
theorem Kept.write (h : Kept apply P log) {w : ω}
    (hWrite : P (log.state apply) → P (apply (log.state apply) w)) (sync : Bool) :
    Kept apply P (log.write w sync) := by
  intro n hDurable hLen
  have hLast : P ((log.write w sync).state apply) := by
    rw [state_write]
    exact hWrite h.state
  by_cases hOld : n ≤ log.writes.length
  · rw [stateAt_write_of_le apply log w sync hOld]
    refine h n ?_ hOld
    have hLe := log.durable_le
    simp only [WriteLog.write] at hDurable
    split at hDurable <;> omega
  · have hAll : n = (log.write w sync).writes.length := by
      simp only [WriteLog.write, List.length_append, List.length_singleton] at hLen ⊢
      omega
    rw [hAll, stateAt_length]
    exact hLast

/-- **Synchronous writes**: what holds after one is kept. -/
theorem kept_write_sync {w : ω} (h : P (apply (log.state apply) w)) :
    Kept apply P (log.write w true) := by
  intro n hDurable hLen
  have hAll : n = (log.write w true).writes.length := by
    simp only [WriteLog.write, if_true, List.length_append, List.length_singleton]
      at hDurable hLen ⊢
    omega
  rw [hAll, stateAt_length, state_write]
  exact h

/-- What is kept is what is there after every crash. -/
theorem kept_iff_crash :
    Kept apply P log ↔ ∀ log', Crash apply log log' → P (log'.state apply) := by
  constructor
  · rintro h log' ⟨n, hDurable, hLen, rfl⟩
    exact h n hDurable hLen
  · intro h n hDurable hLen
    exact h _ ⟨n, hDurable, hLen, rfl⟩

/-- **Asynchronous writes** may be lost. -/
theorem crash_write_async (apply : σ → ω → σ) (log : WriteLog σ ω) (w : ω) :
    Crash apply (log.write w false) (opened (log.state apply)) := by
  refine ⟨log.writes.length, log.durable_le, ?_, ?_⟩
  · show log.writes.length ≤ (log.writes ++ [w]).length
    simp
  · rw [stateAt_write_of_le apply log w false (Nat.le_refl _), stateAt_length]

end Rules

end WriteLog

end LedgerFS.Library
