import LedgerFS.Library.GuardedCalls
import LedgerFS.Library.WriteLog
import Mathlib.Data.Set.Insert

/-!
# Crashes as rollbacks

Calls over a write log, each of which answers from the state and writes once or
not at all.  A crash cuts the log somewhere after its durable part, which is a
statement about writes.  `RollsBack` is the same system told in terms of calls:
there is no log, only the list of the calls that count, and a crash forgets the
last of them, back to some call no earlier than the last synchronous one.

The two descriptions allow the same runs and lead to the same states
(`crashRun_iff_rollsBack`).  The reason is that each is driven by the state and
by the set of states a crash may leave, and that set changes in the same way on
both sides.
-/

namespace LedgerFS.Library

variable {σ ω ι ρ : Type}

/-! ## What a crash may leave -/

namespace WriteLog

variable (apply : σ → ω → σ)

/-- The states a crash may leave. -/
def crashStates (log : WriteLog σ ω) : Set σ :=
  {s | ∃ n, log.durable ≤ n ∧ n ≤ log.writes.length ∧ log.stateAt apply n = s}

theorem crash_iff (log log' : WriteLog σ ω) :
    Crash apply log log' ↔ ∃ s ∈ log.crashStates apply, log' = opened s := by
  constructor
  · rintro ⟨n, hDurable, hLength, rfl⟩
    exact ⟨_, ⟨n, hDurable, hLength, rfl⟩, rfl⟩
  · rintro ⟨s, ⟨n, hDurable, hLength, rfl⟩, rfl⟩
    exact ⟨n, hDurable, hLength, rfl⟩

@[simp] theorem state_opened (s : σ) : (opened s : WriteLog σ ω).state apply = s := rfl

@[simp] theorem crashStates_opened (s : σ) :
    (opened s : WriteLog σ ω).crashStates apply = {s} := by
  ext s'
  constructor
  · rintro ⟨n, -, hLength, rfl⟩
    have hZero : n = 0 := Nat.le_zero.mp hLength
    subst hZero
    rfl
  · rintro rfl
    exact ⟨0, Nat.le_refl 0, Nat.le_refl 0, rfl⟩

/-- An asynchronous write adds a state to those a crash may leave. -/
theorem crashStates_write_async (log : WriteLog σ ω) (w : ω) :
    (log.write w false).crashStates apply =
      insert (apply (log.state apply) w) (log.crashStates apply) := by
  have hLength : (log.write w false).writes.length = log.writes.length + 1 :=
    List.length_append
  have hLast : (log.write w false).stateAt apply (log.writes.length + 1) =
      apply (log.state apply) w := by
    rw [← hLength, stateAt_length, state_write]
  ext s
  constructor
  · rintro ⟨n, hDurable, hn, rfl⟩
    by_cases hOld : n ≤ log.writes.length
    · exact Or.inr ⟨n, hDurable, hOld, (stateAt_write_of_le apply log w false hOld).symm⟩
    · have hNew : n = log.writes.length + 1 := by omega
      rw [hNew]
      exact Or.inl hLast
  · rintro (rfl | ⟨n, hDurable, hn, rfl⟩)
    · exact ⟨_, Nat.le_succ_of_le log.durable_le, hLength.ge, hLast⟩
    · exact ⟨n, hDurable, by omega, stateAt_write_of_le apply log w false hn⟩

/-- After a synchronous write a crash leaves just the state there is. -/
theorem crashStates_write_sync (log : WriteLog σ ω) (w : ω) :
    (log.write w true).crashStates apply = {apply (log.state apply) w} := by
  have hLength : (log.write w true).writes.length = log.writes.length + 1 :=
    List.length_append
  have hLast : (log.write w true).stateAt apply (log.writes.length + 1) =
      apply (log.state apply) w := by
    rw [← hLength, stateAt_length, state_write]
  ext s
  constructor
  · rintro ⟨n, hDurable, hn, rfl⟩
    have hDurable : log.writes.length + 1 ≤ n := hDurable
    have hNew : n = log.writes.length + 1 := by omega
    rw [hNew]
    exact hLast
  · rintro rfl
    exact ⟨_, Nat.le_refl _, hLength.ge, hLast⟩

/-- One write or none. -/
def writeAtMost (log : WriteLog σ ω) : Option (ω × Bool) → WriteLog σ ω
  | none => log
  | some (w, sync) => log.write w sync

/-- Only a synchronous write moves the durable mark. -/
theorem durable_lt_write_iff (log : WriteLog σ ω) (w : ω) (sync : Bool) :
    log.durable < (log.write w sync).durable ↔ sync = true := by
  have hLe := log.durable_le
  cases sync with
  | true =>
      have : (log.write w true).durable = log.writes.length + 1 := rfl
      exact iff_of_true (by omega) rfl
  | false => exact iff_of_false (Nat.lt_irrefl _) Bool.false_ne_true

end WriteLog

/-! ## Runs with crashes -/

/-- What may happen to the calls: one is answered, or everything stops and
starts again from what is on disk. -/
inductive Moment (ι ρ : Type)
  | answered (i : ι) (answer : ρ)
  | crash

namespace Moment

/-- The answer given at a moment. -/
def answer? : Moment ι ρ → Option (ι × ρ)
  | .answered i answer => some (i, answer)
  | .crash => none

end Moment

/-- The answers given, crashes or not. -/
def answersOf (moments : List (Moment ι ρ)) : List (ι × ρ) := moments.filterMap Moment.answer?

theorem answersOf_answered (moments : List (Moment ι ρ)) (i : ι) (answer : ρ) :
    answersOf (moments ++ [.answered i answer]) = answersOf moments ++ [(i, answer)] := by
  rw [answersOf, List.filterMap_append]
  rfl

theorem answersOf_crash (moments : List (Moment ι ρ)) :
    answersOf (moments ++ [.crash]) = answersOf moments := by
  rw [answersOf, List.filterMap_append]
  exact List.append_nil _

/-- The runs of the calls over a log that may crash between two calls. -/
inductive CrashRun (apply : σ → ω → σ) (perform : ι → WriteLog σ ω → ρ × WriteLog σ ω)
    (start : WriteLog σ ω) : List (Moment ι ρ) → WriteLog σ ω → Prop
  | start : CrashRun apply perform start [] start
  | call {moments : List (Moment ι ρ)} {log : WriteLog σ ω}
      (hRun : CrashRun apply perform start moments log) (i : ι) :
      CrashRun apply perform start (moments ++ [.answered i (perform i log).1])
        (perform i log).2
  | crash {moments : List (Moment ι ρ)} {log log' : WriteLog σ ω}
      (hRun : CrashRun apply perform start moments log) (hCrash : log.Crash apply log') :
      CrashRun apply perform start (moments ++ [.crash]) log'

/-! ## The rolled-back history -/

/-- The calls that count, with their answers, and how many of them no crash
takes back. -/
structure Chronicle (ι ρ : Type) where
  made : List (ι × ρ)
  secured : Nat
  secured_le : secured ≤ made.length

namespace Chronicle

/-- No calls. -/
def blank : Chronicle ι ρ where
  made := []
  secured := 0
  secured_le := Nat.zero_le _

/-- One more call, which secures everything so far or nothing new. -/
def record (chronicle : Chronicle ι ρ) (i : ι) (answer : ρ) (secures : Bool) :
    Chronicle ι ρ where
  made := chronicle.made ++ [(i, answer)]
  secured := if secures then chronicle.made.length + 1 else chronicle.secured
  secured_le := by
    have := chronicle.secured_le
    simp only [List.length_append, List.length_singleton]
    split <;> omega

/-- A call takes nothing back. -/
theorem secured_le_record (chronicle : Chronicle ι ρ) (i : ι) (answer : ρ) (secures : Bool) :
    chronicle.secured ≤ (chronicle.record i answer secures).secured := by
  have := chronicle.secured_le
  rw [record]
  dsimp only
  split <;> omega

/-- Only the first `m` calls count. -/
def cut (chronicle : Chronicle ι ρ) (m : Nat) (h : m ≤ chronicle.made.length) :
    Chronicle ι ρ where
  made := chronicle.made.take m
  secured := m
  secured_le := by
    rw [List.length_take, Nat.min_eq_left h]

section Serial

variable (perform : ι → WriteLog σ ω → ρ × WriteLog σ ω) (start : WriteLog σ ω)

/-- The log after the calls that count, made one after the other without a crash. -/
def log (chronicle : Chronicle ι ρ) : WriteLog σ ω :=
  (sequentially perform (chronicle.made.map Prod.fst) start).2

theorem log_record (chronicle : Chronicle ι ρ) (i : ι) (answer : ρ) (secures : Bool) :
    (chronicle.record i answer secures).log perform start =
      (perform i (chronicle.log perform start)).2 := by
  rw [log, record, List.map_append, List.map_singleton, sequentially_concat]
  rfl

end Serial

end Chronicle

/-- The same calls without a log: a crash forgets the last calls, back to some
call no earlier than the last one that moved the durable mark. -/
inductive RollsBack (perform : ι → WriteLog σ ω → ρ × WriteLog σ ω) (start : WriteLog σ ω) :
    List (Moment ι ρ) → Chronicle ι ρ → Prop
  | start : RollsBack perform start [] .blank
  | call {moments : List (Moment ι ρ)} {chronicle : Chronicle ι ρ} {log : WriteLog σ ω}
      (hRun : RollsBack perform start moments chronicle)
      (hLog : chronicle.log perform start = log) (i : ι) :
      RollsBack perform start (moments ++ [.answered i (perform i log).1])
        (chronicle.record i (perform i log).1 (log.durable < (perform i log).2.durable))
  | crash {moments : List (Moment ι ρ)} {chronicle : Chronicle ι ρ} {m : Nat}
      (hRun : RollsBack perform start moments chronicle) (hSecured : chronicle.secured ≤ m)
      (hMade : m ≤ chronicle.made.length) :
      RollsBack perform start (moments ++ [.crash]) (chronicle.cut m hMade)

namespace RollsBack

variable {perform : ι → WriteLog σ ω → ρ × WriteLog σ ω} {start : WriteLog σ ω}
  {moments : List (Moment ι ρ)} {chronicle : Chronicle ι ρ}

/-- No call counts that was not made. -/
theorem sublist (h : RollsBack perform start moments chronicle) :
    chronicle.made.Sublist (answersOf moments) := by
  induction h with
  | start => exact List.Sublist.refl []
  | call _ _ i ih =>
      rw [answersOf_answered]
      exact ih.append (List.Sublist.refl _)
  | crash _ _ _ ih =>
      rw [answersOf_crash]
      exact (List.take_sublist _ _).trans ih

/-- **Serial answers**: the calls that count were answered as they would be
without any crash and without the calls that do not count. -/
theorem serial (h : RollsBack perform start moments chronicle) :
    (sequentially perform (chronicle.made.map Prod.fst) start).1 = chronicle.made := by
  induction h with
  | start => rfl
  | @call moments chronicle log _ hLog i ih =>
      show (sequentially perform ((chronicle.made ++ [(i, _)]).map Prod.fst) start).1 =
        chronicle.made ++ [(i, _)]
      rw [List.map_append, List.map_singleton, sequentially_concat, ih]
      rw [Chronicle.log] at hLog
      rw [hLog]
  | @crash moments chronicle m _ _ hMade ih =>
      show (sequentially perform ((chronicle.made.take m).map Prod.fst) start).1 =
        chronicle.made.take m
      have hSplit := congrArg (List.take m) ih
      rw [← List.take_append_drop m chronicle.made, List.map_append, sequentially_append,
        List.take_append_drop, List.take_left' ?_] at hSplit
      · exact hSplit
      · have hKeys := congrArg List.length
          (keys_sequentially perform ((chronicle.made.take m).map Prod.fst) start)
        rw [List.length_map, List.length_map, List.length_take, Nat.min_eq_left hMade] at hKeys
        exact hKeys

/-- **Secured calls stay**: whatever happens later, the calls that were secured
at some moment are the first that count. -/
theorem secured_prefix {later : List (Moment ι ρ)} {chronicle' : Chronicle ι ρ}
    (h : RollsBack perform start (moments ++ later) chronicle') :
    ∃ chronicle, RollsBack perform start moments chronicle ∧
      chronicle.secured ≤ chronicle'.secured ∧
      chronicle.made.take chronicle.secured <+: chronicle'.made := by
  induction later using List.reverseRecOn generalizing chronicle' with
  | nil =>
      rw [List.append_nil] at h
      exact ⟨chronicle', h, Nat.le_refl _, List.take_prefix _ _⟩
  | append_singleton later moment ih =>
      rw [← List.append_assoc] at h
      generalize hAll : moments ++ later ++ [moment] = all at h
      cases h with
      | start => simp at hAll
      | @call before chronicle₁ log hRun hLog i =>
          obtain ⟨rfl, -⟩ := List.append_inj' hAll rfl
          obtain ⟨chronicle, hHere, hSecured, hPrefix⟩ := ih hRun
          exact ⟨chronicle, hHere, hSecured.trans (chronicle₁.secured_le_record _ _ _),
            hPrefix.trans (List.prefix_append _ _)⟩
      | @crash before chronicle₁ m hRun hFrom hMade =>
          obtain ⟨rfl, -⟩ := List.append_inj' hAll rfl
          obtain ⟨chronicle, hHere, hSecured, hPrefix⟩ := ih hRun
          refine ⟨chronicle, hHere, hSecured.trans hFrom, ?_⟩
          have hLength : (chronicle.made.take chronicle.secured).length ≤ m := by
            rw [List.length_take]
            omega
          exact List.prefix_take_iff.mpr ⟨hPrefix, hLength⟩

end RollsBack

/-! ## Calls that write at most once -/

/-- Calls told by what they do on a state: the answer, and what is written and
whether synchronously. -/
structure LoggedCalls (σ ω ι ρ : Type) where
  apply : σ → ω → σ
  answer : ι → σ → ρ
  effect : ι → σ → Option (ω × Bool)

namespace LoggedCalls

variable (calls : LoggedCalls σ ω ι ρ)

/-- A call on a log. -/
def perform (i : ι) (log : WriteLog σ ω) : ρ × WriteLog σ ω :=
  (calls.answer i (log.state calls.apply),
    log.writeAtMost (calls.effect i (log.state calls.apply)))

/-- What a call makes of a state. -/
def next (i : ι) (s : σ) : σ :=
  match calls.effect i s with
  | none => s
  | some (w, _) => calls.apply s w

/-- The call writes, and synchronously. -/
def secures (i : ι) (s : σ) : Bool := (calls.effect i s).any Prod.snd

theorem state_perform (i : ι) (log : WriteLog σ ω) :
    (calls.perform i log).2.state calls.apply = calls.next i (log.state calls.apply) := by
  rw [perform, next]
  cases calls.effect i (log.state calls.apply) with
  | none => rfl
  | some write => exact WriteLog.state_write _ _ _ _

theorem secures_iff (i : ι) (log : WriteLog σ ω) :
    log.durable < (calls.perform i log).2.durable ↔
      calls.secures i (log.state calls.apply) = true := by
  rw [perform, secures]
  cases calls.effect i (log.state calls.apply) with
  | none => exact iff_of_false (Nat.lt_irrefl _) Bool.false_ne_true
  | some write => exact WriteLog.durable_lt_write_iff log write.1 write.2

/-- How the states a crash may leave change: a call that secures leaves its own
result, any other adds it. -/
def exposed (i : ι) (s : σ) (states : Set σ) : Set σ :=
  if calls.secures i s then {calls.next i s} else insert (calls.next i s) states

/-- The state itself is among those a crash may leave. -/
theorem state_mem_crashStates (log : WriteLog σ ω) :
    log.state calls.apply ∈ log.crashStates calls.apply :=
  ⟨_, log.durable_le, Nat.le_refl _, log.stateAt_length calls.apply⟩

theorem crashStates_perform (i : ι) (log : WriteLog σ ω) :
    (calls.perform i log).2.crashStates calls.apply =
      calls.exposed i (log.state calls.apply) (log.crashStates calls.apply) := by
  rw [perform, exposed, secures, next]
  rcases calls.effect i (log.state calls.apply) with _ | ⟨w, sync⟩
  · exact (Set.insert_eq_of_mem (calls.state_mem_crashStates log)).symm
  · cases sync with
    | true => exact WriteLog.crashStates_write_sync calls.apply log w
    | false => exact WriteLog.crashStates_write_async calls.apply log w

section Matching

variable (base : σ)

/-- The state after the calls that count. -/
def stateOf (chronicle : Chronicle ι ρ) : σ :=
  (chronicle.log calls.perform (.opened base)).state calls.apply

/-- The states a rollback may lead to. -/
def rollbackStates (chronicle : Chronicle ι ρ) : Set σ :=
  {s | ∃ m, ∃ h : m ≤ chronicle.made.length, chronicle.secured ≤ m ∧
    calls.stateOf base (chronicle.cut m h) = s}

theorem stateOf_record (chronicle : Chronicle ι ρ) (i : ι) (answer : ρ) (secures : Bool) :
    calls.stateOf base (chronicle.record i answer secures) =
      calls.next i (calls.stateOf base chronicle) := by
  rw [stateOf, Chronicle.log_record, state_perform]
  rfl

/-- Only the calls that count matter. -/
theorem stateOf_congr {chronicle chronicle' : Chronicle ι ρ}
    (h : chronicle.made = chronicle'.made) :
    calls.stateOf base chronicle = calls.stateOf base chronicle' := by
  rw [stateOf, stateOf, Chronicle.log, Chronicle.log, h]

/-- A cut looks only at the calls it keeps. -/
theorem stateOf_cut_record (chronicle : Chronicle ι ρ) (i : ι) (answer : ρ) (secures : Bool)
    {m : Nat} (h : m ≤ chronicle.made.length)
    (h' : m ≤ (chronicle.record i answer secures).made.length) :
    calls.stateOf base ((chronicle.record i answer secures).cut m h') =
      calls.stateOf base (chronicle.cut m h) :=
  stateOf_congr calls base (List.take_append_of_le_length h)

/-- To keep all calls is to cut nothing. -/
theorem stateOf_cut_all (chronicle : Chronicle ι ρ) {m : Nat}
    (h : m ≤ chronicle.made.length) (hAll : m = chronicle.made.length) :
    calls.stateOf base (chronicle.cut m h) = calls.stateOf base chronicle := by
  subst hAll
  exact stateOf_congr calls base List.take_length

theorem rollbackStates_record (chronicle : Chronicle ι ρ) (i : ι) (answer : ρ) :
    calls.rollbackStates base
        (chronicle.record i answer (calls.secures i (calls.stateOf base chronicle))) =
      calls.exposed i (calls.stateOf base chronicle) (calls.rollbackStates base chronicle) := by
  generalize hSecures : calls.secures i (calls.stateOf base chronicle) = secures
  have hLength : (chronicle.record i answer secures).made.length =
      chronicle.made.length + 1 := List.length_append
  have hLast : ∀ h, calls.stateOf base
      ((chronicle.record i answer secures).cut (chronicle.made.length + 1) h) =
        calls.next i (calls.stateOf base chronicle) := by
    intro h
    rw [stateOf_cut_all calls base _ h hLength.symm, stateOf_record]
  rw [exposed, hSecures]
  ext s
  cases secures with
  | true =>
      constructor
      · rintro ⟨m, h, hSecured, rfl⟩
        have hSecured : chronicle.made.length + 1 ≤ m := hSecured
        have hNew : m = chronicle.made.length + 1 := by omega
        subst hNew
        exact hLast h
      · intro hs
        exact ⟨_, hLength.ge, Nat.le_refl _, (hLast _).trans (Set.mem_singleton_iff.mp hs).symm⟩
  | false =>
      constructor
      · rintro ⟨m, h, hSecured, rfl⟩
        by_cases hOld : m ≤ chronicle.made.length
        · exact Or.inr ⟨m, hOld, hSecured,
            (stateOf_cut_record calls base chronicle i answer false hOld h).symm⟩
        · have hNew : m = chronicle.made.length + 1 := by omega
          subst hNew
          exact Or.inl (hLast h)
      · rintro (rfl | ⟨m, h, hSecured, rfl⟩)
        · exact ⟨_, hLength.ge, Nat.le_succ_of_le chronicle.secured_le, hLast _⟩
        · exact ⟨m, by omega, hSecured, stateOf_cut_record calls base chronicle i answer false h _⟩

theorem rollbackStates_cut (chronicle : Chronicle ι ρ) {m : Nat}
    (h : m ≤ chronicle.made.length) :
    calls.rollbackStates base (chronicle.cut m h) =
      {calls.stateOf base (chronicle.cut m h)} := by
  have hLength : (chronicle.cut m h).made.length = m := by
    show (chronicle.made.take m).length = m
    rw [List.length_take, Nat.min_eq_left h]
  ext s
  constructor
  · rintro ⟨m', h', hSecured, rfl⟩
    have hSecured : m ≤ m' := hSecured
    exact stateOf_cut_all calls base _ h' (by omega)
  · intro hs
    exact ⟨m, hLength.ge, Nat.le_refl m,
      (stateOf_cut_all calls base _ _ hLength.symm).trans (Set.mem_singleton_iff.mp hs).symm⟩

/-- A log and a chronicle agree on the state and on what a crash may leave. -/
structure Matches (log : WriteLog σ ω) (chronicle : Chronicle ι ρ) : Prop where
  state : log.state calls.apply = calls.stateOf base chronicle
  crashes : log.crashStates calls.apply = calls.rollbackStates base chronicle

theorem matches_start : calls.Matches base (.opened base) .blank where
  state := rfl
  crashes := by
    rw [WriteLog.crashStates_opened]
    exact (calls.rollbackStates_cut base .blank (Nat.le_refl 0)).symm

variable {calls base} {log : WriteLog σ ω} {chronicle : Chronicle ι ρ}

/-- **Step**: the log and the chronicle answer a call alike, and agree after it. -/
theorem Matches.call (h : calls.Matches base log chronicle) (i : ι) :
    let serial := chronicle.log calls.perform (.opened base)
    (calls.perform i serial).1 = (calls.perform i log).1 ∧
      calls.Matches base (calls.perform i log).2
        (chronicle.record i (calls.perform i serial).1
          (serial.durable < (calls.perform i serial).2.durable)) := by
  intro serial
  have hState : serial.state calls.apply = log.state calls.apply := h.state.symm
  have hSecures : decide (serial.durable < (calls.perform i serial).2.durable) =
      calls.secures i (calls.stateOf base chronicle) :=
    Bool.decide_congr (calls.secures_iff i serial) |>.trans (Bool.decide_eq_true)
  refine ⟨congrArg (calls.answer i) hState, ?_, ?_⟩
  · rw [state_perform, stateOf_record, h.state]
  · rw [hSecures, crashStates_perform, rollbackStates_record, h.state, h.crashes]

/-- **Step**: what a crash may do to the log, a rollback may do to the chronicle. -/
theorem Matches.crash (h : calls.Matches base log chronicle) {log' : WriteLog σ ω}
    (hCrash : log.Crash calls.apply log') :
    ∃ m, ∃ hMade : m ≤ chronicle.made.length, chronicle.secured ≤ m ∧
      calls.Matches base log' (chronicle.cut m hMade) := by
  obtain ⟨s, hs, rfl⟩ := (WriteLog.crash_iff calls.apply log log').mp hCrash
  rw [h.crashes] at hs
  obtain ⟨m, hMade, hSecured, rfl⟩ := hs
  refine ⟨m, hMade, hSecured, rfl, ?_⟩
  rw [WriteLog.crashStates_opened, rollbackStates_cut]

/-- **Step**: and the other way round. -/
theorem Matches.rollback (h : calls.Matches base log chronicle) {m : Nat}
    (hMade : m ≤ chronicle.made.length) (hSecured : chronicle.secured ≤ m) :
    ∃ log', log.Crash calls.apply log' ∧
      calls.Matches base log' (chronicle.cut m hMade) := by
  have hs : calls.stateOf base (chronicle.cut m hMade) ∈ log.crashStates calls.apply := by
    rw [h.crashes]
    exact ⟨m, hMade, hSecured, rfl⟩
  refine ⟨.opened _, (WriteLog.crash_iff calls.apply log _).mpr ⟨_, hs, rfl⟩, rfl, ?_⟩
  rw [WriteLog.crashStates_opened, rollbackStates_cut]

/-- **Forward simulation**. -/
theorem exists_rollsBack {moments : List (Moment ι ρ)}
    (hRun : CrashRun calls.apply calls.perform (.opened base) moments log) :
    ∃ chronicle, RollsBack calls.perform (.opened base) moments chronicle ∧
      calls.Matches base log chronicle := by
  induction hRun with
  | start => exact ⟨.blank, .start, calls.matches_start base⟩
  | call _ i ih =>
      obtain ⟨chronicle, hBack, hMatches⟩ := ih
      obtain ⟨hAnswer, hNext⟩ := hMatches.call i
      have hCall := hBack.call rfl i
      rw [hAnswer] at hCall hNext
      exact ⟨_, hCall, hNext⟩
  | crash _ hCrash ih =>
      obtain ⟨chronicle, hBack, hMatches⟩ := ih
      obtain ⟨m, hMade, hSecured, hNext⟩ := hMatches.crash hCrash
      exact ⟨_, hBack.crash hSecured hMade, hNext⟩

/-- **Backward simulation**: every rollback is the work of some crash. -/
theorem exists_crashRun {moments : List (Moment ι ρ)}
    (hBack : RollsBack calls.perform (.opened base) moments chronicle) :
    ∃ log, CrashRun calls.apply calls.perform (.opened base) moments log ∧
      calls.Matches base log chronicle := by
  induction hBack with
  | start => exact ⟨_, .start, calls.matches_start base⟩
  | call _ hLog i ih =>
      subst hLog
      obtain ⟨log, hRun, hMatches⟩ := ih
      obtain ⟨hAnswer, hNext⟩ := hMatches.call i
      refine ⟨_, ?_, hNext⟩
      rw [hAnswer]
      exact hRun.call i
  | crash _ hSecured hMade ih =>
      obtain ⟨log, hRun, hMatches⟩ := ih
      obtain ⟨log', hCrash, hNext⟩ := hMatches.rollback hMade hSecured
      exact ⟨log', hRun.crash hCrash, hNext⟩

variable (calls base)

/-- **Crashes are rollbacks**: the same moments lead to the same states. -/
theorem crashRun_iff_rollsBack (moments : List (Moment ι ρ)) (s : σ) :
    (∃ log, CrashRun calls.apply calls.perform (.opened base) moments log ∧
        log.state calls.apply = s) ↔
      ∃ chronicle, RollsBack calls.perform (.opened base) moments chronicle ∧
        calls.stateOf base chronicle = s := by
  constructor
  · rintro ⟨log, hRun, rfl⟩
    obtain ⟨chronicle, hBack, hMatches⟩ := exists_rollsBack hRun
    exact ⟨chronicle, hBack, hMatches.state.symm⟩
  · rintro ⟨chronicle, hBack, rfl⟩
    obtain ⟨log, hRun, hMatches⟩ := exists_crashRun hBack
    exact ⟨log, hRun, hMatches.state⟩

end Matching

end LoggedCalls

end LedgerFS.Library
