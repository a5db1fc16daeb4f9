import LedgerFS.Batch.Conservation
import LedgerFS.Batch.SyncWriter

/-!
# The write paths agree

The records of a database after some events have been appended to a base do not
depend on how: they are those of the base and those of the events (`HoldsJust`), and
these determine the contents (`HoldsJust.unique`).  Where the keys are fresh and
distinct and nothing fails, every way of writing the events comes to this: every
sequence of calls, however it cuts the events into calls and whichever append each of
them is (`run_holdsJust`), the synchronous writer however it is flushed
(`writer_holdsJust`), and the processor when it is idle.  `writePaths_agree` puts
them beside appending the events one at a time.
-/

namespace LedgerFS.Batch

open LedgerFS.Core
open LedgerFS.Library
open LedgerFS.EventStore

/-- The events have distinct keys, none of them in the base. -/
structure FreshKeys (base : Contents) (events : List EventEnvelope) : Prop where
  nodup : (events.map generateEventKey).Nodup
  free : ∀ e ∈ events, base[generateEventKey e]? = none

theorem FreshKeys.perm {base : Contents} {events events' : List EventEnvelope}
    (h : FreshKeys base events) (hPerm : events.Perm events') : FreshKeys base events' where
  nodup := (hPerm.map generateEventKey).nodup_iff.mp h.nodup
  free e he := h.free e (hPerm.mem_iff.mpr he)

theorem FreshKeys.left {base : Contents} {events more : List EventEnvelope}
    (h : FreshKeys base (events ++ more)) : FreshKeys base events where
  nodup := by
    have hNodup := h.nodup
    rw [List.map_append] at hNodup
    exact hNodup.of_append_left
  free e he := h.free e (List.mem_append_left _ he)

section Holds

variable (C : Crates) (store : EventStore)

/-- The records of the base and of the events, and no others. -/
def HoldsJust (base : Contents) (events : List EventEnvelope) (contents : Contents) : Prop :=
  ∀ k v : Bytes, contents[k]? = some v ↔
    base[k]? = some v ∨ ∃ e ∈ events, IsRecord C store e (k, v)

theorem holdsJust_nil (base : Contents) : HoldsJust C store base [] base := by
  intro k v
  simp

variable {C store} {base contents contents' : Contents} {events more : List EventEnvelope}

/-- The events determine the contents. -/
theorem HoldsJust.unique (h : HoldsJust C store base events contents)
    (h' : HoldsJust C store base events contents') : contents = contents' := by
  apply Std.ExtTreeMap.ext_getElem?
  intro k
  rw [Option.ext_iff]
  intro v
  rw [h k v, h' k v]

theorem HoldsJust.perm (h : HoldsJust C store base events contents) (hPerm : events.Perm more) :
    HoldsJust C store base more contents := by
  intro k v
  rw [h k v]
  simp only [hPerm.mem_iff]

/-- The keys of further events are free. -/
theorem HoldsJust.free (h : HoldsJust C store base events contents)
    (hFresh : FreshKeys base (events ++ more)) {e : EventEnvelope} (he : e ∈ more) :
    contents[generateEventKey e]? = none := by
  by_contra hTaken
  obtain ⟨value, hValue⟩ := Option.ne_none_iff_exists'.mp hTaken
  rcases (h _ _).mp hValue with hOld | ⟨f, hf, hRecord⟩
  · cases (hFresh.free e (List.mem_append_right _ he)).symm.trans hOld
  · have hNodup := hFresh.nodup
    rw [List.map_append] at hNodup
    exact List.disjoint_of_nodup_append hNodup (List.mem_map_of_mem hf)
      (hRecord.1 ▸ List.mem_map_of_mem he)

/-- **An accepted batch** adds its events. -/
theorem HoldsJust.accept (h : HoldsJust C store base events contents)
    (hFresh : FreshKeys base (events ++ more)) {env : CallEnv} {batch : WriteBatch}
    (hAccepts : Accepts C store env contents more batch) :
    HoldsJust C store base (events ++ more) (applyBatch contents batch) := by
  have hNodup := hFresh.nodup
  rw [List.map_append] at hNodup
  intro k v
  rw [hAccepts.get_iff hNodup.of_append_right, h k v]
  simp only [List.mem_append, or_and_right, exists_or, or_assoc]

/-- A call without faults appends its events. -/
theorem HoldsJust.perform (hEncodes : C.Lz4Encodes) {env : CallEnv} (hEnv : NoFault env)
    {db : RocksDb} (call : Call) (h : HoldsJust C store base events db.contents)
    (hFresh : FreshKeys base (events ++ call.envelopes)) :
    HoldsJust C store base (events ++ call.envelopes)
      (RocksDb.contents ((call.perform C store env).exec db).2) := by
  by_cases hNil : call.envelopes = []
  · have hSame : ((call.perform C store env).exec db).2 = db := by
      rcases perform_cases C store env call db
        with ⟨_, hSome, -⟩ | ⟨-, hSame⟩ | ⟨-, error, hExec⟩
      · exact absurd hNil hSome
      · exact hSame
      · rw [hExec]
    rw [hSame, hNil, List.append_nil]
    exact h
  · obtain ⟨batch, hAccepts, hExec⟩ := perform_accepted C store env hEncodes call db hNil
      (fun e he => ⟨hEnv.1 _, h.free hFresh he⟩) hEnv.2
    rw [hExec, RocksDb.contents_write]
    exact h.accept hFresh hAccepts

variable (store) in
/-- **However the events are cut into calls**, and whichever appends these are. -/
theorem run_holdsJust (hEncodes : C.Lz4Encodes) (steps : List (CallEnv × Call))
    (hQuiet : ∀ step ∈ steps, NoFault step.1) (db : RocksDb)
    (hFresh : FreshKeys db.contents (steps.flatMap fun step => step.2.envelopes)) :
    HoldsJust C store db.contents (steps.flatMap fun step => step.2.envelopes)
      (RocksDb.contents (run C store steps db)) := by
  induction steps using List.reverseRecOn with
  | nil => exact holdsJust_nil C store db.contents
  | append_singleton steps step ih =>
      obtain ⟨env, call⟩ := step
      rw [List.flatMap_append, List.flatMap_singleton] at hFresh ⊢
      have hBefore := ih (fun step hStep => hQuiet step (List.mem_append_left _ hStep)) hFresh.left
      rw [run_append]
      exact hBefore.perform hEncodes
        (hQuiet (env, call) (List.mem_append_right _ List.mem_cons_self)) call hFresh

end Holds

/-! ## The synchronous writer -/

section Writer

/-- The events of a call of the writer, or elsewhere. -/
def WriterCall.sources : WriterCall → List EventEnvelope
  | .addEvent event => [event]
  | .elsewhere _ call => call.envelopes
  | _ => []

/-- No fault of the database during the call. -/
def WriterCall.Faultless : WriterCall → Prop
  | .addEvent _ => True
  | .flushIfFull env => NoFault env
  | .flush env => NoFault env
  | .elsewhere env _ => NoFault env

variable {C : Crates} {store : EventStore} {base : Contents} {s : WriterState}
  {events : List EventEnvelope}

/-- The events so far are stored, but for the pending ones. -/
def StoredButPending (C : Crates) (store : EventStore) (base : Contents)
    (events : List EventEnvelope) (s : WriterState) : Prop :=
  ∃ done, (done ++ s.writer.pendingEvents).Perm events ∧
    HoldsJust C store base done s.db.contents

/-- A flush of fresh keys stores what is pending. -/
theorem StoredButPending.flush (hEncodes : C.Lz4Encodes)
    (h : StoredButPending C store base events s) (hFresh : FreshKeys base events)
    {env : CallEnv} (hEnv : NoFault env) :
    StoredButPending C store base events (s.perform C store (.flush env)) := by
  obtain ⟨done, hPerm, hHolds⟩ := h
  by_cases hNil : s.writer.pendingEvents = []
  · have hSame : s.perform C store (.flush env) = s := by
      simp only [WriterState.perform, flush_of_nil C store env hNil s.db]
    rw [hSame]
    exact ⟨done, hPerm, hHolds⟩
  · have hKeys : FreshKeys base (done ++ s.writer.pendingEvents) := hFresh.perm hPerm.symm
    rcases flush_cases C store env hNil s.db
      with ⟨batch, hAccepts, hFlush⟩ | ⟨hRefused, error, hFlush⟩
    · refine ⟨done ++ s.writer.pendingEvents, ?_, ?_⟩
      · simp only [WriterState.perform, hFlush, List.append_nil]
        exact hPerm
      · simp only [WriterState.perform, hFlush, RocksDb.contents_write]
        exact hHolds.accept hKeys hAccepts
    · obtain ⟨batch, hAccepts⟩ := exists_accepts C store env hEncodes s.db.contents
        s.writer.pendingEvents (fun e he => ⟨hEnv.1 _, hHolds.free hKeys he⟩) hEnv.2
      exact absurd hAccepts ((refused_iff _ _).mp hRefused batch)

/-- **Step**. -/
theorem StoredButPending.perform (hEncodes : C.Lz4Encodes) {call : WriterCall}
    (h : StoredButPending C store base events s)
    (hFresh : FreshKeys base (events ++ call.sources)) (hEnv : call.Faultless) :
    StoredButPending C store base (events ++ call.sources) (s.perform C store call) := by
  cases call with
  | addEvent event =>
      obtain ⟨done, hPerm, hHolds⟩ := h
      refine ⟨done, ?_, hHolds⟩
      show (done ++ (s.writer.pendingEvents ++ [event])).Perm (events ++ [event])
      rw [← List.append_assoc]
      exact hPerm.append_right [event]
  | flush env =>
      have hEvents : events ++ (WriterCall.flush env).sources = events := List.append_nil _
      rw [hEvents] at hFresh ⊢
      exact h.flush hEncodes hFresh hEnv
  | flushIfFull env =>
      have hEvents : events ++ (WriterCall.flushIfFull env).sources = events := List.append_nil _
      rw [hEvents] at hFresh ⊢
      by_cases hFull : s.writer.maxBatchSize ≤ s.writer.pendingEvents.length
      · rw [(WriterState.perform_flushIfFull C store env hFull).1]
        exact h.flush hEncodes hFresh hEnv
      · rw [(WriterState.perform_of_room C store env hFull).1]
        exact h
  | elsewhere env call =>
      obtain ⟨done, hPerm, hHolds⟩ := h
      -- the pending events come last
      have hShift : (done ++ call.envelopes ++ s.writer.pendingEvents).Perm
          (events ++ call.envelopes) := by
        rw [List.append_assoc]
        refine (List.perm_append_comm.append_left done).trans ?_
        rw [← List.append_assoc]
        exact hPerm.append_right call.envelopes
      exact ⟨done ++ call.envelopes, hShift,
        hHolds.perform hEncodes hEnv call (hFresh.perm hShift.symm).left⟩

variable (store) in
/-- **However it is flushed**, a writer with nothing pending has stored the events
that were added, next to those of the calls elsewhere. -/
theorem writer_holdsJust (hEncodes : C.Lz4Encodes) (maxBatchSize : Nat) (db : RocksDb)
    (calls : List WriterCall) (hQuiet : ∀ call ∈ calls, call.Faultless)
    (hFresh : FreshKeys db.contents (calls.flatMap WriterCall.sources)) :
    StoredButPending C store db.contents (calls.flatMap WriterCall.sources)
      (calls.foldl (WriterState.perform C store) (.start maxBatchSize db)) := by
  induction calls using List.reverseRecOn with
  | nil => exact ⟨[], List.Perm.refl [], holdsJust_nil C store db.contents⟩
  | append_singleton calls call ih =>
      rw [List.flatMap_append, List.flatMap_singleton] at hFresh ⊢
      rw [List.foldl_append]
      have hBefore := ih (fun call hCall => hQuiet call (List.mem_append_left _ hCall)) hFresh.left
      exact hBefore.perform hEncodes hFresh
        (hQuiet call (List.mem_append_right _ List.mem_cons_self))

end Writer

/-! ## All paths -/

/-- **The write paths agree**: events with fresh and distinct keys, written without
faults, leave the same database whether they are appended one at a time, or by any
sequence of calls of the three appends, or through the synchronous writer until
nothing is pending, or through the processor until it is idle, whatever the order in
each case. -/
theorem writePaths_agree (C : Crates) (hEncodes : C.Lz4Encodes) (store : EventStore)
    (db : RocksDb) (events : List EventEnvelope) (hFresh : FreshKeys db.contents events) :
    let plain := run C store (events.map fun e => (.quiet, .appendEvent e)) db
    (∀ steps : List (CallEnv × Call), (∀ step ∈ steps, NoFault step.1) →
      (steps.flatMap fun step => step.2.envelopes).Perm events →
        RocksDb.contents (run C store steps db) = plain.contents) ∧
    (∀ (maxBatchSize : Nat) (calls : List WriterCall), (∀ call ∈ calls, call.Faultless) →
      (calls.flatMap WriterCall.sources).Perm events →
      let s := calls.foldl (WriterState.perform C store) (.start maxBatchSize db)
      s.writer.pendingEvents = [] → s.db.contents = plain.contents) ∧
    ∀ (kindText : Bincode.ErrorKind → String) (config : BatchConfig) (n : Nat) (now : Instant)
      (p : Processor n), Run C store kindText config (Quiet db.contents) (.start db now) p →
      p.accepted.Perm events → p.channel = [] → (∀ i, (p.workers i).held = []) →
        p.db.contents = plain.contents := by
  intro plain
  have hPlain : HoldsJust C store db.contents events plain.contents := by
    have hEvents : (events.map fun e => (CallEnv.quiet, Call.appendEvent e)).flatMap
        (fun step => step.2.envelopes) = events := by
      rw [List.flatMap_map]
      exact List.flatMap_singleton' events
    have hRun := run_holdsJust store hEncodes
      (events.map fun e => (CallEnv.quiet, Call.appendEvent e))
      (by
        intro step hStep
        obtain ⟨e, -, rfl⟩ := List.mem_map.mp hStep
        exact ⟨fun _ => rfl, rfl⟩) db (by rwa [hEvents])
    rwa [hEvents] at hRun
  refine ⟨?_, ?_, ?_⟩
  · intro steps hQuiet hPerm
    have hRun := run_holdsJust store hEncodes steps hQuiet db (hFresh.perm hPerm.symm)
    exact (hRun.perm hPerm).unique hPlain
  · intro maxBatchSize calls hQuiet hPerm s hNone
    obtain ⟨done, hDone, hHolds⟩ := writer_holdsJust store hEncodes maxBatchSize db calls
      hQuiet (hFresh.perm hPerm.symm)
    rw [show (calls.foldl (WriterState.perform C store)
      (.start maxBatchSize db)).writer.pendingEvents = [] from hNone, List.append_nil] at hDone
    exact (hHolds.perm (hDone.trans hPerm)).unique hPlain
  · intro kindText config n now p hRun hPerm hChannel hIdle
    obtain ⟨done, hInv⟩ := (conserved_start C store db now).run hEncodes hRun
    have hHolds : HoldsJust C store db.contents p.accepted p.db.contents :=
      hInv.contents_of_idle hChannel hIdle
    exact (hHolds.perm hPerm).unique hPlain

/-- Two events: appended at once they leave what appending one and the other does. -/
theorem twoEvents_agree :
    let e := createTestEnvelope ⟨Uuid.fromU128 1⟩ ⟨Uuid.fromU128 1⟩ DateTime.epoch
    let f := createTestEnvelope ⟨Uuid.fromU128 2⟩ ⟨Uuid.fromU128 2⟩ DateTime.epoch
    RocksDb.contents (run Crates.sample (new .default)
        [(.quiet, .appendEventsOptimized [f, e])] .empty) =
      RocksDb.contents (run Crates.sample (new .default)
        [(.quiet, .appendEvent e), (.quiet, .appendEvent f)] .empty) := by
  intro e f
  have hFresh : FreshKeys RocksDb.empty.contents [e, f] := ⟨by decide, fun _ _ => rfl⟩
  refine (writePaths_agree Crates.sample Crates.sample_lz4Encodes (new .default) .empty [e, f]
    hFresh).1 [(.quiet, .appendEventsOptimized [f, e])] ?_ (List.Perm.swap e f [])
  intro step hStep
  rw [List.mem_singleton.mp hStep]
  exact ⟨fun _ => rfl, rfl⟩

end LedgerFS.Batch
