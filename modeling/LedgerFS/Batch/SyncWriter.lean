import LedgerFS.Batch.Flush
import LedgerFS.EventStore.StoredOrder
import LedgerFS.Library.CheckedReplay

/-!
# The synchronous writer (`batch.rs`)

`SyncBatchWriter` keeps a queue of events and appends all of it at once.  Its
`flush` empties the queue first and appends then, so a refused append leaves
the events nowhere; and an accepted one stores of events that share a key the
last.

* `syncWriter_keeps_iff` — a run loses nothing exactly when every flush of
  something is accepted, its events of one key are equal and all its instants are
  printed unambiguously.
-/

namespace LedgerFS.Batch

open LedgerFS.Core
open LedgerFS.Library
open LedgerFS.EventStore

/-- Synchronous batch writer for high-throughput scenarios. -/
structure SyncBatchWriter where
  pendingEvents : List EventEnvelope
  maxBatchSize : Nat

namespace SyncBatchWriter

def new (maxBatchSize : Nat) : SyncBatchWriter := ⟨[], maxBatchSize⟩

/-- Add an event to the pending batch. -/
def addEvent (writer : SyncBatchWriter) (event : EventEnvelope) : SyncBatchWriter :=
  { writer with pendingEvents := writer.pendingEvents ++ [event] }

section Flush

variable (C : Crates) (store : EventStore) (env : CallEnv)

/-- Flush all pending events: the answer, the writer and the database. -/
def flush (writer : SyncBatchWriter) (db : RocksDb) :
    Except EventStoreError Unit × SyncBatchWriter × RocksDb :=
  if writer.pendingEvents.isEmpty then (.ok (), writer, db)
  else
    let events := writer.pendingEvents
    -- `drain(..)` has emptied the queue before the append is awaited.
    let drained := { writer with pendingEvents := [] }
    let outcome := (store.appendEvents C env events).exec db
    (outcome.1, drained, outcome.2)

/-- Flush pending events if batch is full. -/
def flushIfFull (writer : SyncBatchWriter) (db : RocksDb) :
    Except EventStoreError Bool × SyncBatchWriter × RocksDb :=
  if writer.maxBatchSize ≤ writer.pendingEvents.length then
    let flushed := writer.flush C store env db
    (flushed.1.map fun _ => true, flushed.2)
  else (.ok false, writer, db)

end Flush

end SyncBatchWriter

/-! ## Runs -/

/-- What happens to a writer, or elsewhere to the store it shares. -/
inductive WriterCall
  | addEvent (event : EventEnvelope)
  | flushIfFull (env : CallEnv)
  | flush (env : CallEnv)
  | elsewhere (env : CallEnv) (call : Call)

/-- The writer, the database, and every event ever added, in their order. -/
structure WriterState where
  writer : SyncBatchWriter
  db : RocksDb
  added : List EventEnvelope

/-- Events of one key are equal, and what is read back of each is the event itself. -/
def Storable (events : List EventEnvelope) : Prop :=
  (∀ e ∈ events, ∀ f ∈ events, generateEventKey e = generateEventKey f → e.PartialEq f) ∧
    ∀ e ∈ events, e.Unambiguous

section Runs

variable (C : Crates) (store : EventStore)

namespace WriterState

/-- The state after a call. -/
def perform (s : WriterState) : WriterCall → WriterState
  | .addEvent event =>
      { s with writer := s.writer.addEvent event, added := s.added ++ [event] }
  | .flushIfFull env =>
      let flushed := s.writer.flushIfFull C store env s.db
      { s with writer := flushed.2.1, db := flushed.2.2 }
  | .flush env =>
      let flushed := s.writer.flush C store env s.db
      { s with writer := flushed.2.1, db := flushed.2.2 }
  | .elsewhere env call => { s with db := ((call.perform C store env).exec s.db).2 }

/-- The call is a flush that returns an error. -/
def Fails (s : WriterState) : WriterCall → Prop
  | .flushIfFull env => ∃ error, (s.writer.flushIfFull C store env s.db).1 = .error error
  | .flush env => ∃ error, (s.writer.flush C store env s.db).1 = .error error
  | _ => False

/-- Every event ever added is pending or in the store, and the pending ones
are in the order in which they were added. -/
structure Complete (s : WriterState) : Prop where
  kept : ∀ e ∈ s.added, e ∈ s.writer.pendingEvents ∨ IsStored C store s.db.contents e
  ordered : s.writer.pendingEvents.Sublist s.added

/-- The call leaves a complete state, and the queue as it was if it fails. -/
structure LosesNothing (s : WriterState) (call : WriterCall) : Prop where
  complete : (s.perform C store call).Complete C store
  untouched : s.Fails C store call →
    (s.perform C store call).writer.pendingEvents = s.writer.pendingEvents

/-- The call would append the queue. -/
def Appending (s : WriterState) : WriterCall → Option CallEnv
  | .flushIfFull env =>
      if s.writer.maxBatchSize ≤ s.writer.pendingEvents.length then some env else none
  | .flush env => some env
  | _ => none

/-- Where there is something to append, the append is not refused, the events
of one key are equal and all instants are printed unambiguously. -/
def GoesThrough (s : WriterState) (call : WriterCall) : Prop :=
  ∀ env, s.Appending call = some env → s.writer.pendingEvents ≠ [] →
    ¬ Refused C store env s.db.contents s.writer.pendingEvents ∧
      Storable s.writer.pendingEvents

end WriterState

/-- A new writer on a database. -/
def WriterState.start (maxBatchSize : Nat) (db : RocksDb) : WriterState :=
  ⟨.new maxBatchSize, db, []⟩

end Runs

/-! ## One flush -/

section Keeping

variable {C : Crates} {store : EventStore}

/-- What is in the store stays there as long as its key keeps its value. -/
theorem IsStored.mono {before after : Contents}
    (hKeep : ∀ k v : Bytes, before[k]? = some v → after[k]? = some v) {e : EventEnvelope}
    (h : IsStored C store before e) : IsStored C store after e := by
  obtain ⟨value, hGet, hBack⟩ := h
  exact ⟨value, hKeep _ _ hGet, hBack⟩

/-- **What an accepted append stores**: all of its events, exactly when those
of one key are equal and their instants are printed unambiguously. -/
theorem Accepts.stores_iff (hTime : C.TimeTextReadsBack) (hDecodes : C.Lz4DecodesBack)
    {env : CallEnv} {contents : Contents} {events : List EventEnvelope} {batch : WriteBatch}
    (h : Accepts C store env contents events batch) :
    (∀ e ∈ events, IsStored C store (applyBatch contents batch) e) ↔ Storable events := by
  have hDecode (f : EventEnvelope) {value : Bytes}
      (hValue : store.serializer.serialize C f = .ok value) (hs : Hashers) :=
    EventSerializer.deserialize_serialize hTime hDecodes hValue hs
  -- Under the key of an event stands one of the events of that key.
  have hAt (e : EventEnvelope) (he : e ∈ events) :
      ∃ f ∈ events, generateEventKey f = generateEventKey e ∧
        ∃ value, store.serializer.serialize C f = .ok value ∧
          (applyBatch contents batch)[generateEventKey e]? = some value := by
    have hKey : generateEventKey e ∈ batch.map Prod.fst := by
      rw [keys_of_records h.records]
      exact List.mem_map_of_mem he
    obtain ⟨value, hMem, hGet⟩ := applyBatch_get_of_mem contents batch _ hKey
    obtain ⟨f, hf, hSame, hValue⟩ := exists_envelope_of_mem h.records hMem
    exact ⟨f, hf, hSame.symm, value, hValue, hGet⟩
  constructor
  · intro hAll
    -- what stands under the key is read back as every event of that key
    have hStoredAs (e : EventEnvelope) (he : e ∈ events) : ∃ g : EventEnvelope, ∀ d ∈ events,
        generateEventKey d = generateEventKey e → ∃ hs, (g.reread hs).PartialEq d := by
      obtain ⟨g, hg, -, value, hValue, hGet⟩ := hAt e he
      refine ⟨g, fun d hd hKey => ?_⟩
      obtain ⟨value', hGet', hs', d', hBack, hEq⟩ := hAll d hd
      rw [hKey, hGet, Option.some.injEq] at hGet'
      subst hGet'
      rw [hDecode g hValue hs', Except.ok.injEq] at hBack
      exact ⟨hs', hBack ▸ hEq⟩
    constructor
    · intro e he f hf hSame
      obtain ⟨g, hg⟩ := hStoredAs e he
      obtain ⟨hs, hAsE⟩ := hg e he rfl
      obtain ⟨hs', hAsF⟩ := hg f hf hSame.symm
      have hReread := (g.reread_partialEq hs).trans (g.reread_partialEq hs').symm
      exact hAsE.symm.trans (hReread.trans hAsF)
    · intro e he
      obtain ⟨g, hg⟩ := hStoredAs e he
      obtain ⟨hs, hAsE⟩ := hg e he rfl
      exact hAsE.symm.unambiguous (g.reread_unambiguous hs)
  · rintro ⟨hSame, hPlain⟩ e he
    obtain ⟨f, hf, hKey, value, hValue, hGet⟩ := hAt e he
    refine ⟨value, hGet, fun _ => .arrival, _, hDecode f hValue _, ?_⟩
    exact ((f.reread_partialEq_iff _).mpr (hPlain f hf)).trans (hSame f hf e he hKey)

variable (C store)

/-- **The ways a flush of something ends**: the queue is empty in both. -/
theorem flush_cases (env : CallEnv) {writer : SyncBatchWriter}
    (hSome : writer.pendingEvents ≠ []) (db : RocksDb) :
    (∃ batch, Accepts C store env db.contents writer.pendingEvents batch ∧
        writer.flush C store env db = (.ok (), { writer with pendingEvents := [] },
          db.write batch store.config.syncWrites)) ∨
      (Refused C store env db.contents writer.pendingEvents ∧ ∃ error,
        writer.flush C store env db =
          (.error error, { writer with pendingEvents := [] }, db)) := by
  have hFlush : writer.flush C store env db =
      (((store.appendEvents C env writer.pendingEvents).exec db).1,
        { writer with pendingEvents := [] },
        ((store.appendEvents C env writer.pendingEvents).exec db).2) := by
    rw [SyncBatchWriter.flush, if_neg (by simpa using hSome)]
  rcases appendEvents_appends C store env hSome db
    with ⟨batch, _, hAccepts, hExec⟩ | ⟨hNone, error, hExec⟩
  · exact Or.inl ⟨batch, hAccepts, by rw [hFlush, hExec]⟩
  · exact Or.inr ⟨(refused_iff _ _).mpr hNone, error, by rw [hFlush, hExec]⟩

/-- A flush of nothing does nothing. -/
theorem flush_of_nil (env : CallEnv) {writer : SyncBatchWriter}
    (hNil : writer.pendingEvents = []) (db : RocksDb) :
    writer.flush C store env db = (.ok (), writer, db) := by
  rw [SyncBatchWriter.flush, hNil]
  rfl

namespace WriterState

/-- A full writer is flushed. -/
theorem perform_flushIfFull {s : WriterState} (env : CallEnv)
    (hFull : s.writer.maxBatchSize ≤ s.writer.pendingEvents.length) :
    s.perform C store (.flushIfFull env) = s.perform C store (.flush env) ∧
      (s.Fails C store (.flushIfFull env) ↔ s.Fails C store (.flush env)) := by
  have hCall : s.writer.flushIfFull C store env s.db =
      ((s.writer.flush C store env s.db).1.map fun _ => true,
        (s.writer.flush C store env s.db).2) := by
    rw [SyncBatchWriter.flushIfFull, if_pos hFull]
  constructor
  · simp only [perform, hCall]
  · simp only [Fails, hCall]
    cases (s.writer.flush C store env s.db).1 with
    | error error => exact iff_of_true ⟨error, rfl⟩ ⟨error, rfl⟩
    | ok u =>
        apply iff_of_false
        · rintro ⟨_, hError⟩
          cases hError
        · rintro ⟨_, hError⟩
          cases hError

/-- Any other writer is left alone. -/
theorem perform_of_room {s : WriterState} (env : CallEnv)
    (hRoom : ¬ s.writer.maxBatchSize ≤ s.writer.pendingEvents.length) :
    s.perform C store (.flushIfFull env) = s ∧ ¬ s.Fails C store (.flushIfFull env) := by
  have hCall : s.writer.flushIfFull C store env s.db = (.ok false, s.writer, s.db) := by
    rw [SyncBatchWriter.flushIfFull, if_neg hRoom]
  constructor
  · simp only [perform, hCall]
  · simp only [Fails, hCall]
    rintro ⟨_, hError⟩
    cases hError

variable {C store}

/-- **One flush** of a complete state. -/
theorem flush_losesNothing_iff (hTime : C.TimeTextReadsBack) (hDecodes : C.Lz4DecodesBack)
    {s : WriterState} (h : s.Complete C store) (env : CallEnv)
    (hSome : s.writer.pendingEvents ≠ []) :
    s.LosesNothing C store (.flush env) ↔
      ¬ Refused C store env s.db.contents s.writer.pendingEvents ∧
        Storable s.writer.pendingEvents := by
  rcases flush_cases C store env hSome s.db
    with ⟨batch, hAccepts, hFlush⟩ | ⟨hRefused, error, hFlush⟩
  · have hAfter : s.perform C store (.flush env) =
        { s with
          writer := { s.writer with pendingEvents := [] }
          db := s.db.write batch store.config.syncWrites } := by
      simp only [perform, hFlush]
    have hNotRefused : ¬ Refused C store env s.db.contents s.writer.pendingEvents := by
      rw [refused_iff]
      exact fun hNone => hNone batch hAccepts
    have hStores := Accepts.stores_iff hTime hDecodes hAccepts
    constructor
    · intro hKeeps
      refine ⟨hNotRefused, hStores.mp fun e he => ?_⟩
      have hKept := hKeeps.complete.kept
      rw [hAfter] at hKept
      rcases hKept e (h.ordered.subset he) with hPending | hStored
      · cases hPending
      · rw [RocksDb.contents_write] at hStored
        exact hStored
    · intro hSame
      refine ⟨⟨?_, ?_⟩, ?_⟩
      · rw [hAfter]
        intro e he
        right
        rw [RocksDb.contents_write]
        rcases h.kept e he with hPending | hStored
        · exact hStores.mpr hSame.2 e hPending
        · exact hStored.mono fun k v hGet => hAccepts.get_of_stored hGet
      · rw [hAfter]
        exact List.nil_sublist _
      · intro hFails
        obtain ⟨error, hError⟩ := hFails
        rw [hFlush] at hError
        cases hError
  · apply iff_of_false
    · intro hKeeps
      have hUntouched := hKeeps.untouched ⟨error, by rw [hFlush]⟩
      simp only [perform, hFlush] at hUntouched
      exact hSome hUntouched.symm
    · exact fun hBoth => hBoth.1 hRefused

/-- A call that leaves a complete state as it is and does not fail. -/
theorem losesNothing_of_same {s : WriterState} (h : s.Complete C store) {call : WriterCall}
    (hSame : s.perform C store call = s) (hNot : ¬ s.Fails C store call) :
    s.LosesNothing C store call :=
  ⟨hSame.symm ▸ h, fun hFails => absurd hFails hNot⟩

/-- A flush of something or of nothing. -/
theorem flush_iff (hTime : C.TimeTextReadsBack) (hDecodes : C.Lz4DecodesBack)
    {s : WriterState} (h : s.Complete C store) (env : CallEnv) :
    s.LosesNothing C store (.flush env) ↔ s.GoesThrough C store (.flush env) := by
  by_cases hNil : s.writer.pendingEvents = []
  · have hFlush := flush_of_nil C store env hNil s.db
    apply iff_of_true
    · apply losesNothing_of_same h
      · simp only [perform, hFlush]
      · rintro ⟨_, hError⟩
        rw [hFlush] at hError
        cases hError
    · intro _ _ hSome
      exact absurd hNil hSome
  · rw [flush_losesNothing_iff hTime hDecodes h env hNil]
    constructor
    · intro hBoth env' hEnv _
      obtain rfl := Option.some.inj hEnv
      exact hBoth
    · intro hThrough
      exact hThrough env rfl hNil

/-- **One call** of a complete state. -/
theorem losesNothing_iff (hTime : C.TimeTextReadsBack) (hDecodes : C.Lz4DecodesBack)
    {s : WriterState} (h : s.Complete C store) (call : WriterCall) :
    s.LosesNothing C store call ↔ s.GoesThrough C store call := by
  cases call with
  | addEvent event =>
      refine iff_of_true ⟨⟨?_, ?_⟩, fun hFails => hFails.elim⟩ ?_
      · intro e he
        rcases List.mem_append.mp he with hOld | hNew
        · rcases h.kept e hOld with hPending | hStored
          · exact Or.inl (List.mem_append_left _ hPending)
          · exact Or.inr hStored
        · exact Or.inl (List.mem_append_right _ hNew)
      · exact h.ordered.append (List.Sublist.refl [event])
      · intro env hNone
        cases hNone
  | elsewhere env call =>
      refine iff_of_true ⟨⟨?_, h.ordered⟩, fun hFails => hFails.elim⟩ ?_
      · intro e he
        rcases h.kept e he with hPending | hStored
        · exact Or.inl hPending
        · exact Or.inr (hStored.mono fun k v hGet => perform_keeps call s.db hGet)
      · intro env hNone
        cases hNone
  | flush env => exact flush_iff hTime hDecodes h env
  | flushIfFull env =>
      by_cases hFull : s.writer.maxBatchSize ≤ s.writer.pendingEvents.length
      · obtain ⟨hAfter, hFails⟩ := perform_flushIfFull C store env hFull
        have hAppending : s.Appending (.flushIfFull env) = s.Appending (.flush env) :=
          if_pos hFull
        have hThrough : s.GoesThrough C store (.flushIfFull env) ↔
            s.GoesThrough C store (.flush env) := by
          rw [GoesThrough, GoesThrough, hAppending]
        rw [hThrough, ← flush_iff hTime hDecodes h env]
        constructor
        · intro hKeeps
          exact ⟨hAfter ▸ hKeeps.complete,
            fun hError => hAfter ▸ hKeeps.untouched (hFails.mpr hError)⟩
        · intro hKeeps
          exact ⟨hAfter.symm ▸ hKeeps.complete,
            fun hError => hAfter.symm ▸ hKeeps.untouched (hFails.mp hError)⟩
      · obtain ⟨hAfter, hNot⟩ := perform_of_room C store env hFull
        refine iff_of_true (losesNothing_of_same h hAfter hNot) ?_
        intro env' hEnv
        rw [Appending, if_neg hFull] at hEnv
        cases hEnv

end WriterState

end Keeping

/-! ## Whole runs -/

/-- **When a writer loses nothing**: in a run of a new writer over any store,
every call leaves each event that was added pending or stored, the pending ones
in their order, and after an error the queue as it was, exactly when each
append of something is accepted, the events of one key are equal in it and all
instants are printed unambiguously. -/
theorem syncWriter_keeps_iff (C : Crates) (hTime : C.TimeTextReadsBack)
    (hDecodes : C.Lz4DecodesBack) (store : EventStore) (maxBatchSize : Nat) (db : RocksDb)
    (calls : List WriterCall) :
    AtEach (fun before call => WriterState.LosesNothing C store
        (before.foldl (WriterState.perform C store) (.start maxBatchSize db)) call) calls ↔
      AtEach (fun before call => WriterState.GoesThrough C store
        (before.foldl (WriterState.perform C store) (.start maxBatchSize db)) call) calls := by
  apply atEach_iff (WriterState.perform C store) (.start maxBatchSize db)
    (fun s => s.Complete C store)
  · exact ⟨fun e he => absurd he List.not_mem_nil, List.Sublist.refl []⟩
  · intro s call h
    exact WriterState.losesNothing_iff hTime hDecodes h call
  · intro s call _ hKeeps
    exact hKeeps.complete

/-- Two events are added, the writer is not full, and a flush stores both. -/
theorem syncWriter_keeps_test :
    let store := new .default
    let calls := [.addEvent first, .addEvent later, .flushIfFull .quiet, .flush .quiet]
    let last := calls.foldl (WriterState.perform Crates.sample store) (.start 3 .empty)
    AtEach (fun before call => WriterState.LosesNothing Crates.sample store
      (before.foldl (WriterState.perform Crates.sample store) (.start 3 .empty)) call) calls ∧
    last.writer.pendingEvents = [] ∧
    ∀ e ∈ [first, later], IsStored Crates.sample store last.db.contents e := by
  intro store calls last
  have hKeys : ([first, later].map generateEventKey).Nodup := by decide
  have hStorable : Storable [first, later] := by
    refine ⟨fun e he f hf hSame => ?_, by decide⟩
    rw [List.inj_on_of_nodup_map hKeys he hf hSame]
    exact (f.rehash_partialEq fun _ => .arrival).symm.trans (f.rehash_partialEq _)
  obtain ⟨batch, hAccepts⟩ := exists_accepts Crates.sample store .quiet Crates.sample_lz4Encodes
    RocksDb.empty.contents [first, later] (fun _ _ => ⟨rfl, rfl⟩) rfl
  have hNotRefused :
      ¬ Refused Crates.sample store .quiet RocksDb.empty.contents [first, later] := by
    rw [refused_iff]
    exact fun hNone => hNone batch hAccepts
  have hThrough : AtEach (fun before call => WriterState.GoesThrough Crates.sample store
      (before.foldl (WriterState.perform Crates.sample store) (.start 3 .empty)) call) calls := by
    show AtEach _ ([] ++ [WriterCall.addEvent first] ++ [.addEvent later] ++
      [.flushIfFull .quiet] ++ [.flush .quiet])
    simp only [atEach_concat]
    refine ⟨⟨⟨⟨atEach_nil _, ?_⟩, ?_⟩, ?_⟩, ?_⟩
    · rintro env ⟨⟩
    · rintro env ⟨⟩
    · rintro env ⟨⟩
    · rintro env ⟨⟩ -
      exact ⟨hNotRefused, hStorable⟩
  have hKeeps := (syncWriter_keeps_iff Crates.sample Crates.sample_timeTextReadsBack
    Crates.sample_lz4DecodesBack store 3 .empty calls).mpr hThrough
  -- the flush is of both events, in any state of the database
  have hEmpty : last.writer.pendingEvents = [] := by
    rcases @flush_cases Crates.sample store .quiet ⟨[first, later], 3⟩ (List.cons_ne_nil _ _)
      RocksDb.empty with ⟨_, _, hFlush⟩ | ⟨_, _, hFlush⟩
    all_goals exact congrArg (fun flushed => flushed.2.1.pendingEvents) hFlush
  refine ⟨hKeeps, hEmpty, fun e he => ?_⟩
  have hLast := (hKeeps [.addEvent first, .addEvent later, .flushIfFull .quiet]
    (.flush .quiet) [] rfl).complete.kept e he
  rcases hLast with hPending | hStored
  · exact absurd (hEmpty ▸ hPending) List.not_mem_nil
  · exact hStored

/-- The database refuses the write: the event is gone from the queue. -/
theorem syncWriter_failed_write :
    ¬ ∀ (maxBatchSize : Nat) (db : RocksDb) (calls : List WriterCall),
      AtEach (fun before call => WriterState.LosesNothing Crates.sample (.new .default)
        (before.foldl (WriterState.perform Crates.sample (.new .default))
          (.start maxBatchSize db)) call) calls := by
  intro hAlways
  let e := createTestEnvelope ⟨Uuid.fromU128 1⟩ ⟨Uuid.fromU128 1⟩ DateTime.epoch
  let env : CallEnv := { CallEnv.quiet with writeFault := some ⟨"No space left on device"⟩ }
  let s := (WriterState.start 3 .empty).perform Crates.sample (.new .default) (.addEvent e)
  have hKeeps : s.LosesNothing Crates.sample (.new .default) (.flush env) :=
    hAlways 3 .empty [.addEvent e, .flush env] [.addEvent e] (.flush env) [] rfl
  have hSome : s.writer.pendingEvents ≠ [] := List.cons_ne_nil e []
  rcases flush_cases Crates.sample (.new .default) env hSome s.db
    with ⟨batch, hAccepts, -⟩ | ⟨-, error, hFlush⟩
  · cases hAccepts.writable
  · have hUntouched := hKeeps.untouched ⟨error, congrArg Prod.fst hFlush⟩
    simp only [WriterState.perform, hFlush] at hUntouched
    exact hSome hUntouched.symm

end LedgerFS.Batch
