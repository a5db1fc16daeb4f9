import LedgerFS.EventStore.Runs
import Mathlib.Data.List.Infix

/-!
# Flushing a batch (`batch.rs`)

`flush_batch` hands the batch of a worker to the store, counts the outcome and
starts a new batch, whatever the outcome was.  The append is all or nothing, and
a batch mixes the envelopes of unrelated senders: when it is refused, the
envelopes that could have been stored go with the one that could not.  So a flush
loses nothing exactly when it is not refused, or when everything in the batch was
stored before (`flush_keeps_iff`).

The ratios kept in `f64` (batch size, events per second, peak throughput) are
not modelled; the average latency is, with exact arithmetic.
-/

namespace LedgerFS.Batch

open LedgerFS.Core
open LedgerFS.Library
open LedgerFS.EventStore

/-! ## Batches -/

/-- `std::time::Instant`: nanoseconds on a monotonic clock. -/
abbrev Instant : Type := Nat

/-- Configuration for batch processing; delays in nanoseconds. -/
structure BatchConfig where
  maxBatchSize : Nat
  maxBatchDelay : Nat
  bufferSize : Nat
  numProcessors : Nat
  useOptimizedAppend : Bool
deriving DecidableEq

/-- `BatchConfig::default`. -/
def BatchConfig.default : BatchConfig where
  maxBatchSize := 1000
  maxBatchDelay := 10000000
  bufferSize := 10000
  numProcessors := 4
  useOptimizedAppend := true

/-- A batch of events ready for processing. -/
structure EventBatch where
  events : List EventEnvelope
  createdAt : Instant
deriving DecidableEq

namespace EventBatch

def new (now : Instant) : EventBatch := ⟨[], now⟩

def addEvent (batch : EventBatch) (event : EventEnvelope) : EventBatch :=
  { batch with events := batch.events ++ [event] }

def isFull (batch : EventBatch) (maxSize : Nat) : Bool := batch.events.length ≥ maxSize

/-- `created_at.elapsed()` is counted from the given reading. -/
def isExpired (batch : EventBatch) (now : Instant) (maxDelay : Nat) : Bool :=
  now - batch.createdAt ≥ maxDelay

def len (batch : EventBatch) : Nat := batch.events.length

def isEmpty (batch : EventBatch) : Bool := batch.events.isEmpty

@[simp] theorem new_events (now : Instant) : (new now).events = [] := rfl

@[simp] theorem addEvent_events (batch : EventBatch) (event : EventEnvelope) :
    (batch.addEvent event).events = batch.events ++ [event] := rfl

theorem isEmpty_iff (batch : EventBatch) : batch.isEmpty = true ↔ batch.events = [] :=
  List.isEmpty_iff

end EventBatch

/-! ## Metrics -/

/-- `str::contains`. -/
def textContains (text pattern : String) : Bool :=
  text.toList.tails.any pattern.toList.isPrefixOf

theorem textContains_append (before pattern after : String) :
    textContains (before ++ pattern ++ after) pattern = true := by
  rw [textContains, List.any_eq_true]
  refine ⟨pattern.toList ++ after.toList, ?_, ?_⟩
  · rw [List.mem_tails]
    exact ⟨before.toList, by simp⟩
  · rw [List.isPrefixOf_iff_prefix]
    exact List.prefix_append _ _

section Violations

variable (kindText : Bincode.ErrorKind → String)

/-- `contains("already exists")` on the text of the error. -/
def isAppendOnlyViolation (error : EventStoreError) : Bool :=
  textContains (error.toText kindText) "already exists"

private theorem refusalText :
    " already exists. Append-only store prevents overwrites." =
      " " ++ "already exists" ++ ". Append-only store prevents overwrites." := by
  decide

/-- The refusal to overwrite a record counts as a violation. -/
theorem isAppendOnlyViolation_alreadyExists (C : Crates) (key : Bytes) :
    isAppendOnlyViolation kindText (alreadyExists C key) = true := by
  have hText : (alreadyExists C key).toText kindText =
      "Concurrency error: " ++ ("Event with key " ++ C.debugLossy key ++ " ") ++
        "already exists" ++ ". Append-only store prevents overwrites." := by
    show "Concurrency error: " ++ ("Event with key " ++ C.debugLossy key ++
      " already exists. Append-only store prevents overwrites.") = _
    rw [refusalText]
    simp only [String.append_assoc]
  rw [isAppendOnlyViolation, hText]
  exact textContains_append _ _ _

end Violations

/-- Metrics for batch processing performance. -/
structure BatchMetrics where
  totalEventsProcessed : Nat
  totalBatchesProcessed : Nat
  processingErrors : Nat
  totalBytesWritten : Nat
  averageWriteLatency : Nat
  appendOnlyViolations : Nat
deriving DecidableEq

/-- `BatchMetrics::default`. -/
def BatchMetrics.default : BatchMetrics := ⟨0, 0, 0, 0, 0, 0⟩

/-- The update after an append of so many events that took so long. -/
def BatchMetrics.record (kindText : Bincode.ErrorKind → String) (batchSize duration : Nat)
    (metrics : BatchMetrics) : Except EventStoreError (Option AppendResult) → BatchMetrics
  | .ok appendResult =>
      let totalBatchesProcessed := metrics.totalBatchesProcessed + 1
      -- the count is taken after the increment, and once more for the mean
      let totalLatency := metrics.averageWriteLatency * totalBatchesProcessed
      { metrics with
        totalEventsProcessed := metrics.totalEventsProcessed + batchSize
        totalBatchesProcessed := totalBatchesProcessed
        averageWriteLatency := (totalLatency + duration) / (totalBatchesProcessed + 1)
        totalBytesWritten :=
          metrics.totalBytesWritten + (appendResult.map AppendResult.bytesWritten).getD 0 }
  | .error error =>
      { metrics with
        processingErrors := metrics.processingErrors + 1
        appendOnlyViolations :=
          if isAppendOnlyViolation kindText error then metrics.appendOnlyViolations + 1
          else metrics.appendOnlyViolations }

/-! ## The flush -/

/-- What the outside decides during one flush. -/
structure FlushEnv where
  call : CallEnv
  /-- From the start of the append to its return. -/
  duration : Nat
  /-- The clock when the next batch is created. -/
  now : Instant

/-- What a flush leaves behind. -/
structure Flushed where
  batch : EventBatch
  metrics : BatchMetrics
  db : RocksDb

section Flush

variable (C : Crates) (store : EventStore) (kindText : Bincode.ErrorKind → String)
  (config : BatchConfig)

/-- Use optimized append if configured. -/
def appendBatch (env : CallEnv) (events : List EventEnvelope) :
    StoreM (Option AppendResult) :=
  if config.useOptimizedAppend then do
    let appendResult ← store.appendEventsOptimized C env events
    pure (some appendResult)
  else do
    store.appendEvents C env events
    pure none

/-- Flush a batch to the event store. -/
def flushBatch (env : FlushEnv) (batch : EventBatch) (metrics : BatchMetrics) (db : RocksDb) :
    Flushed :=
  if batch.isEmpty then
    { batch := batch, metrics := metrics, db := db }
  else
    let outcome := (appendBatch C store config env.call batch.events).exec db
    { batch := EventBatch.new env.now
      metrics := metrics.record kindText batch.len env.duration outcome.1
      db := outcome.2 }

variable {C store}

theorem appendBatch_appends (env : CallEnv) {events : List EventEnvelope} (hSome : events ≠ []) :
    Appends C store env events
      (if config.useOptimizedAppend then optimizedSync store events
        else store.config.syncWrites)
      (appendBatch C store config env events) := by
  intro db
  by_cases hOptimized : config.useOptimizedAppend = true
  · rw [appendBatch, if_pos hOptimized, if_pos hOptimized]
    rcases appendEventsOptimized_appends C store env hSome db
      with ⟨batch, result, hAccepts, hExec⟩ | ⟨hNone, error, hExec⟩
    · exact Or.inl ⟨batch, some result, hAccepts, StoreM.exec_bind_ok hExec _⟩
    · exact Or.inr ⟨hNone, error, StoreM.exec_bind_error hExec _⟩
  · rw [appendBatch, if_neg hOptimized, if_neg hOptimized]
    rcases appendEvents_appends C store env hSome db
      with ⟨batch, result, hAccepts, hExec⟩ | ⟨hNone, error, hExec⟩
    · exact Or.inl ⟨batch, none, hAccepts, StoreM.exec_bind_ok hExec _⟩
    · exact Or.inr ⟨hNone, error, StoreM.exec_bind_error hExec _⟩

/-- A flush of something leaves a new batch. -/
theorem flushBatch_batch (env : FlushEnv) (batch : EventBatch) (metrics : BatchMetrics)
    (db : RocksDb) :
    (flushBatch C store kindText config env batch metrics db).batch.events = [] := by
  unfold flushBatch
  by_cases hEmpty : batch.isEmpty = true
  · rw [if_pos hEmpty]
    exact batch.isEmpty_iff.mp hEmpty
  · rw [if_neg hEmpty]
    rfl

/-- A flush leaves the database to the append. -/
theorem flushBatch_db (env : FlushEnv) {batch : EventBatch} (hSome : batch.events ≠ [])
    (metrics : BatchMetrics) (db : RocksDb) :
    (flushBatch C store kindText config env batch metrics db).db =
      ((appendBatch C store config env.call batch.events).exec db).2 := by
  have hNot : ¬ batch.isEmpty = true := fun hEmpty => hSome (batch.isEmpty_iff.mp hEmpty)
  rw [flushBatch, if_neg hNot]

end Flush

/-! ## What a failed flush loses -/

section Loss

variable (C : Crates) (store : EventStore) (kindText : Bincode.ErrorKind → String)
  (config : BatchConfig)

/-- The envelope is in the store: its key holds a value that reads back as an
equal envelope. -/
def IsStored (contents : Contents) (e : EventEnvelope) : Prop :=
  ∃ value, contents[generateEventKey e]? = some value ∧
    ∃ hs f, store.serializer.deserialize C hs value = .ok f ∧ f.PartialEq e

/-- **What a failed flush keeps**: after an append that fails every envelope of
the batch is in the store or still in the batch exactly when the batch was
empty, the store had no reason to refuse it, or all of it was stored already. -/
theorem flush_keeps_iff (env : FlushEnv) (batch : EventBatch) (metrics : BatchMetrics)
    (db : RocksDb) :
    let after := flushBatch C store kindText config env batch metrics db
    ((∃ error, ((appendBatch C store config env.call batch.events).exec db).1 = .error error) →
      ∀ e ∈ batch.events,
        IsStored C store after.db.contents e ∨ e ∈ after.batch.events) ↔
      batch.events = [] ∨ ¬ Refused C store env.call db.contents batch.events ∨
        ∀ e ∈ batch.events, IsStored C store db.contents e := by
  intro after
  by_cases hNil : batch.events = []
  · simp [hNil]
  · have hBatch : after.batch.events = [] :=
      flushBatch_batch kindText config env batch metrics db
    have hDb : after.db = _ := flushBatch_db kindText config env hNil metrics db
    rw [hDb, hBatch]
    have hAppends : Appends C store env.call batch.events _ _ :=
      appendBatch_appends config env.call hNil
    rcases hAppends db
      with ⟨puts, result, hAccepts, hExec⟩ | ⟨hNone, error, hExec⟩
    · apply iff_of_true
      · rintro ⟨error, hError⟩
        rw [hExec] at hError
        cases hError
      · refine Or.inr (Or.inl ?_)
        rw [refused_iff]
        exact fun hNone => hNone puts hAccepts
    · have hRefused := (refused_iff db.contents batch.events).mpr hNone
      rw [hExec]
      constructor
      · intro hKept
        refine Or.inr (Or.inr fun e he => ?_)
        rcases hKept ⟨error, rfl⟩ e he with hStored | hHeld
        · exact hStored
        · cases hHeld
      · rintro (hEmpty | hNot | hStored) - e he
        · exact absurd hEmpty hNil
        · exact absurd hRefused hNot
        · exact Or.inl (hStored e he)

end Loss

/-- One envelope of the batch is stored already: the other one is nowhere after
the flush, on either path. -/
theorem flush_one_duplicate :
    ¬ ∀ (config : BatchConfig) (env : FlushEnv) (batch : EventBatch) (metrics : BatchMetrics)
      (db : RocksDb),
      let after := flushBatch Crates.sample (new .default) (fun _ => "") config env batch
        metrics db
      (∃ error, ((appendBatch Crates.sample (new .default) config env.call
          batch.events).exec db).1 = .error error) →
        ∀ e ∈ batch.events,
          IsStored Crates.sample (new .default) after.db.contents e ∨ e ∈ after.batch.events := by
  intro hAlways
  let e := createTestEnvelope ⟨Uuid.fromU128 1⟩ ⟨Uuid.fromU128 1⟩ DateTime.epoch
  let f := createTestEnvelope ⟨Uuid.fromU128 2⟩ ⟨Uuid.fromU128 2⟩ DateTime.epoch
  let env : FlushEnv := ⟨.quiet, 0, 0⟩
  let batch : EventBatch := ⟨[e, f], 0⟩
  obtain ⟨h, hAcked, hReach, hHolds⟩ := exists_history Crates.sample_lz4Encodes (new .default)
    AnyCall (.appendEvent e) trivial (List.cons_ne_nil e []) (List.nodup_singleton _)
  obtain ⟨_, -, hTaken⟩ := hHolds e List.mem_cons_self
  have hFree : h.db.contents[generateEventKey f]? = none := by
    apply hReach.free
    rw [History.ackedEvents, hAcked]
    show generateEventKey f ∉ [generateEventKey e]
    decide
  have hRefused : Refused Crates.sample (new .default) env.call h.db.contents batch.events := by
    refine Or.inl ⟨e, List.mem_cons_self, ?_⟩
    rintro ⟨-, hNone⟩
    rw [hNone] at hTaken
    cases hTaken
  have hSome : batch.events ≠ [] := List.cons_ne_nil e [f]
  rcases appendBatch_appends .default env.call hSome h.db
    with ⟨puts, _, hAccepts, -⟩ | ⟨-, error, hExec⟩
  · exact (refused_iff _ _).mp hRefused puts hAccepts
  · let after := flushBatch Crates.sample (new .default) (fun _ => "") .default env batch
      .default h.db
    have hDb : after.db = _ := flushBatch_db _ _ env hSome _ _
    have hBatch : after.batch.events = [] := flushBatch_batch _ _ env batch _ _
    rw [hExec] at hDb
    rcases hAlways .default env batch .default h.db ⟨error, congrArg Prod.fst hExec⟩ f
      (List.mem_cons_of_mem e List.mem_cons_self) with ⟨value, hGet, -⟩ | hHeld
    · rw [show after.db.contents = h.db.contents from congrArg RocksDb.contents hDb, hFree]
        at hGet
      cases hGet
    · rw [hBatch] at hHeld
      cases hHeld

end LedgerFS.Batch
