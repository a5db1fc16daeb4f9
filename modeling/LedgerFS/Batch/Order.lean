import LedgerFS.Batch.Accounting
import LedgerFS.Batch.WritePaths
import LedgerFS.EventStore.Durability

/-!
# Order and crashes

The channel is a queue, so one worker takes the events in the order in which they were
accepted.  The store therefore holds a prefix of what was accepted, at every moment and
after a crash at any moment (`oneWorker_stores_prefix`); with several workers, whole
batches may overtake each other.

A crash loses what was flushed without sync.  With `sync_writes` on, and batches too
small for the optimized append to turn it off, there is no such thing, whatever
fails and whenever it is shut down (`flushed_survives`).
-/

namespace LedgerFS.Batch

open LedgerFS.Core
open LedgerFS.Library
open LedgerFS.EventStore

/-- The flag under which a batch is written. -/
def flushSync (store : EventStore) (config : BatchConfig) (events : List EventEnvelope) : Bool :=
  if config.useOptimizedAppend then optimizedSync store events else store.config.syncWrites

/-- An append writes one batch or nothing. -/
theorem appendBatch_db {C : Crates} {store : EventStore} (config : BatchConfig) (env : CallEnv)
    (events : List EventEnvelope) (db : RocksDb) :
    ((appendBatch C store config env events).exec db).2 = db ∨
      ∃ batch, ((appendBatch C store config env events).exec db).2 =
        db.write batch (flushSync store config events) := by
  by_cases hNil : events = []
  · subst hNil
    left
    unfold appendBatch
    split <;> rfl
  · have hAppends : Appends C store env events (flushSync store config events) _ :=
      appendBatch_appends config env hNil
    rcases hAppends db with ⟨batch, result, -, hExec⟩ | ⟨-, error, hExec⟩
    · rw [hExec]
      exact Or.inr ⟨batch, rfl⟩
    · rw [hExec]
      exact Or.inl rfl

section Order

variable {n : Nat} {C : Crates} {store : EventStore} {kindText : Bincode.ErrorKind → String}
  {config : BatchConfig} {p q : Processor n}

/-- What an action does to the envelopes, as a step of the queue. -/
theorem Step.view_cases {action : Action n} (hStep : Step C store kindText config action p q)
    (done : List EventEnvelope) :
    ∃ done', view q done' = view p done ∨ (view p done).Step (view q done') := by
  rcases hStep.effect done with ⟨_, _, _, _, hMove⟩ | ⟨_, _, _, batch, _, _, _, _, _, hMove⟩ |
    ⟨_, _, hMove⟩
  · exact ⟨done, Or.inr hMove⟩
  · exact ⟨done ++ batch.events, Or.inr hMove⟩
  · exact ⟨done, hMove⟩

/-- The database changes by the write of a flush, if at all. -/
theorem Step.db_cases {action : Action n} (hStep : Step C store kindText config action p q) :
    q.db = p.db ∨ ∃ batch sync, q.db = p.db.write batch sync := by
  rcases hStep.effect [] with ⟨_, _, _, hDb, _⟩ |
    ⟨i, env, duration, batch, leaves, _, _, _, hDb, _⟩ | ⟨_, hDb, _⟩
  · exact Or.inl hDb
  · rw [hDb]
    rcases appendBatch_db config env batch.events p.db with hSame | ⟨puts, hWritten⟩
    · exact Or.inl hSame
    · exact Or.inr ⟨puts, _, hWritten⟩
  · exact Or.inl hDb

end Order

/-! ## One worker -/

section OneWorker

variable (C : Crates) (store : EventStore)

/-- How many of the accepted events the worker has flushed. -/
def flushedCount (p : Processor 1) : Nat := (view p []).finishedCount 0

/-- With one worker the store holds a prefix, and so does every state a crash may
leave. -/
structure Prefixed (base : Contents) (p : Processor 1) : Prop where
  conserved : ∃ done, Conserved C store base p done
  inOrder : (view p []).InOrder 0
  kept : p.db.Kept applyBatch fun contents =>
    ∃ number ≤ flushedCount p, HoldsJust C store base (p.accepted.take number) contents

variable {C store} {kindText : Bincode.ErrorKind → String} {config : BatchConfig}
  {base : Contents} {p q : Processor 1}

/-- What is done is what came before the batch and the channel. -/
theorem Conserved.holdsJust {done : List EventEnvelope} (h : Conserved C store base p done)
    (hOrder : (view p []).InOrder 0) :
    HoldsJust C store base (p.accepted.take (flushedCount p)) p.db.contents := by
  have hPerm : done.Perm (p.accepted.take (flushedCount p)) :=
    h.conserves.done_perm (i := 0) hOrder
  exact HoldsJust.perm h.contents hPerm

/-- What a worker has flushed stays flushed. -/
theorem Step.inOrder {action : Action 1} (hStep : Step C store kindText config action p q)
    (h : (view p []).InOrder 0) :
    (view q []).InOrder 0 ∧ flushedCount p ≤ flushedCount q ∧ p.accepted <+: q.accepted := by
  obtain ⟨done', hSame | hMove⟩ := hStep.view_cases []
  · have hOrder : (view q done').InOrder 0 := hSame ▸ h
    have hCount : (view q done').finishedCount 0 = (view p []).finishedCount 0 := by rw [hSame]
    have hAccepted : (view p []).accepted = (view q done').accepted := by rw [hSame]
    exact ⟨hOrder, hCount.ge, ⟨[], (List.append_nil _).trans hAccepted⟩⟩
  · exact ⟨hMove.inOrder h, hMove.finishedCount_le, hMove.accepted_prefix⟩

/-- **Step**: a flush moves on to a longer prefix. -/
theorem Prefixed.step (hEncodes : C.Lz4Encodes) (h : Prefixed C store base p)
    {action : Action 1} (hQuiet : Quiet base p action)
    (hStep : Step C store kindText config action p q) : Prefixed C store base q := by
  obtain ⟨done, hConserved⟩ := h.conserved
  obtain ⟨done', hNext⟩ := hConserved.step hEncodes hQuiet hStep
  obtain ⟨hOrder, hCount, hPrefix⟩ := hStep.inOrder h.inOrder
  refine ⟨⟨done', hNext⟩, hOrder, ?_⟩
  have hKept : p.db.Kept applyBatch fun contents =>
      ∃ number ≤ flushedCount q, HoldsJust C store base (q.accepted.take number) contents := by
    intro m hDurable hLen
    obtain ⟨number, hNumber, hHolds⟩ := h.kept m hDurable hLen
    refine ⟨number, hNumber.trans hCount, ?_⟩
    obtain ⟨more, hMore⟩ := hPrefix
    have hFew : number ≤ p.accepted.length :=
      hNumber.trans (WorkQueue.finishedCount_le (view p []) 0)
    rw [← hMore, List.take_append_of_le_length hFew]
    exact hHolds
  rcases hStep.db_cases with hSame | ⟨batch, sync, hWritten⟩
  · rw [hSame]
    exact hKept
  · have hLast : ∃ number ≤ flushedCount q,
        HoldsJust C store base (q.accepted.take number) q.db.contents :=
      ⟨_, Nat.le_refl _, hNext.holdsJust hOrder⟩
    rw [hWritten] at hLast ⊢
    rw [RocksDb.contents_write] at hLast
    exact hKept.write (fun _ => hLast) sync

variable (C store) in
theorem prefixed_start (base : Contents) (now : Instant) :
    Prefixed C store base (.start (.opened base) now) where
  conserved := ⟨[], conserved_start C store (.opened base) now⟩
  inOrder := WorkQueue.inOrder_empty 0
  kept := by
    intro m hDurable hLen
    obtain rfl : m = 0 := Nat.le_zero.mp hLen
    exact ⟨0, Nat.zero_le _, holdsJust_nil C store base⟩

theorem Prefixed.run (hEncodes : C.Lz4Encodes) (h : Prefixed C store base p)
    (hRun : Run C store kindText config (Quiet base) p q) : Prefixed C store base q := by
  induction hRun with
  | refl => exact h
  | tail _ hStep ih =>
      obtain ⟨action, hQuiet, hStep⟩ := hStep
      exact ih.step hEncodes hQuiet hStep

end OneWorker

/-- **One worker stores a prefix**: in every run without faults and shutdown, what is
not in its batch or in the channel is the beginning of what was accepted, and the
store has just the records of these events besides those it was opened on.  A crash
at any moment leaves such a beginning again, none of whose events came after one
that is lost. -/
theorem oneWorker_stores_prefix (C : Crates) (hEncodes : C.Lz4Encodes) (store : EventStore)
    (kindText : Bincode.ErrorKind → String) (config : BatchConfig) (base : Contents)
    (now : Instant) (p : Processor 1)
    (hRun : Run C store kindText config (Quiet base) (.start (.opened base) now) p) :
    p.accepted.drop (flushedCount p) = (p.workers 0).held ++ p.channel ∧
      HoldsJust C store base (p.accepted.take (flushedCount p)) p.db.contents ∧
      ∀ db : RocksDb, p.db.Crash applyBatch db →
        ∃ number ≤ flushedCount p,
          HoldsJust C store base (p.accepted.take number) db.contents := by
  have hInv := (prefixed_start C store base now).run hEncodes hRun
  obtain ⟨done, hConserved⟩ := hInv.conserved
  exact ⟨hInv.inOrder.drop_eq, hConserved.holdsJust hInv.inOrder,
    WriteLog.kept_iff_crash.mp hInv.kept⟩

/-- After the run of one event the store has its record, and a crash may take it. -/
theorem oneEvent_prefix :
    ∃ p : Processor 1,
      Run Crates.sample (new .default) (fun _ => "") oneWorker (Quiet ∅)
        (.start (.opened ∅) 0) p ∧
      HoldsJust Crates.sample (new .default) ∅ [oneEvent] p.db.contents ∧
      ∀ db : RocksDb, p.db.Crash applyBatch db →
        ∃ number ≤ 1, HoldsJust Crates.sample (new .default) ∅ ([oneEvent].take number)
          db.contents := by
  obtain ⟨p, hRun, hAccepted, hChannel, -, -, hWorker⟩ :=
    exists_oneEvent_run (new .default) oneWorker (by decide) (by decide)
  obtain ⟨-, hHolds, hCrash⟩ := oneWorker_stores_prefix Crates.sample Crates.sample_lz4Encodes
    (new .default) (fun _ => "") oneWorker ∅ 0 p hRun
  have hCount : flushedCount p = 1 := by
    show p.accepted.length - ((p.workers 0).held ++ p.channel).length = 1
    rw [hAccepted, hChannel, hWorker]
    rfl
  rw [hAccepted, hCount] at hHolds hCrash
  exact ⟨p, hRun, hHolds, hCrash⟩

/-! ## Synchronous flushes -/

section Synchronous

variable {n : Nat} {C : Crates} {store : EventStore} {kindText : Bincode.ErrorKind → String}
  {config : BatchConfig} {p q : Processor n}

/-- Every flush of this processor is synchronous. -/
def SyncFlushes (store : EventStore) (config : BatchConfig) : Prop :=
  store.config.syncWrites = true ∧ (config.useOptimizedAppend = true → config.maxBatchSize ≤ 100)

theorem flushSync_of_syncFlushes (h : SyncFlushes store config) {events : List EventEnvelope}
    (hSize : events.length ≤ max 1 config.maxBatchSize) :
    flushSync store config events = true := by
  obtain ⟨hSync, hSmall⟩ := h
  unfold flushSync
  by_cases hOptimized : config.useOptimizedAppend = true
  · have hFew := hSmall hOptimized
    rw [if_pos hOptimized, optimizedSync, if_neg (by omega)]
    exact hSync
  · rw [if_neg hOptimized]
    exact hSync

/-- Everything that was written is on disk. -/
def AllDurable (db : RocksDb) : Prop := db.durable = db.writes.length

theorem AllDurable.crash {db db' : RocksDb} (h : AllDurable db) (hCrash : db.Crash applyBatch db') :
    db'.contents = db.contents := by
  obtain ⟨m, hDurable, hLen, rfl⟩ := hCrash
  obtain rfl : m = db.writes.length := Nat.le_antisymm hLen (h ▸ hDurable)
  exact WriteLog.stateAt_length applyBatch db

theorem allDurable_write (db : RocksDb) (batch : WriteBatch) :
    AllDurable (db.write batch true) := by
  simp [AllDurable, WriteLog.write]

theorem AllDurable.step (hFlushes : SyncFlushes store config) (hBounded : Bounded config p)
    (h : AllDurable p.db) {action : Action n}
    (hStep : Step C store kindText config action p q) : AllDurable q.db := by
  rcases hStep.effect [] with ⟨_, _, _, hDb, _⟩ |
    ⟨i, env, duration, batch, leaves, _, hHere, _, hDb, _⟩ | ⟨_, hDb, _⟩
  · exact hDb ▸ h
  · have hSized := hBounded.sized i
    rw [hHere] at hSized
    have hFlag := flushSync_of_syncFlushes hFlushes hSized.2
    rw [hDb]
    rcases appendBatch_db (C := C) config env batch.events p.db with hSame | ⟨puts, hWritten⟩
    · rw [hSame]
      exact h
    · rw [hWritten, hFlag]
      exact allDurable_write p.db puts
  · exact hDb ▸ h

end Synchronous

/-- **What was flushed survives**: with `sync_writes` on, and batches of a hundred at
most where the optimized append is used, a crash at any moment of any run, with
whatever faults and shutdowns, leaves the store as it is. -/
theorem flushed_survives (C : Crates) (store : EventStore)
    (kindText : Bincode.ErrorKind → String) (config : BatchConfig)
    (hFlushes : SyncFlushes store config) (n : Nat) (base : Contents) (now : Instant)
    (p : Processor n)
    (hRun : Run C store kindText config (fun _ _ => True) (.start (.opened base) now) p)
    (db : RocksDb) (hCrash : p.db.Crash applyBatch db) : db.contents = p.db.contents := by
  have hInv : Bounded config p ∧ AllDurable p.db := by
    clear hCrash
    induction hRun with
    | refl => exact ⟨bounded_start config _ now, rfl⟩
    | tail _ hStep ih =>
        obtain ⟨hBounded, hDurable⟩ := ih
        obtain ⟨action, -, hStep⟩ := hStep
        exact ⟨hBounded.step hStep, hDurable.step hFlushes hBounded hStep⟩
  exact hInv.2.crash hCrash

/-- The event of a durable store survives. -/
theorem oneEvent_survives :
    let store := new (EventStoreConfig.highDurability .default)
    ∃ p : Processor 1,
      Run Crates.sample store (fun _ => "") oneWorker (fun _ _ => True) (.start (.opened ∅) 0) p ∧
      p.accepted = [oneEvent] ∧
      ∀ db : RocksDb, p.db.Crash applyBatch db → db.contents = p.db.contents := by
  intro store
  obtain ⟨p, hRun, hAccepted, -⟩ := exists_oneEvent_run store oneWorker (by decide) (by decide)
  have hAny : Run Crates.sample store (fun _ => "") oneWorker (fun _ _ => True)
      (.start (.opened ∅) 0) p := hRun.mono fun _ _ _ => trivial
  have hFlushes : SyncFlushes store oneWorker := ⟨rfl, fun _ => by decide⟩
  exact ⟨p, hAny, hAccepted, flushed_survives Crates.sample store (fun _ => "") oneWorker hFlushes
    1 ∅ 0 p hAny⟩

end LedgerFS.Batch
