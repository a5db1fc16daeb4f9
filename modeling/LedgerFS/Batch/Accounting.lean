import LedgerFS.Batch.Conservation
import LedgerFS.EventStore.BytesWritten

/-!
# What the processor holds and what it counts

The processor never holds more than its settings allow: the channel keeps to the
buffer size and a batch to the batch size (`Bounded`).  An event that was accepted is
there, with a worker, or in one of the batches that the counters know of: those that
were processed and those that were refused (`processor_accounts`).  This needs no
condition on the run: appends may fail and `shutdown()` may come.

The counters tell the truth about the database as long as no key is sent twice:
the events processed are the records added, and the bytes written are theirs
(`counters_match_database`).
-/

namespace LedgerFS.Batch

open LedgerFS.Core
open LedgerFS.Library
open LedgerFS.EventStore

/-! ## Weights -/

namespace Worker

/-- The envelopes a worker has taken that no counter knows of yet. -/
def carried : Worker → List EventEnvelope
  | .selecting batch _ => batch.events
  | .flushing batch _ => batch.events
  | .flushed batch _ _ _ => batch.events
  | _ => []

/-- How many records a worker has added that no counter knows of yet. -/
def written : Worker → Nat
  | .flushed batch (.ok _) _ _ => batch.len
  | _ => 0

/-- The bytes of these records, as the store reported them. -/
def writtenBytes : Worker → Nat
  | .flushed _ (.ok appendResult) _ _ => (appendResult.map AppendResult.bytesWritten).getD 0
  | _ => 0

/-- A batch at the select has room, and one that is flushed has something in it. -/
def Sized (size : Nat) : Worker → Prop
  | .selecting batch _ => batch.len < size
  | .flushing batch _ => 0 < batch.len ∧ batch.len ≤ size
  | .flushed batch _ _ _ => 0 < batch.len ∧ batch.len ≤ size
  | _ => True

section

variable (config : BatchConfig) (now : Instant) (batch : EventBatch)

theorem len_pos_of_not_isEmpty {batch : EventBatch} (h : ¬ batch.isEmpty = true) :
    0 < batch.len := by
  rw [EventBatch.len, List.length_pos_iff]
  exact fun hNil => h (batch.isEmpty_iff.mpr hNil)

@[simp] theorem carried_onReceive (envelope : EventEnvelope) :
    (onReceive config batch envelope).carried = batch.events ++ [envelope] := by
  unfold onReceive
  split <;> rfl

@[simp] theorem carried_onClosed : (onClosed batch).carried = batch.events := by
  unfold onClosed
  split
  · exact (batch.isEmpty_iff.mp ‹_›).symm
  · rfl

@[simp] theorem carried_onShutdown : (onShutdown batch).carried = batch.events :=
  carried_onClosed batch

@[simp] theorem carried_onTick : (onTick config now batch).carried = batch.events := by
  unfold onTick
  split <;> rfl

@[simp] theorem carried_onFlushed (leaves : Bool) : (onFlushed now leaves).carried = [] := by
  cases leaves <;> rfl

@[simp] theorem carried_notify (w : Worker) : w.notify.carried = w.carried := by
  cases w <;> rfl

theorem report_onReceive (envelope : EventEnvelope) :
    (onReceive config batch envelope).written = 0 ∧
      (onReceive config batch envelope).writtenBytes = 0 := by
  unfold onReceive
  split <;> exact ⟨rfl, rfl⟩

theorem report_onClosed : (onClosed batch).written = 0 ∧ (onClosed batch).writtenBytes = 0 := by
  unfold onClosed
  split <;> exact ⟨rfl, rfl⟩

theorem report_onTick :
    (onTick config now batch).written = 0 ∧ (onTick config now batch).writtenBytes = 0 := by
  unfold onTick
  split <;> exact ⟨rfl, rfl⟩

theorem report_onFlushed (leaves : Bool) :
    (onFlushed now leaves).written = 0 ∧ (onFlushed now leaves).writtenBytes = 0 := by
  cases leaves <;> exact ⟨rfl, rfl⟩

theorem report_notify (w : Worker) :
    w.notify.written = w.written ∧ w.notify.writtenBytes = w.writtenBytes := by
  cases w <;> exact ⟨rfl, rfl⟩

variable {config batch} {size : Nat}

theorem sized_onReceive (hSize : size = max 1 config.maxBatchSize) (h : batch.len < size)
    (envelope : EventEnvelope) : (onReceive config batch envelope).Sized size := by
  have hLen : (batch.addEvent envelope).len = batch.len + 1 := by simp [EventBatch.len]
  unfold onReceive
  by_cases hFull : (batch.addEvent envelope).isFull config.maxBatchSize = true
  · rw [if_pos hFull]
    exact ⟨by omega, by omega⟩
  · rw [if_neg hFull]
    have hRoom : (batch.addEvent envelope).len < config.maxBatchSize := by
      simpa [EventBatch.isFull, EventBatch.len] using hFull
    show (batch.addEvent envelope).len < size
    omega

theorem sized_onClosed (h : batch.len < size) : (onClosed batch).Sized size := by
  unfold onClosed
  split
  · trivial
  · exact ⟨len_pos_of_not_isEmpty ‹_›, h.le⟩

theorem sized_onShutdown (h : batch.len < size) : (onShutdown batch).Sized size :=
  sized_onClosed h

theorem sized_onTick (h : batch.len < size) : (onTick config now batch).Sized size := by
  unfold onTick
  split
  · have hSome : ¬ batch.isEmpty = true := by
      simp_all
    exact ⟨len_pos_of_not_isEmpty hSome, h.le⟩
  · exact h

theorem sized_onFlushed (hSize : 0 < size) (leaves : Bool) :
    (onFlushed now leaves).Sized size := by
  cases leaves
  · exact hSize
  · trivial

theorem sized_notify {w : Worker} (h : w.Sized size) : w.notify.Sized size := by
  cases w <;> exact h

/-- A worker of a bounded processor has a batch at most. -/
theorem Sized.length_carried_le {w : Worker} (h : w.Sized size) : w.carried.length ≤ size := by
  cases w with
  | selecting batch signalled => exact Nat.le_of_lt h
  | flushing batch leaves => exact h.2
  | flushed batch result duration leaves => exact h.2
  | starting => exact Nat.zero_le size
  | left => exact Nat.zero_le size

end

end Worker

namespace Processor

variable {n : Nat}

/-- The workers together. -/
def total (p : Processor n) (weight : Worker → Nat) : Nat := ∑ i, weight (p.workers i)

/-- One worker moves on: the total changes by the difference. -/
theorem total_set (p : Processor n) (i : Fin n) (w : Worker) (weight : Worker → Nat) :
    (p.set i w).total weight + weight (p.workers i) = p.total weight + weight w := by
  have hOthers : ∀ j ∈ Finset.univ.erase i,
      weight ((p.set i w).workers j) = weight (p.workers j) := by
    intro j hj
    rw [set_workers, if_neg (Finset.ne_of_mem_erase hj)]
  rw [total, total, ← Finset.add_sum_erase Finset.univ _ (Finset.mem_univ i),
    ← Finset.add_sum_erase Finset.univ (fun j => weight (p.workers j)) (Finset.mem_univ i),
    Finset.sum_congr rfl hOthers, set_workers, if_pos rfl]
  omega

theorem total_start (db : RocksDb) (now : Instant) {weight : Worker → Nat}
    (hZero : weight .starting = 0) : (start db now : Processor n).total weight = 0 :=
  Finset.sum_eq_zero fun _ _ => hZero

end Processor

/-! ## Nothing holds too much -/

section Bounds

variable {n : Nat}

/-- The channel keeps to the buffer size and the batches to the batch size. -/
structure Bounded (config : BatchConfig) (p : Processor n) : Prop where
  room : p.channel.length ≤ config.bufferSize
  sized : ∀ i, (p.workers i).Sized (max 1 config.maxBatchSize)

variable {config : BatchConfig} {p q : Processor n}

theorem bounded_start (config : BatchConfig) (db : RocksDb) (now : Instant) :
    Bounded config (.start db now : Processor n) where
  room := Nat.zero_le _
  sized _ := trivial

/-- One worker moves on. -/
theorem Bounded.set (h : Bounded config p) {i : Fin n} {w : Worker}
    (hSized : w.Sized (max 1 config.maxBatchSize)) : Bounded config (p.set i w) where
  room := h.room
  sized j := by
    rw [Processor.set_workers]
    split
    · exact hSized
    · exact h.sized j

variable {C : Crates} {store : EventStore} {kindText : Bincode.ErrorKind → String}

/-- **Step**. -/
theorem Bounded.step (h : Bounded config p) {action : Action n}
    (hStep : Step C store kindText config action p q) : Bounded config q := by
  have hRelease (i : Fin n) : Bounded config (p.release i) := { h with }
  have hSelecting {i : Fin n} {batch : EventBatch} {signalled : Bool}
      (hHere : p.workers i = .selecting batch signalled) :
      batch.len < max 1 config.maxBatchSize := by
    have hSized := h.sized i
    rw [hHere] at hSized
    exact hSized
  cases hStep with
  | send envelope hSender hOpen hRoom =>
      refine { h with room := ?_ }
      show (p.channel ++ [envelope]).length ≤ config.bufferSize
      rw [List.length_append]
      exact hRoom
  | cloneSender | dropSender | wait | lock => exact { h with }
  | enter hHere => exact h.set (show 0 < _ by omega)
  | @receive _ i batch signalled envelope rest hHere hLock hFront =>
      have hRoom := h.room
      rw [hFront, List.length_cons] at hRoom
      have hSized := Worker.sized_onReceive rfl (hSelecting hHere) envelope
      have hSet := (hRelease i).set (i := i) hSized
      exact { hSet with room := Nat.le_of_succ_le hRoom }
  | closed hHere => exact (hRelease _).set (Worker.sized_onClosed (hSelecting hHere))
  | tick hHere => exact (hRelease _).set (Worker.sized_onTick _ (hSelecting hHere))
  | signal hHere => exact (hRelease _).set (Worker.sized_onShutdown (hSelecting hHere))
  | @append _ i batch leaves env duration hHere result db hExec =>
      have hSized := h.sized i
      rw [hHere] at hSized
      have hSet := h.set (i := i) (w := .flushed batch result duration leaves) hSized
      exact { hSet with }
  | @reset _ i batch result duration leaves hHere =>
      have hSet := h.set (i := i) (Worker.sized_onFlushed p.now (by omega) leaves)
      exact { hSet with }
  | shutdown => exact { h with sized := fun i => Worker.sized_notify (h.sized i) }

/-- The workers together carry no more than a batch each. -/
theorem Bounded.length_carried_le (h : Bounded config p) :
    ((List.finRange n).flatMap fun i => (p.workers i).carried).length ≤
      n * max 1 config.maxBatchSize := by
  have hEach : ∀ length ∈ (List.finRange n).map fun i => (p.workers i).carried.length,
      length ≤ max 1 config.maxBatchSize := by
    intro length hMem
    obtain ⟨i, -, rfl⟩ := List.mem_map.mp hMem
    exact (h.sized i).length_carried_le
  have hSum := List.sum_le_card_nsmul _ _ hEach
  rwa [List.length_map, List.length_finRange, smul_eq_mul, ← List.length_flatMap] at hSum

end Bounds

/-! ## Every accepted event is accounted for -/

section Accounts

variable {n : Nat}

/-- The envelopes of a processor, with those that some counter knows of. -/
abbrev books (p : Processor n) (counted : List EventEnvelope) : WorkQueue (Fin n) EventEnvelope :=
  viewOf Worker.carried p counted

variable {C : Crates} {store : EventStore} {kindText : Bincode.ErrorKind → String}
  {config : BatchConfig} {action : Action n} {p q : Processor n}

/-- **What an action does** to the books: a reset counts a batch, and every other action leaves
the counters alone. -/
theorem Step.counts (hStep : Step C store kindText config action p q)
    (counted : List EventEnvelope) :
    (∃ i batch result duration leaves, p.workers i = .flushed batch result duration leaves ∧
        q.metrics = p.metrics.record kindText batch.len duration result ∧
        (books p counted).Step (books q (counted ++ batch.events))) ∨
      (q.metrics = p.metrics ∧
        (books q counted = books p counted ∨ (books p counted).Step (books q counted))) := by
  cases hStep with
  | send envelope hSender hOpen hRoom =>
      exact Or.inr ⟨rfl, Or.inr (WorkQueue.Step.submit (books p counted) envelope)⟩
  | cloneSender | dropSender | wait | lock => exact Or.inr ⟨rfl, Or.inl rfl⟩
  | enter hHere =>
      refine Or.inr ⟨rfl, Or.inl (viewOf_set _ p counted ?_)⟩
      rw [hHere]
      rfl
  | receive hHere hLock hFront =>
      refine Or.inr ⟨rfl, Or.inr (viewOf_take _ p counted hFront ?_)⟩
      rw [Worker.carried_onReceive, hHere]
      rfl
  | closed hHere hLock hEmpty hClosed =>
      refine Or.inr ⟨rfl, Or.inl (viewOf_set _ (p.release _) counted ?_)⟩
      rw [Worker.carried_onClosed, Processor.release_workers, hHere]
      rfl
  | tick hHere =>
      refine Or.inr ⟨rfl, Or.inl (viewOf_set _ (p.release _) counted ?_)⟩
      rw [Worker.carried_onTick, Processor.release_workers, hHere]
      rfl
  | signal hHere =>
      refine Or.inr ⟨rfl, Or.inl (viewOf_set _ (p.release _) counted ?_)⟩
      rw [Worker.carried_onShutdown, Processor.release_workers, hHere]
      rfl
  | @append _ i batch leaves env duration hHere result db hExec =>
      have hSame : (Worker.flushed batch result duration leaves).carried =
          (p.workers i).carried := by
        rw [hHere]
        rfl
      exact Or.inr ⟨rfl, Or.inl (viewOf_set _ p counted hSame)⟩
  | @reset _ i batch result duration leaves hHere =>
      have hFinish := viewOf_finish Worker.carried p counted (i := i)
        (Worker.carried_onFlushed p.now leaves)
      rw [hHere] at hFinish
      exact Or.inl ⟨i, batch, result, duration, leaves, hHere, rfl, hFinish⟩
  | shutdown =>
      refine Or.inr ⟨rfl, Or.inl ?_⟩
      unfold books viewOf Processor.shutdown
      simp only [Worker.carried_notify]

/-- The books of a processor: what was accepted is queued, carried by a worker, or in one of the
batches that the counters know of.  A refused one is kept with its error. -/
structure Accounted (config : BatchConfig) (kindText : Bincode.ErrorKind → String)
    (p : Processor n) (processed : List (List EventEnvelope))
    (refused : List (List EventEnvelope × EventStoreError)) : Prop where
  bounded : Bounded config p
  conserves : (books p (processed.flatten ++ (refused.map Prod.fst).flatten)).Conserves
  batches : processed.length = p.metrics.totalBatchesProcessed
  events : processed.flatten.length = p.metrics.totalEventsProcessed
  errors : refused.length = p.metrics.processingErrors
  violations : refused.countP (fun refusal => isAppendOnlyViolation kindText refusal.2) =
    p.metrics.appendOnlyViolations
  fits : ∀ batch ∈ processed ++ refused.map Prod.fst,
    0 < batch.length ∧ batch.length ≤ max 1 config.maxBatchSize

variable {processed : List (List EventEnvelope)}
  {refused : List (List EventEnvelope × EventStoreError)}

theorem accounted_start (config : BatchConfig) (kindText : Bincode.ErrorKind → String)
    (db : RocksDb) (now : Instant) :
    Accounted config kindText (.start db now : Processor n) [] [] where
  bounded := bounded_start config db now
  conserves := WorkQueue.conserves_empty
  batches := rfl
  events := rfl
  errors := rfl
  violations := rfl
  fits _ hBatch := absurd hBatch List.not_mem_nil

section Entries

variable {batch : EventBatch} {duration : Nat}
  (h : Accounted config kindText p processed refused) (hBounded : Bounded config q)
  (hConserves : (books q
    (processed.flatten ++ (refused.map Prod.fst).flatten ++ batch.events)).Conserves)
  (hFits : 0 < batch.events.length ∧ batch.events.length ≤ max 1 config.maxBatchSize)

include h hBounded hConserves hFits

/-- A processed batch is entered. -/
theorem Accounted.process {appendResult : Option AppendResult}
    (hMetrics : q.metrics = p.metrics.record kindText batch.len duration (.ok appendResult)) :
    Accounted config kindText q (processed ++ [batch.events]) refused where
  bounded := hBounded
  conserves := by
    apply hConserves.perm
    rw [List.flatten_concat, List.append_assoc, List.append_assoc]
    exact List.perm_append_comm.append_left _
  batches := by
    rw [hMetrics, List.length_append, h.batches]
    rfl
  events := by
    rw [hMetrics, List.flatten_concat, List.length_append, h.events]
    rfl
  errors := by
    rw [hMetrics]
    exact h.errors
  violations := by
    rw [hMetrics]
    exact h.violations
  fits := by
    intro events hEvents
    rw [List.append_assoc, List.mem_append, List.singleton_append, List.mem_cons] at hEvents
    rcases hEvents with hOld | rfl | hOld
    · exact h.fits _ (List.mem_append_left _ hOld)
    · exact hFits
    · exact h.fits _ (List.mem_append_right _ hOld)

/-- A refused batch is entered, with its error. -/
theorem Accounted.refuse {error : EventStoreError}
    (hMetrics : q.metrics = p.metrics.record kindText batch.len duration (.error error)) :
    Accounted config kindText q processed (refused ++ [(batch.events, error)]) where
  bounded := hBounded
  conserves := by
    rw [List.map_append, List.map_singleton, List.flatten_concat, ← List.append_assoc]
    exact hConserves
  batches := by
    rw [hMetrics]
    exact h.batches
  events := by
    rw [hMetrics]
    exact h.events
  errors := by
    rw [hMetrics, List.length_append, h.errors]
    rfl
  violations := by
    rw [hMetrics, List.countP_append, h.violations, List.countP_singleton]
    show _ = if isAppendOnlyViolation kindText error then _ else _
    split <;> rfl
  fits := by
    intro events hEvents
    rw [List.map_append, List.map_singleton, ← List.append_assoc, List.mem_append,
      List.mem_singleton] at hEvents
    rcases hEvents with hOld | rfl
    · exact h.fits _ hOld
    · exact hFits

end Entries

/-- **Step**: whatever happens, the books stay right. -/
theorem Accounted.step (h : Accounted config kindText p processed refused)
    (hStep : Step C store kindText config action p q) :
    ∃ processed' refused', Accounted config kindText q processed' refused' := by
  have hBounded := h.bounded.step hStep
  rcases hStep.counts (processed.flatten ++ (refused.map Prod.fst).flatten)
    with ⟨i, batch, result, duration, leaves, hHere, hMetrics, hMove⟩ | ⟨hMetrics, hMove⟩
  · have hConserves := hMove.conserves h.conserves
    have hFits : 0 < batch.events.length ∧ batch.events.length ≤ max 1 config.maxBatchSize := by
      have hSized := h.bounded.sized i
      rw [hHere] at hSized
      exact hSized
    cases result with
    | ok appendResult => exact ⟨_, _, h.process hBounded hConserves hFits hMetrics⟩
    | error error => exact ⟨_, _, h.refuse hBounded hConserves hFits hMetrics⟩
  · have hConserves :
        (books q (processed.flatten ++ (refused.map Prod.fst).flatten)).Conserves := by
      rcases hMove with hSame | hMove
      · rw [hSame]
        exact h.conserves
      · exact hMove.conserves h.conserves
    exact ⟨processed, refused, hBounded, hConserves, hMetrics ▸ h.batches, hMetrics ▸ h.events,
      hMetrics ▸ h.errors, hMetrics ▸ h.violations, h.fits⟩

/-- **Run**. -/
theorem Accounted.run (h : Accounted config kindText p processed refused)
    {admits : Processor n → Action n → Prop} (hRun : Run C store kindText config admits p q) :
    ∃ processed' refused', Accounted config kindText q processed' refused' := by
  induction hRun with
  | refl => exact ⟨processed, refused, h⟩
  | tail _ hStep ih =>
      obtain ⟨processed', refused', hMid⟩ := ih
      obtain ⟨action, -, hStep⟩ := hStep
      exact hMid.step hStep

end Accounts

/-- **The books of the processor**: in every run, whatever fails and whenever it is
shut down, the channel keeps to the buffer size and every batch to the batch size, and
what was accepted is, event for event, what is queued, what the workers carry, and the
batches that the counters know of: as many processed ones with as many events as are
counted, and as many refused ones as there are errors, with as many violations among
them.  So what was accepted exceeds what is counted by no more than the buffer and one
batch for each worker. -/
theorem processor_accounts (C : Crates) (store : EventStore)
    (kindText : Bincode.ErrorKind → String) (config : BatchConfig) (n : Nat) (db : RocksDb)
    (now : Instant) (p : Processor n)
    (hRun : Run C store kindText config (fun _ _ => True) (.start db now) p) :
    let size := max 1 config.maxBatchSize
    p.channel.length ≤ config.bufferSize ∧ (∀ i, (p.workers i).Sized size) ∧
      ∃ (processed : List (List EventEnvelope))
        (refused : List (List EventEnvelope × EventStoreError)),
        p.accepted.Perm (p.channel ++ ((List.finRange n).flatMap fun i => (p.workers i).carried) ++
          (processed.flatten ++ (refused.map Prod.fst).flatten)) ∧
        processed.length = p.metrics.totalBatchesProcessed ∧
        processed.flatten.length = p.metrics.totalEventsProcessed ∧
        refused.length = p.metrics.processingErrors ∧
        refused.countP (fun refusal => isAppendOnlyViolation kindText refusal.2) =
          p.metrics.appendOnlyViolations ∧
        (∀ batch ∈ processed ++ refused.map Prod.fst, 0 < batch.length ∧ batch.length ≤ size) ∧
        p.accepted.length ≤ p.metrics.totalEventsProcessed +
          p.metrics.processingErrors * size + config.bufferSize + n * size := by
  intro size
  obtain ⟨processed, refused, h⟩ := (accounted_start config kindText db now).run hRun
  have hPerm : p.accepted.Perm (p.channel ++
      ((List.finRange n).flatMap fun i => (p.workers i).carried) ++
      (processed.flatten ++ (refused.map Prod.fst).flatten)) := h.conserves.perm_accepted
  have hRefused : (refused.map Prod.fst).flatten.length ≤ refused.length * size := by
    have hSum := List.sum_le_card_nsmul ((refused.map Prod.fst).map List.length) size
      fun length hMem => by
        obtain ⟨batch, hBatch, rfl⟩ := List.mem_map.mp hMem
        exact (h.fits batch (List.mem_append_right _ hBatch)).2
    rwa [← List.length_flatten, List.length_map, List.length_map, smul_eq_mul] at hSum
  refine ⟨h.bounded.room, h.bounded.sized, processed, refused, hPerm, h.batches, h.events,
    h.errors, h.violations, h.fits, ?_⟩
  have hRoom := h.bounded.room
  have hCarried : ((List.finRange n).flatMap fun i => (p.workers i).carried).length ≤ n * size :=
    h.bounded.length_carried_le
  rw [hPerm.length_eq, List.length_append, List.length_append, List.length_append, h.events]
  rw [h.errors] at hRefused
  omega

/-- The event of the runs below. -/
def oneEvent : EventEnvelope :=
  createTestEnvelope ⟨Uuid.fromU128 1⟩ ⟨Uuid.fromU128 2⟩ DateTime.epoch

/-- One event, sent, received and flushed. -/
theorem exists_oneEvent_run (store : EventStore) (config : BatchConfig)
    (hRoom : 0 < config.bufferSize) (hSize : config.maxBatchSize ≤ 1) :
    ∃ p : Processor 1,
      Run Crates.sample store (fun _ => "") config (Quiet RocksDb.empty.contents)
        (.start .empty 0) p ∧
      p.accepted = [oneEvent] ∧ p.channel = [] ∧ p.senders = 1 ∧ p.lock = none ∧
      p.workers 0 = .turn (EventBatch.new 0) := by
  have hStart : Run Crates.sample store (fun _ => "") config
      (Quiet RocksDb.empty.contents) (.start .empty 0 : Processor 1) (.start .empty 0) := .refl
  have hSent := (hStart.next (.enter (i := 0) rfl) trivial).next
    (.send oneEvent Nat.one_pos ⟨0, nofun⟩ hRoom) ⟨rfl, List.not_mem_nil⟩
  have hReceived := (hSent.next (.lock (i := 0) rfl rfl) trivial).next
    (.receive (i := 0) rfl rfl rfl) trivial
  have hFull : Worker.onReceive config (EventBatch.new 0) oneEvent =
      .flushing ⟨[oneEvent], 0⟩ false :=
    if_pos (by simpa [EventBatch.isFull] using hSize)
  obtain ⟨result, db, hExec⟩ : ∃ result db, (appendBatch Crates.sample store config
      .quiet [oneEvent]).exec .empty = (result, db) := ⟨_, _, rfl⟩
  have hFlushed := (hReceived.next (.append (i := 0) .quiet 0 hFull hExec)
    ⟨fun _ => rfl, rfl⟩).next (.reset (i := 0) rfl) trivial
  exact ⟨_, hFlushed, rfl, rfl, rfl, rfl, rfl⟩

/-- One event, sent twice: the first is stored, and the second is refused. -/
theorem oneEvent_accounted :
    ∃ p : Processor 1,
      Run Crates.sample (new .default) (fun _ => "") oneWorker (fun _ _ => True)
        (.start .empty 0) p ∧
      p.accepted = [oneEvent, oneEvent] ∧ p.metrics.totalEventsProcessed = 1 ∧
      ∃ (processed : List (List EventEnvelope))
        (refused : List (List EventEnvelope × EventStoreError)),
        [oneEvent, oneEvent].Perm (processed.flatten ++ (refused.map Prod.fst).flatten) ∧
        processed.length = 1 ∧ refused.length = 1 := by
  let store := new .default
  have hAppends : Appends Crates.sample store .quiet [oneEvent] _
      (appendBatch Crates.sample store oneWorker .quiet [oneEvent]) :=
    appendBatch_appends oneWorker .quiet (List.cons_ne_nil oneEvent [])
  obtain ⟨batch, appendResult, hAccepts, hExec⟩ := (hAppends .empty).resolve_right fun hNone => by
    obtain ⟨batch, hAccepts⟩ := exists_accepts Crates.sample store .quiet
      Crates.sample_lz4Encodes RocksDb.empty.contents [oneEvent] (fun _ _ => ⟨rfl, rfl⟩) rfl
    exact hNone.1 batch hAccepts
  -- the key is taken now
  obtain ⟨value, -, hTaken⟩ := hAccepts.holds (List.nodup_singleton _) List.mem_cons_self
  obtain ⟨-, error, hExec'⟩ := (hAppends _).resolve_left fun hSome => by
    obtain ⟨batch', _, hAccepts', -⟩ := hSome
    have hFree := (hAccepts'.free oneEvent List.mem_cons_self).2
    rw [RocksDb.contents_write, hTaken] at hFree
    cases hFree
  have hRoom (channel : List EventEnvelope) (hShort : channel.length < 2) :
      channel.length < oneWorker.bufferSize := hShort.trans (by decide)
  have hStart : Run Crates.sample store (fun _ => "") oneWorker (fun _ _ => True)
      (.start .empty 0 : Processor 1) (.start .empty 0) := .refl
  have hSent := ((hStart.next (.enter (i := 0) rfl) trivial).next
    (.send oneEvent Nat.one_pos ⟨0, nofun⟩ (hRoom _ (by decide))) trivial).next
    (.send oneEvent Nat.one_pos ⟨0, nofun⟩ (hRoom _ (by decide))) trivial
  have hFirst := (((hSent.next (.lock (i := 0) rfl rfl) trivial).next
    (.receive (i := 0) rfl rfl rfl) trivial).next (.append (i := 0) .quiet 0 rfl hExec)
    trivial).next (.reset (i := 0) rfl) trivial
  have hSecond := (((hFirst.next (.lock (i := 0) rfl rfl) trivial).next
    (.receive (i := 0) rfl rfl rfl) trivial).next (.append (i := 0) .quiet 0 rfl hExec')
    trivial).next (.reset (i := 0) rfl) trivial
  obtain ⟨-, -, processed, refused, hPerm, hBatches, -, hErrors, -⟩ := processor_accounts
    Crates.sample store (fun _ => "") oneWorker 1 .empty 0 _ hSecond
  exact ⟨_, hSecond, rfl, rfl, processed, refused, hPerm, hBatches, hErrors⟩

/-! ## The counters and the database -/

section Counters

variable {n : Nat}

/-- No key is sent twice. -/
def DistinctKeys (p : Processor n) : Action n → Prop
  | .send e => generateEventKey e ∉ p.accepted.map generateEventKey
  | _ => True

/-- The database has grown by what the counters know and what the workers are about
to report. -/
structure Tally (config : BatchConfig) (initial : Contents) (p : Processor n) : Prop where
  records : p.db.contents.size =
    initial.size + p.metrics.totalEventsProcessed + p.total Worker.written
  bytes : config.useOptimizedAppend = true →
    p.db.contents.byteSize =
      initial.byteSize + p.metrics.totalBytesWritten + p.total Worker.writtenBytes
  plain : config.useOptimizedAppend = false →
    p.metrics.totalBytesWritten = 0 ∧ p.total Worker.writtenBytes = 0

theorem tally_start (config : BatchConfig) (db : RocksDb) (now : Instant) :
    Tally config db.contents (.start db now : Processor n) where
  records := by
    rw [Processor.total_start db now rfl]
    rfl
  bytes := by
    intro _
    rw [Processor.total_start db now rfl]
    rfl
  plain := by
    intro _
    exact ⟨rfl, Processor.total_start db now rfl⟩

variable {C : Crates} {store : EventStore} {config : BatchConfig} {initial : Contents}
  {p q : Processor n} {done : List EventEnvelope}

/-- What the two paths report when they succeed. -/
theorem appendBatch_ok {env : CallEnv} {events : List EventEnvelope} {db db' : RocksDb}
    {appendResult : Option AppendResult}
    (h : (appendBatch C store config env events).exec db = (.ok appendResult, db')) :
    (config.useOptimizedAppend = true → ∃ result, appendResult = some result ∧
        (store.appendEventsOptimized C env events).exec db = (.ok result, db')) ∧
      (config.useOptimizedAppend = false → appendResult = none) := by
  constructor
  · intro hOptimized
    rw [appendBatch, if_pos hOptimized] at h
    obtain ⟨result, mid, hExec, hReturn⟩ := StoreM.exec_bind_eq_ok h
    cases hReturn
    exact ⟨result, rfl, hExec⟩
  · intro hPlain
    rw [appendBatch, if_neg (by simp [hPlain])] at h
    obtain ⟨_, mid, -, hReturn⟩ := StoreM.exec_bind_eq_ok h
    cases hReturn
    rfl

/-- **What an append adds** is what its worker will report. -/
theorem appendBatch_adds {env : CallEnv} {batch : EventBatch}
    (hKeys : (batch.events.map generateEventKey).Nodup) {db db' : RocksDb}
    {result : Except EventStoreError (Option AppendResult)} (duration : Nat) (leaves : Bool)
    (hExec : (appendBatch C store config env batch.events).exec db = (result, db')) :
    let after : Worker := .flushed batch result duration leaves
    (RocksDb.contents db').size = db.contents.size + after.written ∧
      (config.useOptimizedAppend = true →
        (RocksDb.contents db').byteSize = db.contents.byteSize + after.writtenBytes) ∧
      (config.useOptimizedAppend = false → after.writtenBytes = 0) := by
  intro after
  by_cases hNil : batch.events = []
  · have hLen : batch.len = 0 := by
      rw [EventBatch.len, hNil]
      rfl
    rw [hNil, appendBatch] at hExec
    have hSame : db.contents.size = db.contents.size + batch.len := by omega
    cases hFlag : config.useOptimizedAppend <;> rw [hFlag] at hExec <;> cases hExec <;>
      exact ⟨hSame, fun _ => rfl, fun _ => rfl⟩
  have hAppends : Appends C store env batch.events _ _ := appendBatch_appends config env hNil
  rcases hAppends db with ⟨puts, appendResult, hAccepts, hOk⟩ | ⟨-, error, hError⟩
  · obtain ⟨rfl, rfl⟩ := Prod.mk.inj (hOk.symm.trans hExec)
    obtain ⟨hOptimized, hPlain⟩ := appendBatch_ok hOk
    refine ⟨?_, ?_, ?_⟩
    · rw [RocksDb.contents_write, (size_applyBatch_eq_iff _ _).mpr, ← hAccepts.records.length_eq]
      · rfl
      · rw [keys_of_records hAccepts.records]
        refine ⟨hKeys, fun k hk => ?_⟩
        obtain ⟨e, he, rfl⟩ := List.mem_map.mp hk
        rw [← Std.ExtTreeMap.isSome_getElem?_iff_mem, (hAccepts.free e he).2]
        simp
    · intro hFlag
      obtain ⟨written, rfl, hWritten⟩ := hOptimized hFlag
      exact bytesWritten_of_accepted hKeys hWritten
    · intro hFlag
      obtain rfl := hPlain hFlag
      rfl
  · obtain ⟨rfl, rfl⟩ := Prod.mk.inj (hError.symm.trans hExec)
    exact ⟨rfl, fun _ => rfl, fun _ => rfl⟩

variable {kindText : Bincode.ErrorKind → String}

/-- A worker that reports no more and no less than before keeps the tally. -/
theorem Tally.set (h : Tally config initial p) {i : Fin n} {w : Worker}
    (hWritten : w.written = (p.workers i).written)
    (hBytes : w.writtenBytes = (p.workers i).writtenBytes) :
    Tally config initial (p.set i w) := by
  have hRecords := p.total_set i w Worker.written
  have hWrittenBytes := p.total_set i w Worker.writtenBytes
  have hSame : (p.set i w).total Worker.written = p.total Worker.written := by omega
  have hSameBytes : (p.set i w).total Worker.writtenBytes = p.total Worker.writtenBytes := by
    omega
  refine ⟨?_, ?_, ?_⟩
  · rw [hSame]
    exact h.records
  · rw [hSameBytes]
    exact h.bytes
  · rw [hSameBytes]
    exact h.plain

/-- A worker at its select goes on: neither it nor what follows has anything to
report. -/
theorem Tally.turn (h : Tally config initial p) {i : Fin n} {batch : EventBatch}
    {signalled : Bool} (hHere : p.workers i = .selecting batch signalled) {w : Worker}
    (hNext : w.written = 0 ∧ w.writtenBytes = 0) : Tally config initial (p.set i w) :=
  h.set (by rw [hHere]; exact hNext.1) (by rw [hHere]; exact hNext.2)

/-- **An append** adds to the database what its worker will report. -/
theorem Tally.append (h : Tally config initial p) {i : Fin n} {batch : EventBatch} {leaves : Bool}
    (hHere : p.workers i = .flushing batch leaves)
    (hKeys : (batch.events.map generateEventKey).Nodup) {env : CallEnv} {db : RocksDb}
    {result : Except EventStoreError (Option AppendResult)} (duration : Nat)
    (hExec : (appendBatch C store config env batch.events).exec p.db = (result, db)) :
    Tally config initial { p.set i (.flushed batch result duration leaves) with db := db } := by
  obtain ⟨hSize, hBytes, hPlain⟩ := appendBatch_adds hKeys duration leaves hExec
  have hWritten := p.total_set i (.flushed batch result duration leaves) Worker.written
  have hWrittenBytes := p.total_set i (.flushed batch result duration leaves)
    Worker.writtenBytes
  rw [hHere] at hWritten hWrittenBytes
  have hZero : (Worker.flushing batch leaves).written = 0 := rfl
  have hZeroBytes : (Worker.flushing batch leaves).writtenBytes = 0 := rfl
  refine ⟨?_, fun hFlag => ?_, fun hFlag => ⟨(h.plain hFlag).1, ?_⟩⟩
  · have hRecords := h.records
    show (RocksDb.contents db).size =
      initial.size + p.metrics.totalEventsProcessed + (p.set i _).total Worker.written
    omega
  · have hBefore := h.bytes hFlag
    have hAfter := hBytes hFlag
    show (RocksDb.contents db).byteSize =
      initial.byteSize + p.metrics.totalBytesWritten + (p.set i _).total Worker.writtenBytes
    omega
  · have hBefore := (h.plain hFlag).2
    have hAfter := hPlain hFlag
    show (p.set i _).total Worker.writtenBytes = 0
    omega

/-- **A reset** passes the report of its worker on to the counters. -/
theorem Tally.reset (h : Tally config initial p) {i : Fin n} {batch : EventBatch}
    {result : Except EventStoreError (Option AppendResult)} {duration : Nat} {leaves : Bool}
    (hHere : p.workers i = .flushed batch result duration leaves) :
    Tally config initial
      { p.set i (.onFlushed p.now leaves) with
        metrics := p.metrics.record kindText batch.len duration result } := by
  have hWritten := p.total_set i (.onFlushed p.now leaves) Worker.written
  have hWrittenBytes := p.total_set i (.onFlushed p.now leaves) Worker.writtenBytes
  obtain ⟨hZero, hZeroBytes⟩ := Worker.report_onFlushed p.now leaves
  rw [hHere] at hWritten hWrittenBytes
  have hRecorded : (p.metrics.record kindText batch.len duration result).totalEventsProcessed =
      p.metrics.totalEventsProcessed + (Worker.flushed batch result duration leaves).written ∧
      (p.metrics.record kindText batch.len duration result).totalBytesWritten =
        p.metrics.totalBytesWritten +
          (Worker.flushed batch result duration leaves).writtenBytes := by
    cases result <;> exact ⟨rfl, rfl⟩
  refine ⟨?_, fun hFlag => ?_, fun hFlag => ⟨?_, ?_⟩⟩
  · have hRecords := h.records
    show p.db.contents.size = initial.size +
      (p.metrics.record kindText batch.len duration result).totalEventsProcessed +
        (p.set i _).total Worker.written
    omega
  · have hBytes := h.bytes hFlag
    show p.db.contents.byteSize = initial.byteSize +
      (p.metrics.record kindText batch.len duration result).totalBytesWritten +
        (p.set i _).total Worker.writtenBytes
    omega
  · obtain ⟨hCounter, hPending⟩ := h.plain hFlag
    show (p.metrics.record kindText batch.len duration result).totalBytesWritten = 0
    omega
  · have hPending := (h.plain hFlag).2
    show (p.set i _).total Worker.writtenBytes = 0
    omega

/-- **Step**: an append adds what its worker reports, and the report passes on to the
counters. -/
theorem Tally.step (h : Tally config initial p)
    (hKeys : ∀ i, ((p.workers i).held.map generateEventKey).Nodup) {action : Action n}
    (hStep : Step C store kindText config action p q) : Tally config initial q := by
  have hRelease (i : Fin n) : Tally config initial (p.release i) := { h with }
  cases hStep with
  | send | cloneSender | dropSender | wait | lock => exact { h with }
  | enter hHere => exact h.set (by rw [hHere]; rfl) (by rw [hHere]; rfl)
  | receive hHere =>
      exact { (hRelease _).turn hHere (Worker.report_onReceive config _ _) with }
  | closed hHere => exact (hRelease _).turn hHere (Worker.report_onClosed _)
  | tick hHere => exact (hRelease _).turn hHere (Worker.report_onTick config _ _)
  | signal hHere => exact (hRelease _).turn hHere (Worker.report_onClosed _)
  | @append _ i batch leaves env duration hHere result db hExec =>
      have hNodup := hKeys i
      rw [hHere] at hNodup
      exact h.append hHere hNodup duration hExec
  | reset hHere => exact h.reset hHere
  | shutdown =>
      have hWritten : p.shutdown.total Worker.written = p.total Worker.written := by
        simp only [Processor.total, Processor.shutdown, Worker.report_notify]
      have hBytes : p.shutdown.total Worker.writtenBytes = p.total Worker.writtenBytes := by
        simp only [Processor.total, Processor.shutdown, Worker.report_notify]
      refine ⟨?_, ?_, ?_⟩
      · rw [hWritten]
        exact h.records
      · rw [hBytes]
        exact h.bytes
      · rw [hBytes]
        exact h.plain

/-- The envelopes are conserved and their keys are distinct. -/
structure Distinguished (p : Processor n) (done : List EventEnvelope) : Prop where
  conserves : (view p done).Conserves
  distinct : (p.accepted.map generateEventKey).Nodup

/-- Of the envelopes of one batch no two have a key in common. -/
theorem Distinguished.nodup_keys (h : Distinguished p done) (i : Fin n) :
    ((p.workers i).held.map generateEventKey).Nodup := by
  have hHeld : (p.workers i).held.Nodup := h.conserves.nodup_held h.distinct.of_map i
  refine hHeld.map_on ?_
  intro e he f hf hKey
  exact List.inj_on_of_nodup_map h.distinct (h.conserves.accepted_of_held (i := i) he)
    (h.conserves.accepted_of_held (i := i) hf) hKey

theorem Distinguished.step (h : Distinguished p done) {action : Action n}
    (hDistinct : DistinctKeys p action) (hStep : Step C store kindText config action p q) :
    ∃ done', Distinguished q done' := by
  rcases hStep.effect done with ⟨e, rfl, hAccepted, -, hMove⟩ |
    ⟨i, env, duration, batch, leaves, rfl, -, hAccepted, -, hMove⟩ | ⟨hAccepted, -, hMove⟩
  · refine ⟨done, hMove.conserves h.conserves, ?_⟩
    have hNew : generateEventKey e ∉ p.accepted.map generateEventKey := hDistinct
    rw [hAccepted, List.map_append, List.map_singleton]
    exact List.nodup_append'.mpr ⟨h.distinct, List.nodup_singleton _, by simpa using hNew⟩
  · exact ⟨done ++ batch.events, hMove.conserves h.conserves, hAccepted ▸ h.distinct⟩
  · refine ⟨done, ?_, hAccepted ▸ h.distinct⟩
    rcases hMove with hSame | hMove
    · rw [hSame]
      exact h.conserves
    · exact hMove.conserves h.conserves

theorem distinguished_start (db : RocksDb) (now : Instant) :
    Distinguished (.start db now : Processor n) [] :=
  ⟨WorkQueue.conserves_empty, List.nodup_nil⟩

/-- **Run**. -/
theorem Tally.run (h : Tally config initial p) (hOnce : Distinguished p done)
    (hRun : Run C store kindText config DistinctKeys p q) :
    Tally config initial q ∧ ∃ done', Distinguished q done' := by
  induction hRun with
  | refl => exact ⟨h, done, hOnce⟩
  | tail _ hStep ih =>
      obtain ⟨hTally, done', hMid⟩ := ih
      obtain ⟨action, hDistinct, hStep⟩ := hStep
      exact ⟨hTally.step hMid.nodup_keys hStep, hMid.step hDistinct hStep⟩

end Counters

/-- **The counters tell the truth**: in every run in which no key is sent twice,
whatever fails and whenever it is shut down, the database has grown by as many
records as there are events counted as processed or about to be; and by as many
bytes as are counted as written, or about to be, where the optimized append is
used.  Where it is not, no bytes are counted. -/
theorem counters_match_database (C : Crates) (store : EventStore)
    (kindText : Bincode.ErrorKind → String) (config : BatchConfig) (n : Nat) (db : RocksDb)
    (now : Instant) (p : Processor n)
    (hRun : Run C store kindText config DistinctKeys (.start db now) p) :
    p.db.contents.size =
        db.contents.size + p.metrics.totalEventsProcessed + p.total Worker.written ∧
      (config.useOptimizedAppend = true →
        p.db.contents.byteSize =
          db.contents.byteSize + p.metrics.totalBytesWritten + p.total Worker.writtenBytes) ∧
      (config.useOptimizedAppend = false → p.metrics.totalBytesWritten = 0) := by
  obtain ⟨h, -⟩ := (tally_start config db now).run (distinguished_start db now) hRun
  exact ⟨h.records, h.bytes, fun hFlag => (h.plain hFlag).1⟩

/-- After the run of one event the database has as many records as are counted. -/
theorem oneEvent_counted :
    ∃ p : Processor 1,
      Run Crates.sample (new .default) (fun _ => "") oneWorker DistinctKeys (.start .empty 0) p ∧
      p.accepted = [oneEvent] ∧ p.db.contents.size = p.metrics.totalEventsProcessed ∧
      p.db.contents.byteSize = p.metrics.totalBytesWritten := by
  obtain ⟨p, hRun, hAccepted, -, -, -, hWorker⟩ :=
    exists_oneEvent_run (new .default) oneWorker (by decide) (by decide)
  have hDistinct : Run Crates.sample (new .default) (fun _ => "") oneWorker DistinctKeys
      (.start .empty 0) p := hRun.mono fun q action hQuiet => by
    cases action with
    | send e => exact hQuiet.2
    | _ => trivial
  obtain ⟨hRecords, hBytes, -⟩ := counters_match_database Crates.sample (new .default)
    (fun _ => "") oneWorker 1 .empty 0 p hDistinct
  have hIdle {weight : Worker → Nat} (hZero : weight (.turn (EventBatch.new 0)) = 0) :
      p.total weight = 0 := by
    rw [Processor.total, Fin.sum_univ_one, hWorker, hZero]
  rw [hIdle rfl] at hRecords
  have hBytes := hBytes rfl
  rw [hIdle rfl] at hBytes
  refine ⟨p, hDistinct, hAccepted, ?_, ?_⟩
  · rw [hRecords]
    exact Nat.zero_add _
  · rw [hBytes]
    exact Nat.zero_add _

end LedgerFS.Batch
