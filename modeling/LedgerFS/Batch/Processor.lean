import LedgerFS.Batch.Flush
import LedgerFS.Library.WorkQueue

/-!
# The batch processor (`batch.rs`)

`BatchProcessor::start` spawns the workers that share one channel of envelopes.
Each worker turns a loop around a `select!` with three branches: take the lock on
the receiver and the next envelope, a timer tick, and the shutdown signal.  The
futures of a turn are created when the turn begins and dropped when one branch
wins, so the lock is given back and a signal that was pending is gone with them.

`Step` is one atomic action of a sender, of a worker, of the clock or of
`shutdown()`, and the runs are its sequences.  A flush is two actions: the append,
which the store runs under its write lock, and the wait for the metrics, after
which the batch is reset.  A tick may come at any time, and a waiting worker may
get the lock in any order: there are no fewer interleavings than the timers and the
queue of the mutex allow.

`accepted` is not a part of the program.  It records the envelopes whose send has
returned `Ok`.
-/

namespace LedgerFS.Batch

open LedgerFS.Core
open LedgerFS.Library
open LedgerFS.EventStore

/-! ## Workers -/

/-- Where a worker stands in `run_batch_processor`. -/
inductive Worker
  /-- Spawned, not yet running. -/
  | starting
  /-- At the select; whether the future of this turn has been notified. -/
  | selecting (batch : EventBatch) (signalled : Bool)
  /-- In `flush_batch`, before the append; whether the worker leaves afterwards. -/
  | flushing (batch : EventBatch) (leaves : Bool)
  /-- In `flush_batch`, after the append. -/
  | flushed (batch : EventBatch) (result : Except EventStoreError (Option AppendResult))
      (duration : Nat) (leaves : Bool)
  /-- Out of the loop. -/
  | left

namespace Worker

/-- The next turn of the loop, with a `notified()` of its own. -/
def turn (batch : EventBatch) : Worker := .selecting batch false

/-- Receive new events: flush if the batch is full. -/
def onReceive (config : BatchConfig) (batch : EventBatch) (envelope : EventEnvelope) : Worker :=
  if (batch.addEvent envelope).isFull config.maxBatchSize then
    .flushing (batch.addEvent envelope) false
  else turn (batch.addEvent envelope)

/-- Channel closed: flush remaining events and exit. -/
def onClosed (batch : EventBatch) : Worker :=
  if batch.isEmpty then .left else .flushing batch true

/-- Timer tick: flush if the batch has expired. -/
def onTick (config : BatchConfig) (now : Instant) (batch : EventBatch) : Worker :=
  if !batch.isEmpty && batch.isExpired now config.maxBatchDelay then .flushing batch false
  else turn batch

/-- Shutdown signal: flush and exit. -/
def onShutdown (batch : EventBatch) : Worker :=
  if batch.isEmpty then .left else .flushing batch true

/-- The batch is reset; the loop goes on or ends. -/
def onFlushed (now : Instant) (leaves : Bool) : Worker :=
  if leaves then .left else turn (EventBatch.new now)

/-- `notify_waiters` reaches the futures that exist. -/
def notify : Worker → Worker
  | .selecting batch _ => .selecting batch true
  | w => w

/-- The envelopes in the batch of a worker that are not yet appended. -/
def held : Worker → List EventEnvelope
  | .selecting batch _ => batch.events
  | .flushing batch _ => batch.events
  | _ => []

/-- The worker has left its loop, or will after its flush. -/
def leaving : Worker → Bool
  | .flushing _ leaves => leaves
  | .flushed _ _ _ leaves => leaves
  | .left => true
  | _ => false

/-- The worker is at its select and its future of this turn has been notified. -/
def pending : Worker → Bool
  | .selecting _ signalled => signalled
  | _ => false

section

variable (config : BatchConfig) (now : Instant) (batch : EventBatch)

@[simp] theorem held_turn : (turn batch).held = batch.events := rfl

@[simp] theorem held_onReceive (envelope : EventEnvelope) :
    (onReceive config batch envelope).held = batch.events ++ [envelope] := by
  unfold onReceive
  split <;> rfl

@[simp] theorem held_onClosed : (onClosed batch).held = batch.events := by
  unfold onClosed
  split
  · exact (batch.isEmpty_iff.mp ‹_›).symm
  · rfl

@[simp] theorem held_onTick : (onTick config now batch).held = batch.events := by
  unfold onTick
  split <;> rfl

@[simp] theorem held_onShutdown : (onShutdown batch).held = batch.events := held_onClosed batch

@[simp] theorem held_onFlushed (leaves : Bool) : (onFlushed now leaves).held = [] := by
  cases leaves <;> rfl

@[simp] theorem held_notify (w : Worker) : w.notify.held = w.held := by
  cases w <;> rfl

@[simp] theorem leaving_turn : (turn batch).leaving = false := rfl

@[simp] theorem leaving_onReceive (envelope : EventEnvelope) :
    (onReceive config batch envelope).leaving = false := by
  unfold onReceive
  split <;> rfl

@[simp] theorem leaving_onClosed : (onClosed batch).leaving = true := by
  unfold onClosed
  split <;> rfl

@[simp] theorem leaving_onShutdown : (onShutdown batch).leaving = true := leaving_onClosed batch

@[simp] theorem leaving_onTick : (onTick config now batch).leaving = false := by
  unfold onTick
  split <;> rfl

@[simp] theorem leaving_onFlushed (leaves : Bool) : (onFlushed now leaves).leaving = leaves := by
  cases leaves <;> rfl

@[simp] theorem pending_turn : (turn batch).pending = false := rfl

@[simp] theorem pending_flushed (result : Except EventStoreError (Option AppendResult))
    (duration : Nat) (leaves : Bool) :
    (Worker.flushed batch result duration leaves).pending = false := rfl

@[simp] theorem pending_onReceive (envelope : EventEnvelope) :
    (onReceive config batch envelope).pending = false := by
  unfold onReceive
  split <;> rfl

@[simp] theorem pending_onClosed : (onClosed batch).pending = false := by
  unfold onClosed
  split <;> rfl

@[simp] theorem pending_onTick : (onTick config now batch).pending = false := by
  unfold onTick
  split <;> rfl

@[simp] theorem pending_onShutdown : (onShutdown batch).pending = false := pending_onClosed batch

@[simp] theorem pending_onFlushed (leaves : Bool) : (onFlushed now leaves).pending = false := by
  cases leaves <;> rfl

theorem pending_notify {w : Worker} (h : w.pending = true) : w.notify.pending = true := by
  cases w with
  | selecting => rfl
  | _ => exact h

@[simp] theorem leaving_notify (w : Worker) : w.notify.leaving = w.leaving := by
  cases w <;> rfl

end

end Worker

/-! ## The processor -/

/-- The store, the clock, the channel with its senders, the lock on the
receiver, `n` workers and their metrics. -/
structure Processor (n : Nat) where
  db : RocksDb
  now : Instant
  channel : List EventEnvelope
  senders : Nat
  lock : Option (Fin n)
  workers : Fin n → Worker
  metrics : BatchMetrics
  accepted : List EventEnvelope

namespace Processor

variable {n : Nat}

/-- `BatchProcessor::start`: one sender is returned. -/
def start (db : RocksDb) (now : Instant) : Processor n where
  db := db
  now := now
  channel := []
  senders := 1
  lock := none
  workers _ := .starting
  metrics := BatchMetrics.default
  accepted := []

def set (p : Processor n) (i : Fin n) (w : Worker) : Processor n :=
  { p with workers := Function.update p.workers i w }

/-- The guard of a worker is dropped with its future. -/
def release (p : Processor n) (i : Fin n) : Processor n :=
  { p with lock := if p.lock = some i then none else p.lock }

/-- `shutdown()`, up to its pause. -/
def shutdown (p : Processor n) : Processor n :=
  { p with workers := fun i => (p.workers i).notify }

@[simp] theorem set_workers (p : Processor n) (i : Fin n) (w : Worker) (j : Fin n) :
    (p.set i w).workers j = if j = i then w else p.workers j :=
  Function.update_apply p.workers i w j

@[simp] theorem release_workers (p : Processor n) (i : Fin n) :
    (p.release i).workers = p.workers := rfl

/-- Every worker has left its loop. -/
def AllLeft (p : Processor n) : Prop := ∀ i, p.workers i = .left

end Processor

/-- Actions. -/
inductive Action (n : Nat)
  | send (envelope : EventEnvelope)
  | cloneSender
  | dropSender
  | wait (nanos : Nat)
  | enter (i : Fin n)
  | lock (i : Fin n)
  | receive (i : Fin n)
  | closed (i : Fin n)
  | tick (i : Fin n)
  | signal (i : Fin n)
  | append (i : Fin n) (env : CallEnv) (duration : Nat)
  | reset (i : Fin n)
  | shutdown

section Steps

variable (C : Crates) (store : EventStore) (kindText : Bincode.ErrorKind → String)
  (config : BatchConfig) {n : Nat}

/-- One action of a processor. -/
inductive Step : Action n → Processor n → Processor n → Prop
  /-- A send returns `Ok` once there is room, while the receiver exists. -/
  | send {p : Processor n} (envelope : EventEnvelope) (hSender : 0 < p.senders)
      (hOpen : ∃ i, p.workers i ≠ .left) (hRoom : p.channel.length < config.bufferSize) :
      Step (.send envelope) p
        { p with
          channel := p.channel ++ [envelope]
          accepted := p.accepted ++ [envelope] }
  | cloneSender {p : Processor n} (hSender : 0 < p.senders) :
      Step .cloneSender p { p with senders := p.senders + 1 }
  | dropSender {p : Processor n} (hSender : 0 < p.senders) :
      Step .dropSender p { p with senders := p.senders - 1 }
  | wait {p : Processor n} (nanos : Nat) :
      Step (.wait nanos) p { p with now := p.now + nanos }
  /-- The task of a worker runs for the first time. -/
  | enter {p : Processor n} {i : Fin n} (hHere : p.workers i = .starting) :
      Step (.enter i) p (p.set i (.turn (EventBatch.new p.now)))
  /-- The receive branch gets the lock on the receiver. -/
  | lock {p : Processor n} {i : Fin n} {batch : EventBatch} {signalled : Bool}
      (hHere : p.workers i = .selecting batch signalled) (hFree : p.lock = none) :
      Step (.lock i) p { p with lock := some i }
  /-- The receive branch wins with an envelope. -/
  | receive {p : Processor n} {i : Fin n} {batch : EventBatch} {signalled : Bool}
      {envelope : EventEnvelope} {rest : List EventEnvelope}
      (hHere : p.workers i = .selecting batch signalled) (hLock : p.lock = some i)
      (hFront : p.channel = envelope :: rest) :
      Step (.receive i) p
        { (p.release i).set i (.onReceive config batch envelope) with channel := rest }
  /-- The receive branch wins without one: no sender is left. -/
  | closed {p : Processor n} {i : Fin n} {batch : EventBatch} {signalled : Bool}
      (hHere : p.workers i = .selecting batch signalled) (hLock : p.lock = some i)
      (hEmpty : p.channel = []) (hClosed : p.senders = 0) :
      Step (.closed i) p ((p.release i).set i (.onClosed batch))
  | tick {p : Processor n} {i : Fin n} {batch : EventBatch} {signalled : Bool}
      (hHere : p.workers i = .selecting batch signalled) :
      Step (.tick i) p ((p.release i).set i (.onTick config p.now batch))
  | signal {p : Processor n} {i : Fin n} {batch : EventBatch}
      (hHere : p.workers i = .selecting batch true) :
      Step (.signal i) p ((p.release i).set i (.onShutdown batch))
  | append {p : Processor n} {i : Fin n} {batch : EventBatch} {leaves : Bool}
      (env : CallEnv) (duration : Nat) (hHere : p.workers i = .flushing batch leaves)
      {result : Except EventStoreError (Option AppendResult)} {db : RocksDb}
      (hExec : (appendBatch C store config env batch.events).exec p.db = (result, db)) :
      Step (.append i env duration) p
        { p.set i (.flushed batch result duration leaves) with db := db }
  | reset {p : Processor n} {i : Fin n} {batch : EventBatch}
      {result : Except EventStoreError (Option AppendResult)} {duration : Nat} {leaves : Bool}
      (hHere : p.workers i = .flushed batch result duration leaves) :
      Step (.reset i) p
        { p.set i (.onFlushed p.now leaves) with
          metrics := p.metrics.record kindText batch.len duration result }
  | shutdown {p : Processor n} : Step .shutdown p p.shutdown

/-- The actions of a run, each of them admitted where it happens. -/
def Run (admits : Processor n → Action n → Prop) (p q : Processor n) : Prop :=
  Relation.ReflTransGen
    (fun p q => ∃ action, admits p action ∧ Step C store kindText config action p q) p q

variable {C store kindText config}

/-- A run under a condition is one under any weaker condition. -/
theorem Run.mono {admits admits' : Processor n → Action n → Prop} {p q : Processor n}
    (hRun : Run C store kindText config admits p q)
    (hWeaker : ∀ p action, admits p action → admits' p action) :
    Run C store kindText config admits' p q := by
  refine Relation.ReflTransGen.mono ?_ _ _ hRun
  rintro p q ⟨action, hAdmits, hStep⟩
  exact ⟨action, hWeaker p action hAdmits, hStep⟩

/-- One more action. -/
theorem Run.next {admits : Processor n → Action n → Prop} {p q r : Processor n}
    {action : Action n} (hRun : Run C store kindText config admits p q)
    (hStep : Step C store kindText config action q r) (hAdmits : admits q action) :
    Run C store kindText config admits p r :=
  hRun.tail ⟨action, hAdmits, hStep⟩

variable {action : Action n} {p q : Processor n}

/-- A worker starts to leave when the channel is closed or on a signal. -/
theorem Step.leaving_cases (hStep : Step C store kindText config action p q) {i : Fin n}
    (hLeaving : (q.workers i).leaving = true) :
    (p.workers i).leaving = true ∨ (p.channel = [] ∧ p.senders = 0) ∨
      (action = .signal i ∧ (p.workers i).pending = true) := by
  cases hStep with
  | send | cloneSender | dropSender | wait | lock => exact Or.inl hLeaving
  | closed hHere hLock hEmpty hClosed => exact Or.inr (Or.inl ⟨hEmpty, hClosed⟩)
  | enter | receive | tick =>
      simp only [Processor.set_workers] at hLeaving
      split at hLeaving
      · simp at hLeaving
      · exact Or.inl hLeaving
  | signal hHere =>
      rw [Processor.set_workers] at hLeaving
      split at hLeaving
      · rename_i hi
        rw [hi, hHere]
        exact Or.inr (Or.inr ⟨rfl, rfl⟩)
      · exact Or.inl hLeaving
  | append env duration hHere hExec =>
      simp only [Processor.set_workers] at hLeaving
      split at hLeaving
      · rename_i hi
        rw [hi, hHere]
        exact Or.inl hLeaving
      · exact Or.inl hLeaving
  | reset hHere =>
      simp only [Processor.set_workers] at hLeaving
      split at hLeaving
      · rename_i hi
        rw [Worker.leaving_onFlushed] at hLeaving
        rw [hi, hHere]
        exact Or.inl hLeaving
      · exact Or.inl hLeaving
  | shutdown =>
      rw [Processor.shutdown, Worker.leaving_notify] at hLeaving
      exact Or.inl hLeaving

/-- Only `shutdown()` notifies. -/
theorem Step.pending_cases (hStep : Step C store kindText config action p q) {i : Fin n}
    (hPending : (q.workers i).pending = true) :
    (p.workers i).pending = true ∨ action = .shutdown := by
  cases hStep with
  | send | cloneSender | dropSender | wait | lock => exact Or.inl hPending
  | enter | receive | closed | tick | signal | append | reset =>
      simp only [Processor.set_workers] at hPending
      split at hPending
      · simp at hPending
      · exact Or.inl hPending
  | shutdown => exact Or.inr rfl

/-- What the channel gains is sent, and what it loses is received. -/
theorem Step.channel_cases (hStep : Step C store kindText config action p q) :
    q.channel = p.channel ∨
      (∃ e, action = .send e ∧ 0 < p.senders ∧ q.channel = p.channel ++ [e]) ∨
      ∃ e, p.channel = e :: q.channel := by
  cases hStep with
  | send envelope hSender => exact Or.inr (Or.inl ⟨envelope, rfl, hSender, rfl⟩)
  | receive hHere hLock hFront => exact Or.inr (Or.inr ⟨_, hFront⟩)
  | _ => exact Or.inl rfl

/-- A closed channel stays closed. -/
theorem Step.closed_stays (hStep : Step C store kindText config action p q)
    (hClosed : p.channel = [] ∧ p.senders = 0) : q.channel = [] ∧ q.senders = 0 := by
  obtain ⟨hEmpty, hNone⟩ := hClosed
  cases hStep with
  | send _ hSender => omega
  | cloneSender hSender => omega
  | dropSender hSender => omega
  | receive hHere hLock hFront =>
      rw [hEmpty] at hFront
      cases hFront
  | _ => exact ⟨hEmpty, hNone⟩

/-- **A flush of a worker**: the append and the reset together are
`flush_batch`. -/
theorem flush_of_steps {r : Processor n} {i : Fin n} {batch : EventBatch} {leaves : Bool}
    {env : CallEnv} {duration : Nat} (hHere : p.workers i = .flushing batch leaves)
    (hSome : batch.events ≠ [])
    (hAppend : Step C store kindText config (.append i env duration) p q)
    (hReset : Step C store kindText config (.reset i) q r) :
    let after := flushBatch C store kindText config ⟨env, duration, q.now⟩ batch q.metrics p.db
    r.db = after.db ∧ r.metrics = after.metrics ∧
      r.workers i = if leaves then .left else .turn after.batch := by
  have hNot : ¬ batch.isEmpty = true := fun hEmpty => hSome (batch.isEmpty_iff.mp hEmpty)
  intro after
  have hAfter : after = _ := if_neg hNot
  rw [hAfter]
  cases hAppend with
  | append _ _ hThere hExec =>
      rw [hHere] at hThere
      cases hThere
      cases hReset with
      | reset hNow =>
          simp only [Processor.set, Function.update_self] at hNow
          cases hNow
          refine ⟨(congrArg Prod.snd hExec).symm, ?_, ?_⟩
          · rw [hExec]
          · simp only [Processor.set, Function.update_self]
            rfl

end Steps

end LedgerFS.Batch
