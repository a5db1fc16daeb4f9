import LedgerFS.Batch.Conservation

/-!
# Shutdown

`shutdown()` notifies the futures that exist at the moment.  A worker that heeds
the signal flushes its own batch and leaves; it does not look into the channel.
So the envelopes accepted before are all stored when the workers have left exactly
if none of them is still in the channel, and they are in every run where the
channel has been drained of them whenever a worker heeds the signal
(`shutdown_drains`).

A worker in a flush has no future to be notified, and one whose turn ends with an
envelope or a tick drops the notified one.  The signal is not missed in the runs
where every worker is at its select when it is given, and none that is notified
goes on with another branch (`shutdown_heeded`).
-/

namespace LedgerFS.Batch

open LedgerFS.Core
open LedgerFS.Library
open LedgerFS.EventStore

section Drain

variable {n : Nat}

/-- A worker heeds the signal only when these envelopes have left the channel. -/
def DrainsFirst (before : List EventEnvelope) (p : Processor n) : Action n → Prop
  | .signal _ => ∀ e ∈ before, e ∉ p.channel
  | _ => True

variable {C : Crates} {store : EventStore} {kindText : Bincode.ErrorKind → String}
  {config : BatchConfig} {initial : Contents} {p q : Processor n}
  {before : List EventEnvelope}

/-- A shutdown moves no envelope. -/
theorem Conserved.shutdown {done : List EventEnvelope}
    (h : Conserved C store initial p done) : Conserved C store initial p.shutdown done := by
  have hView : view p.shutdown done = view p done := by
    unfold view viewOf Processor.shutdown
    simp only [Worker.held_notify]
  exact ⟨hView ▸ h.conserves, h.distinct, h.fresh, h.contents⟩

theorem Step.accepted_subset {action : Action n}
    (hStep : Step C store kindText config action p q) : p.accepted ⊆ q.accepted := by
  rcases hStep.effect [] with ⟨e, -, hAccepted, -⟩ | ⟨_, _, _, _, _, -, -, hAccepted, -⟩ |
    ⟨hAccepted, -⟩
  · rw [hAccepted]
    exact List.subset_append_left _ _
  · rw [hAccepted]
    exact List.Subset.refl _
  · rw [hAccepted]
    exact List.Subset.refl _

/-- Envelopes that were accepted and have left the channel do not come back. -/
theorem Step.drained_stays {action : Action n}
    (hStep : Step C store kindText config action p q) (hQuiet : Quiet initial p action)
    (hSub : before ⊆ p.accepted) (hDrained : ∀ e ∈ before, e ∉ p.channel) :
    ∀ e ∈ before, e ∉ q.channel := by
  intro e he hMem
  rcases hStep.channel_cases with hSame | ⟨f, rfl, -, hSent⟩ | ⟨f, hTaken⟩
  · rw [hSame] at hMem
    exact hDrained e he hMem
  · rw [hSent] at hMem
    rcases List.mem_append.mp hMem with hOld | hNew
    · exact hDrained e he hOld
    · rw [List.mem_singleton] at hNew
      exact hQuiet.2 (List.mem_map_of_mem (hNew ▸ hSub he))
  · exact hDrained e he (hTaken ▸ List.mem_cons_of_mem f hMem)

/-- The envelopes were accepted, and no worker leaves while one of them is in the
channel. -/
structure LeavesDrained (before : List EventEnvelope) (p : Processor n) : Prop where
  accepted : before ⊆ p.accepted
  drained : ∀ i, (p.workers i).leaving = true → ∀ e ∈ before, e ∉ p.channel

theorem Undisturbed.leavesDrained (h : Undisturbed p) :
    LeavesDrained p.accepted p.shutdown where
  accepted := List.Subset.refl _
  drained i hLeaving e _ hMem := by
    rw [Processor.shutdown, Worker.leaving_notify] at hLeaving
    have hClosed : p.channel = [] := (h.closed i hLeaving).1
    rw [show p.shutdown.channel = p.channel from rfl, hClosed] at hMem
    cases hMem

theorem LeavesDrained.step (h : LeavesDrained before p) {action : Action n}
    (hQuiet : Quiet initial p action) (hDrains : DrainsFirst before p action)
    (hStep : Step C store kindText config action p q) : LeavesDrained before q := by
  refine ⟨List.Subset.trans h.accepted hStep.accepted_subset, fun i hLeaving => ?_⟩
  apply hStep.drained_stays hQuiet h.accepted
  rcases hStep.leaving_cases hLeaving with hBefore | ⟨hEmpty, -⟩ | ⟨rfl, -⟩
  · exact h.drained i hBefore
  · simp [hEmpty]
  · exact hDrains

theorem LeavesDrained.run (h : LeavesDrained before p)
    (hRun : Run C store kindText config
      (fun r action => Quiet initial r action ∧ DrainsFirst before r action) p q) :
    LeavesDrained before q := by
  induction hRun with
  | refl => exact h
  | tail _ hStep ih =>
      obtain ⟨action, ⟨hQuiet, hDrains⟩, hStep⟩ := hStep
      exact ih.step hQuiet hDrains hStep

theorem Run.accepted_subset {admits : Processor n → Action n → Prop}
    (hRun : Run C store kindText config admits p q) : p.accepted ⊆ q.accepted := by
  induction hRun with
  | refl => exact List.Subset.refl _
  | tail _ hStep ih =>
      obtain ⟨_, -, hStep⟩ := hStep
      exact List.Subset.trans ih hStep.accepted_subset

end Drain

/-- **What a shutdown drains**: when all workers have left, the envelopes accepted
before the shutdown are all stored exactly if none of them is still in the channel;
and they are in every run whose workers heed the signal only after the channel has
been drained of them. -/
theorem shutdown_drains (C : Crates) (hEncodes : C.Lz4Encodes) (store : EventStore)
    (kindText : Bincode.ErrorKind → String) (config : BatchConfig)
    (hWorkers : 0 < config.numProcessors) (db : RocksDb) (now : Instant)
    (p q : Processor config.numProcessors)
    (hBefore : Run C store kindText config (Quiet db.contents) (.start db now) p)
    (hAfter : Run C store kindText config (Quiet db.contents) p.shutdown q)
    (hLeft : q.AllLeft) :
    ((∀ e ∈ p.accepted, Holds C store q.db.contents e) ↔ ∀ e ∈ p.accepted, e ∉ q.channel) ∧
      (Run C store kindText config
          (fun r action => Quiet db.contents r action ∧ DrainsFirst p.accepted r action)
          p.shutdown q →
        ∀ e ∈ p.accepted, Holds C store q.db.contents e) := by
  obtain ⟨_, hInv⟩ := (conserved_start C store db now).run hEncodes hBefore
  obtain ⟨done, hInv⟩ := hInv.shutdown.run hEncodes hAfter
  have hSub : p.accepted ⊆ q.accepted := hAfter.accepted_subset
  have hStored {e : EventEnvelope} (he : e ∈ p.accepted) :
      Holds C store q.db.contents e ↔ e ∉ q.channel := by
    rw [hInv.holds_iff hEncodes (hSub he)]
    exact hInv.conserves.mem_done_iff hInv.distinct.of_map (held_of_allLeft hLeft) (hSub he)
  constructor
  · constructor
    · intro hAll e he
      exact (hStored he).mp (hAll e he)
    · intro hNone e he
      exact (hStored he).mpr (hNone e he)
  · intro hDrained e he
    have hLeaves := (((undisturbed_start db now).run hBefore).leavesDrained).run hDrained
    exact (hStored he).mpr (hLeaves.drained ⟨0, hWorkers⟩ (by rw [hLeft]; rfl) e he)

/-- One event, sent before the shutdown and in a batch when the signal comes. -/
theorem shutdown_drains_test :
    let e := createTestEnvelope ⟨Uuid.fromU128 1⟩ ⟨Uuid.fromU128 2⟩ DateTime.epoch
    let config : BatchConfig := { BatchConfig.default with numProcessors := 1 }
    ∃ p q : Processor 1,
      Run Crates.sample (new .default) (fun _ => "") config (Quiet RocksDb.empty.contents)
        p.shutdown q ∧
      q.AllLeft ∧ p.accepted = [e] ∧ Holds Crates.sample (new .default) q.db.contents e := by
  intro e config
  let started : Processor 1 := .start .empty 0
  let received : Processor 1 :=
    { (started.set 0 (.turn (EventBatch.new 0))).set 0 (.turn ⟨[e], 0⟩) with accepted := [e] }
  have hStay (p : Processor 1) : Run Crates.sample (new .default) (fun _ => "") config
      (fun r action => Quiet RocksDb.empty.contents r action ∧ DrainsFirst [e] r action) p p :=
    .refl
  have hReceived := ((((hStay started).next (.enter (i := 0) rfl) ⟨trivial, trivial⟩).next
    (.send e Nat.one_pos ⟨0, nofun⟩ (by decide)) ⟨⟨rfl, List.not_mem_nil⟩, trivial⟩).next
    (.lock (i := 0) rfl rfl) ⟨trivial, trivial⟩).next
    (.receive (i := 0) rfl rfl rfl) ⟨trivial, trivial⟩
  have hBefore : Run Crates.sample (new .default) (fun _ => "") config
      (fun r action => Quiet RocksDb.empty.contents r action ∧ DrainsFirst [e] r action)
      started received := hReceived
  obtain ⟨result, db, hExec⟩ : ∃ result db, (appendBatch Crates.sample (new .default) config
      .quiet [e]).exec .empty = (result, db) := ⟨_, _, rfl⟩
  have hAfter := (((hStay received.shutdown).next (.signal (i := 0) rfl)
    ⟨trivial, fun _ _ => List.not_mem_nil⟩).next
    (.append (i := 0) .quiet 0 rfl hExec) ⟨⟨fun _ => rfl, rfl⟩, trivial⟩).next
    (.reset (i := 0) rfl) ⟨trivial, trivial⟩
  have hQuiet {p q : Processor 1} (hRun : Run Crates.sample (new .default) (fun _ => "") config
      (fun r action => Quiet RocksDb.empty.contents r action ∧ DrainsFirst [e] r action) p q) :=
    hRun.mono fun _ _ hBoth => hBoth.1
  refine ⟨received, _, hQuiet hAfter, allLeft_of_oneWorker rfl, rfl, ?_⟩
  exact (shutdown_drains Crates.sample Crates.sample_lz4Encodes (new .default) (fun _ => "")
    config Nat.one_pos .empty 0 received _ (hQuiet hBefore) (hQuiet hAfter)
    (allLeft_of_oneWorker rfl)).2 hAfter e List.mem_cons_self

/-- The only worker heeds the signal while an accepted event is in the channel. -/
theorem shutdown_drops_queued :
    ¬ ∀ (config : BatchConfig) (db : RocksDb) (now : Instant)
      (p q : Processor config.numProcessors), 0 < config.numProcessors →
      Run Crates.sample (new .default) (fun _ => "") config (Quiet db.contents)
        (.start db now) p →
      Run Crates.sample (new .default) (fun _ => "") config (Quiet db.contents) p.shutdown q →
      q.AllLeft → ∀ e ∈ p.accepted, Holds Crates.sample (new .default) q.db.contents e := by
  intro hAlways
  let e := createTestEnvelope ⟨Uuid.fromU128 1⟩ ⟨Uuid.fromU128 2⟩ DateTime.epoch
  let started : Processor 1 := .start .empty 0
  let sent : Processor 1 :=
    { started.set 0 (.turn (EventBatch.new 0)) with channel := [e], accepted := [e] }
  have hStay (p : Processor 1) : Run Crates.sample (new .default) (fun _ => "") oneWorker
      (Quiet RocksDb.empty.contents) p p := .refl
  have hBefore : Run Crates.sample (new .default) (fun _ => "") oneWorker
      (Quiet RocksDb.empty.contents) started sent :=
    ((hStay started).next (.enter (i := 0) rfl) trivial).next
      (.send e Nat.one_pos ⟨0, nofun⟩ (by decide)) ⟨rfl, List.not_mem_nil⟩
  have hAfter := (hStay sent.shutdown).next (.signal (i := 0) rfl) trivial
  obtain ⟨_, -, hGet⟩ := hAlways oneWorker .empty 0 sent _ Nat.one_pos hBefore hAfter
    (allLeft_of_oneWorker rfl) e List.mem_cons_self
  cases hGet

/-! ## The signal -/

/-- The worker is at its select, and no signal is pending for it. -/
def Worker.deaf : Worker → Bool
  | .selecting _ signalled => !signalled
  | _ => false

/-- The worker is at its select. -/
def Worker.atSelect : Worker → Bool
  | .selecting _ _ => true
  | _ => false

section Signal

variable {n : Nat}

/-- A worker that is notified does not go on with another branch of its select. -/
def HeedsSignal (p : Processor n) : Action n → Prop
  | .receive i => (p.workers i).pending = false
  | .tick i => (p.workers i).pending = false
  | _ => True

/-- The worker is at its select and notified, or it will not come back there. -/
def Heeded (w : Worker) : Prop := w.pending = true ∨ w.leaving = true

theorem Heeded.not_deaf {w : Worker} (h : Heeded w) : w.deaf = false := by
  cases w with
  | selecting batch signalled =>
      rcases h with hPending | hLeaving
      · rw [show signalled = true from hPending]
        rfl
      · cases hLeaving
  | _ => rfl

theorem heeded_notify {w : Worker} (hAt : w = .left ∨ w.atSelect = true) : Heeded w.notify := by
  cases w with
  | selecting => exact Or.inl rfl
  | left => exact Or.inr rfl
  | _ => rcases hAt with hNo | hNo <;> cases hNo

variable {C : Crates} {store : EventStore} {kindText : Bincode.ErrorKind → String}
  {config : BatchConfig} {p q : Processor n}

/-- **Step**: a worker that is notified or leaving stays so. -/
theorem Step.heeded {action : Action n} (hStep : Step C store kindText config action p q)
    (hHeeds : HeedsSignal p action) {i : Fin n} (h : Heeded (p.workers i)) :
    Heeded (q.workers i) := by
  cases hStep with
  | send | cloneSender | dropSender | wait | lock => exact h
  | shutdown =>
      rcases h with hPending | hLeaving
      · exact Or.inl (Worker.pending_notify hPending)
      · exact Or.inr ((Worker.leaving_notify _).trans hLeaving)
  | enter hHere =>
      rw [Processor.set_workers]
      split
      · rename_i hi
        rw [hi, hHere] at h
        rcases h with hNo | hNo <;> cases hNo
      · exact h
  | receive hHere | tick hHere =>
      simp only [Processor.set_workers]
      split
      · -- at the select and not notified: neither alternative holds
        rename_i hi
        rw [Heeded, hi, show (p.workers _).pending = false from hHeeds, hHere] at h
        rcases h with hNo | hNo <;> cases hNo
      · exact h
  | closed =>
      rw [Processor.set_workers]
      split
      · exact Or.inr (Worker.leaving_onClosed _)
      · exact h
  | signal =>
      rw [Processor.set_workers]
      split
      · exact Or.inr (Worker.leaving_onShutdown _)
      · exact h
  | append env duration hHere hExec =>
      simp only [Processor.set_workers]
      split
      · rename_i hi
        rw [hi, hHere] at h
        exact h
      · exact h
  | reset hHere =>
      simp only [Processor.set_workers]
      split
      · rename_i hi
        rw [hi, hHere] at h
        rcases h with hNo | hLeaving
        · cases hNo
        · exact Or.inr (by rwa [Worker.leaving_onFlushed])
      · exact h

end Signal

/-- **When the signal is not missed**: if every worker that is still running is at
its select when `shutdown()` notifies, and no notified worker goes on with another
branch, then no worker that was running comes to its select without a signal; it
is notified there, or leaving. -/
theorem shutdown_heeded (C : Crates) (store : EventStore)
    (kindText : Bincode.ErrorKind → String) (config : BatchConfig) (n : Nat)
    (p q : Processor n)
    (hAt : ∀ i, p.workers i = .left ∨ (p.workers i).atSelect = true)
    (hRun : Run C store kindText config HeedsSignal p.shutdown q) :
    ∀ i, p.workers i ≠ .left → (q.workers i).deaf = false ∧
      ((q.workers i).pending = true ∨ (q.workers i).leaving = true) := by
  have hAll : ∀ i, Heeded (q.workers i) := by
    induction hRun with
    | refl => exact fun i => heeded_notify (hAt i)
    | tail _ hStep ih =>
        obtain ⟨action, hHeeds, hStep⟩ := hStep
        exact fun i => hStep.heeded hHeeds (ih i)
  exact fun i _ => ⟨(hAll i).not_deaf, hAll i⟩

/-- Two workers at their selects: the first one heeds the signal. -/
theorem shutdown_heeded_test :
    let started : Processor 2 := .start .empty 0
    let ready := (started.set 0 (.turn (EventBatch.new 0))).set 1 (.turn (EventBatch.new 0))
    ∃ q : Processor 2, q.workers 0 = .left ∧
      Run Crates.sample (new .default) (fun _ => "") .default HeedsSignal ready.shutdown q ∧
      (q.workers 1).deaf = false := by
  intro started ready
  have hStay (p : Processor 2) : Run Crates.sample (new .default) (fun _ => "") .default
      HeedsSignal p p := .refl
  have hRun := (hStay ready.shutdown).next (.signal (i := 0) rfl) trivial
  have hAt : ∀ i, (ready.workers i).atSelect = true := by decide
  exact ⟨_, rfl, hRun, (shutdown_heeded Crates.sample (new .default) (fun _ => "") .default 2
    ready _ (fun i => Or.inr (hAt i)) hRun 1 nofun).1⟩

/-- A worker is notified, but an envelope is ready too: it takes the envelope and
comes back to its select without a signal. -/
theorem shutdown_missed :
    ¬ ∀ (config : BatchConfig) (db : RocksDb) (now : Instant)
      (p q : Processor config.numProcessors),
      Run Crates.sample (new .default) (fun _ => "") config (fun _ _ => True)
        (.start db now) p →
      Run Crates.sample (new .default) (fun _ => "") config (fun _ _ => True) p.shutdown q →
      ∀ i, p.workers i ≠ .left → (q.workers i).deaf = false := by
  intro hAlways
  let e := createTestEnvelope ⟨Uuid.fromU128 1⟩ ⟨Uuid.fromU128 2⟩ DateTime.epoch
  let config : BatchConfig := { BatchConfig.default with numProcessors := 1 }
  let started : Processor 1 := .start .empty 0
  let sent : Processor 1 :=
    { started.set 0 (.turn (EventBatch.new 0)) with channel := [e], accepted := [e] }
  have hStay (p : Processor 1) : Run Crates.sample (new .default) (fun _ => "") config
      (fun _ _ => True) p p := .refl
  have hBefore : Run Crates.sample (new .default) (fun _ => "") config (fun _ _ => True)
      started sent :=
    ((hStay started).next (.enter (i := 0) rfl) trivial).next
      (.send e Nat.one_pos ⟨0, nofun⟩ (by decide)) trivial
  have hAfter := ((hStay sent.shutdown).next (.lock (i := 0) rfl rfl) trivial).next
    (.receive (i := 0) rfl rfl rfl) trivial
  cases hAlways config .empty 0 sent _ hBefore hAfter 0 nofun

end LedgerFS.Batch
