import LedgerFS.Batch.Processor

/-!
# The processor loses and repeats nothing

Seen from the envelopes the processor is a work queue (`view`): a send submits, a
receive takes, a flush that is accepted finishes a whole batch, and no other action
moves an envelope (`Step.effect`), not even a worker that drops its place at the
receiver.  Without faults and with fresh keys every flush is accepted.  So in every
state an accepted envelope is in one place, and the store holds what it held at the
start and the envelopes that are done (`Conserved`).
-/

namespace LedgerFS.Batch

open LedgerFS.Core
open LedgerFS.Library
open LedgerFS.EventStore

/-! ## The processor as a work queue -/

section View

variable {n : Nat}

/-- The envelopes of a processor, where `items` tells those of a worker. -/
def viewOf (items : Worker → List EventEnvelope) (p : Processor n) (done : List EventEnvelope) :
    WorkQueue (Fin n) EventEnvelope where
  accepted := p.accepted
  queue := p.channel
  held i := items (p.workers i)
  done := done

/-- The envelopes of a processor, with those that were flushed so far. -/
abbrev view (p : Processor n) (done : List EventEnvelope) : WorkQueue (Fin n) EventEnvelope :=
  viewOf Worker.held p done

section Items

variable (items : Worker → List EventEnvelope) (p : Processor n) {i : Fin n} {w : Worker}
  (done : List EventEnvelope)

theorem items_set (i : Fin n) (w : Worker) :
    (fun j => items ((p.set i w).workers j)) =
      Function.update (fun j => items (p.workers j)) i (items w) := by
  funext j
  rw [Processor.set_workers, Function.update_apply, apply_ite items]

/-- A worker that keeps its envelopes does not change the view. -/
theorem viewOf_set (hSame : items w = items (p.workers i)) :
    viewOf items (p.set i w) done = viewOf items p done := by
  have hItems : (fun j => items ((p.set i w).workers j)) = fun j => items (p.workers j) := by
    rw [items_set, hSame]
    exact Function.update_eq_self i fun j => items (p.workers j)
  unfold viewOf
  rw [hItems]
  rfl

/-- A worker takes the envelope at the front. -/
theorem viewOf_take {envelope : EventEnvelope} {rest : List EventEnvelope}
    (hFront : p.channel = envelope :: rest)
    (hTaken : items w = items (p.workers i) ++ [envelope]) :
    (viewOf items p done).Step
      (viewOf items { (p.release i).set i w with channel := rest } done) := by
  have hTake := WorkQueue.Step.take (viewOf items p done) i
    (show (viewOf items p done).queue = _ from hFront)
  have hItems := items_set items p i w
  rw [hTaken] at hItems
  unfold viewOf at hTake ⊢
  rw [← hItems] at hTake
  exact hTake

/-- A worker has done with its envelopes. -/
theorem viewOf_finish (hFree : items w = []) :
    (viewOf items p done).Step (viewOf items (p.set i w) (done ++ items (p.workers i))) := by
  have hFinish := WorkQueue.Step.finish (viewOf items p done) i
  have hItems := items_set items p i w
  rw [hFree] at hItems
  unfold viewOf at hFinish ⊢
  rw [← hItems] at hFinish
  exact hFinish

end Items

variable {C : Crates} {store : EventStore} {kindText : Bincode.ErrorKind → String}
  {config : BatchConfig} {action : Action n} {p q : Processor n}

/-- **What an action does** to the envelopes and the database: a send, an append,
or a step of the queue that leaves the database alone. -/
theorem Step.effect (hStep : Step C store kindText config action p q)
    (done : List EventEnvelope) :
    (∃ e, action = .send e ∧ q.accepted = p.accepted ++ [e] ∧ q.db = p.db ∧
        (view p done).Step (view q done)) ∨
      (∃ i env duration batch leaves, action = .append i env duration ∧
        p.workers i = .flushing batch leaves ∧ q.accepted = p.accepted ∧
        q.db = ((appendBatch C store config env batch.events).exec p.db).2 ∧
        (view p done).Step (view q (done ++ batch.events))) ∨
      (q.accepted = p.accepted ∧ q.db = p.db ∧
        (view q done = view p done ∨ (view p done).Step (view q done))) := by
  cases hStep with
  | send envelope hSender hOpen hRoom =>
      exact Or.inl ⟨envelope, rfl, rfl, rfl, WorkQueue.Step.submit (view p done) envelope⟩
  | cloneSender hSender => exact Or.inr (Or.inr ⟨rfl, rfl, Or.inl rfl⟩)
  | dropSender hSender => exact Or.inr (Or.inr ⟨rfl, rfl, Or.inl rfl⟩)
  | wait nanos => exact Or.inr (Or.inr ⟨rfl, rfl, Or.inl rfl⟩)
  | enter hHere =>
      refine Or.inr (Or.inr ⟨rfl, rfl, Or.inl (viewOf_set _ p done ?_)⟩)
      rw [hHere]
      rfl
  | lock hHere hFree => exact Or.inr (Or.inr ⟨rfl, rfl, Or.inl rfl⟩)
  | @receive _ i batch signalled envelope rest hHere hLock hFront =>
      refine Or.inr (Or.inr ⟨rfl, rfl, Or.inr (viewOf_take _ p done hFront ?_)⟩)
      rw [Worker.held_onReceive, hHere]
      rfl
  | closed hHere hLock hEmpty hClosed =>
      refine Or.inr (Or.inr ⟨rfl, rfl, Or.inl (viewOf_set _ (p.release _) done ?_)⟩)
      rw [Worker.held_onClosed, Processor.release_workers, hHere]
      rfl
  | tick hHere =>
      refine Or.inr (Or.inr ⟨rfl, rfl, Or.inl (viewOf_set _ (p.release _) done ?_)⟩)
      rw [Worker.held_onTick, Processor.release_workers, hHere]
      rfl
  | signal hHere =>
      refine Or.inr (Or.inr ⟨rfl, rfl, Or.inl (viewOf_set _ (p.release _) done ?_)⟩)
      rw [Worker.held_onShutdown, Processor.release_workers, hHere]
      rfl
  | @append _ i batch leaves env duration hHere result db hExec =>
      refine Or.inr (Or.inl ⟨i, env, duration, batch, leaves, rfl, hHere, rfl, ?_, ?_⟩)
      · rw [hExec]
      · have hFinish := viewOf_finish Worker.held p done (i := i)
          (show (Worker.flushed batch result duration leaves).held = [] from rfl)
        rw [hHere] at hFinish
        exact hFinish
  | reset hHere =>
      refine Or.inr (Or.inr ⟨rfl, rfl, Or.inl (viewOf_set _ p done ?_)⟩)
      rw [Worker.held_onFlushed, hHere]
      rfl
  | shutdown =>
      refine Or.inr (Or.inr ⟨rfl, rfl, Or.inl ?_⟩)
      unfold view viewOf Processor.shutdown
      simp only [Worker.held_notify]

end View

/-! ## Runs without faults -/

/-- No fault of the database. -/
def NoFault (env : CallEnv) : Prop :=
  (∀ key, env.getFault key = none) ∧ env.writeFault = none

section Quiet

variable {n : Nat}

/-- No shutdown, no fault, and no key twice. -/
def Quiet (initial : Contents) (p : Processor n) : Action n → Prop
  | .send e => initial[generateEventKey e]? = none ∧
      generateEventKey e ∉ p.accepted.map generateEventKey
  | .append _ env _ => NoFault env
  | .shutdown => False
  | _ => True

variable (C : Crates) (store : EventStore)

/-- Envelopes are conserved, their keys are distinct and fresh, and the database
holds the initial records and those of the envelopes that are done. -/
structure Conserved (initial : Contents) (p : Processor n) (done : List EventEnvelope) :
    Prop where
  conserves : (view p done).Conserves
  distinct : (p.accepted.map generateEventKey).Nodup
  fresh : ∀ e ∈ p.accepted, initial[generateEventKey e]? = none
  contents : ∀ k v : Bytes, p.db.contents[k]? = some v ↔
    initial[k]? = some v ∨ ∃ e ∈ done, IsRecord C store e (k, v)

variable {C store} {initial : Contents} {p q : Processor n} {done : List EventEnvelope}

/-- A key of an accepted envelope that is not done is free. -/
theorem Conserved.free (h : Conserved C store initial p done) {e : EventEnvelope}
    (he : e ∈ p.accepted) (hNot : e ∉ done) : p.db.contents[generateEventKey e]? = none := by
  by_contra hTaken
  obtain ⟨value, hValue⟩ := Option.ne_none_iff_exists'.mp hTaken
  rcases (h.contents _ _).mp hValue with hOld | ⟨f, hf, hRecord⟩
  · cases (h.fresh e he).symm.trans hOld
  · have hSame : f = e := List.inj_on_of_nodup_map h.distinct
      (h.conserves.accepted_of_done hf) he hRecord.1.symm
    exact hNot (hSame ▸ hf)

/-- **A flush is accepted.** -/
theorem Conserved.append (hEncodes : C.Lz4Encodes) (h : Conserved C store initial p done)
    {config : BatchConfig} {env : CallEnv} (hEnv : NoFault env) {i : Fin n}
    {events : List EventEnvelope} (hHeld : (p.workers i).held = events) (k v : Bytes) :
    (RocksDb.contents ((appendBatch C store config env events).exec p.db).2)[k]? = some v ↔
      initial[k]? = some v ∨ ∃ e ∈ done ++ events, IsRecord C store e (k, v) := by
  by_cases hNil : events = []
  · subst hNil
    have hSame : ((appendBatch C store config env []).exec p.db).2 = p.db := by
      unfold appendBatch
      split <;> rfl
    rw [hSame, List.append_nil]
    exact h.contents k v
  · have hNodup := h.distinct.of_map
    have hMem (e : EventEnvelope) (he : e ∈ events) : e ∈ p.accepted ∧ e ∉ done := by
      have heHeld : e ∈ (view p done).held i := by
        show e ∈ (p.workers i).held
        rw [hHeld]
        exact he
      exact ⟨h.conserves.accepted_of_held heHeld, h.conserves.not_mem_done hNodup heHeld⟩
    have hFree : ∀ e ∈ events, KeyIsFree env p.db.contents e := fun e he =>
      ⟨hEnv.1 _, h.free (hMem e he).1 (hMem e he).2⟩
    have hKeys : (events.map generateEventKey).Nodup := by
      have hEvents : events.Nodup := by
        rw [← hHeld]
        exact h.conserves.nodup_held hNodup i
      refine hEvents.map_on ?_
      intro e he f hf hKey
      exact List.inj_on_of_nodup_map h.distinct (hMem e he).1 (hMem f hf).1 hKey
    obtain ⟨batch, hAccepts⟩ := exists_accepts C store env hEncodes p.db.contents events hFree
      hEnv.2
    have hAppends : Appends C store env events _ _ := appendBatch_appends config env hNil
    rcases hAppends p.db with ⟨batch, result, hAccepts, hExec⟩ | ⟨hNone, -⟩
    · rw [hExec, RocksDb.contents_write, hAccepts.get_iff hKeys, h.contents k v]
      simp only [List.mem_append, or_and_right, exists_or, or_assoc]
    · exact absurd hAccepts (hNone batch)

variable {kindText : Bincode.ErrorKind → String} {config : BatchConfig}

/-- **Step**. -/
theorem Conserved.step (hEncodes : C.Lz4Encodes) (h : Conserved C store initial p done)
    {action : Action n} (hQuiet : Quiet initial p action)
    (hStep : Step C store kindText config action p q) :
    ∃ done', Conserved C store initial q done' := by
  rcases hStep.effect done with ⟨e, rfl, hAccepted, hDb, hMove⟩ |
    ⟨i, env, duration, batch, leaves, rfl, hHere, hAccepted, hDb, hMove⟩ |
    ⟨hAccepted, hDb, hMove⟩
  · obtain ⟨hFresh, hNew⟩ : Quiet initial p (.send e) := hQuiet
    refine ⟨done, hMove.conserves h.conserves, ?_, ?_, hDb ▸ h.contents⟩
    · rw [hAccepted, List.map_append, List.map_singleton]
      exact List.nodup_append'.mpr ⟨h.distinct, List.nodup_singleton _, by simpa using hNew⟩
    · rw [hAccepted]
      intro f hf
      rcases List.mem_append.mp hf with hOld | hHere
      · exact h.fresh f hOld
      · rw [List.mem_singleton.mp hHere]
        exact hFresh
  · have hEnv : NoFault env := hQuiet
    refine ⟨done ++ batch.events, hMove.conserves h.conserves, ?_, ?_, ?_⟩
    · rw [hAccepted]
      exact h.distinct
    · rw [hAccepted]
      exact h.fresh
    · rw [hDb]
      exact h.append hEncodes hEnv (by rw [hHere]; rfl)
  · refine ⟨done, ?_, ?_, ?_, ?_⟩
    · rcases hMove with hSame | hMove
      · rw [hSame]
        exact h.conserves
      · exact hMove.conserves h.conserves
    · rw [hAccepted]
      exact h.distinct
    · rw [hAccepted]
      exact h.fresh
    · rw [hDb]
      exact h.contents

variable (C store) in
theorem conserved_start (db : RocksDb) (now : Instant) :
    Conserved C store db.contents (Processor.start db now : Processor n) [] where
  conserves := WorkQueue.conserves_empty
  distinct := List.nodup_nil
  fresh := by simp [Processor.start]
  contents := by simp [Processor.start]

/-- **Run**. -/
theorem Conserved.run (hEncodes : C.Lz4Encodes) (h : Conserved C store initial p done)
    (hRun : Run C store kindText config (Quiet initial) p q) :
    ∃ done', Conserved C store initial q done' := by
  induction hRun with
  | refl => exact ⟨done, h⟩
  | tail _ hStep ih =>
      obtain ⟨done', hMid⟩ := ih
      obtain ⟨action, hQuiet, hStep⟩ := hStep
      exact hMid.step hEncodes hQuiet hStep

/-- An accepted envelope is stored when it is done. -/
theorem Conserved.holds_iff (hEncodes : C.Lz4Encodes) (h : Conserved C store initial p done)
    {e : EventEnvelope} (he : e ∈ p.accepted) :
    Holds C store p.db.contents e ↔ e ∈ done := by
  constructor
  · rintro ⟨value, -, hGet⟩
    by_contra hNot
    cases (h.free he hNot).symm.trans hGet
  · intro hDone
    obtain ⟨value, hValue⟩ := store.serializer.serialize_ok hEncodes e
    exact ⟨value, hValue, (h.contents _ _).mpr (Or.inr ⟨e, hDone, rfl, hValue⟩)⟩

/-- What a state tells about the envelopes: each accepted one is once in the
channel or in one batch, or it is in the store and nowhere else; and the store has
no other records than the initial ones and theirs. -/
theorem Conserved.places (hEncodes : C.Lz4Encodes) (h : Conserved C store initial p done) :
    (∀ e ∈ p.accepted,
      (p.channel.count e + ∑ i, (p.workers i).held.count e = 1 ∧
          ¬ Holds C store p.db.contents e) ∨
        (p.channel.count e + ∑ i, (p.workers i).held.count e = 0 ∧
          Holds C store p.db.contents e)) ∧
      ∀ k v : Bytes, p.db.contents[k]? = some v →
        initial[k]? = some v ∨ ∃ e ∈ p.accepted, IsRecord C store e (k, v) := by
  constructor
  · intro e he
    have hOnce : p.channel.count e + ∑ i, (p.workers i).held.count e + done.count e = 1 :=
      h.conserves.placedOnce h.distinct.of_map he
    rw [h.holds_iff hEncodes he, ← List.count_pos_iff]
    omega
  · intro k v hGet
    rcases (h.contents k v).mp hGet with hOld | ⟨e, he, hRecord⟩
    · exact Or.inl hOld
    · exact Or.inr ⟨e, h.conserves.accepted_of_done he, hRecord⟩

/-- With an empty channel and no batch the store has all records. -/
theorem Conserved.contents_of_idle (h : Conserved C store initial p done)
    (hChannel : p.channel = []) (hIdle : ∀ i, (p.workers i).held = []) (k v : Bytes) :
    p.db.contents[k]? = some v ↔
      initial[k]? = some v ∨ ∃ e ∈ p.accepted, IsRecord C store e (k, v) := by
  have hDone {e : EventEnvelope} (he : e ∈ p.accepted) : e ∈ done :=
    (h.conserves.mem_done_iff h.distinct.of_map hIdle he).mpr (by simp [viewOf, hChannel])
  rw [h.contents k v]
  constructor
  · rintro (hOld | ⟨e, he, hRecord⟩)
    · exact Or.inl hOld
    · exact Or.inr ⟨e, h.conserves.accepted_of_done he, hRecord⟩
  · rintro (hOld | ⟨e, he, hRecord⟩)
    · exact Or.inl hOld
    · exact Or.inr ⟨e, hDone he, hRecord⟩

/-! ## Runs without a shutdown -/

/-- No signal is pending, and a worker leaves only after the channel is closed. -/
structure Undisturbed (p : Processor n) : Prop where
  unsignalled : ∀ i, (p.workers i).pending = false
  closed : ∀ i, (p.workers i).leaving = true → p.channel = [] ∧ p.senders = 0

theorem undisturbed_start (db : RocksDb) (now : Instant) :
    Undisturbed (Processor.start db now : Processor n) where
  unsignalled _ := rfl
  closed _ hLeaving := by cases hLeaving

theorem Undisturbed.step (h : Undisturbed p) {action : Action n}
    (hQuiet : Quiet initial p action) (hStep : Step C store kindText config action p q) :
    Undisturbed q := by
  constructor
  · intro i
    by_contra hPending
    rw [Bool.not_eq_false] at hPending
    rcases hStep.pending_cases hPending with hBefore | rfl
    · rw [h.unsignalled i] at hBefore
      cases hBefore
    · exact hQuiet
  · intro i hLeaving
    apply hStep.closed_stays
    rcases hStep.leaving_cases hLeaving with hBefore | hClosed | ⟨-, hPending⟩
    · exact h.closed i hBefore
    · exact hClosed
    · rw [h.unsignalled i] at hPending
      cases hPending

theorem Undisturbed.run (h : Undisturbed p)
    (hRun : Run C store kindText config (Quiet initial) p q) : Undisturbed q := by
  induction hRun with
  | refl => exact h
  | tail _ hStep ih =>
      obtain ⟨action, hQuiet, hStep⟩ := hStep
      exact ih.step hQuiet hStep

/-- Workers that have left hold nothing. -/
theorem held_of_allLeft (hLeft : p.AllLeft) (i : Fin n) : (p.workers i).held = [] := by
  rw [hLeft i]
  rfl

end Quiet

/-- **No event is lost or repeated**: in every state of a run each accepted envelope
is in exactly one of the channel, a batch of one worker, and the store; and when all
workers have left, the store is the initial one with the records of all accepted
envelopes, whatever the interleaving was. -/
theorem batches_conserved (C : Crates) (hEncodes : C.Lz4Encodes) (store : EventStore)
    (kindText : Bincode.ErrorKind → String) (config : BatchConfig)
    (hWorkers : 0 < config.numProcessors) (db : RocksDb) (now : Instant)
    (p : Processor config.numProcessors)
    (hRun : Run C store kindText config (Quiet db.contents) (.start db now) p) :
    (∀ e ∈ p.accepted,
      (p.channel.count e + ∑ i, (p.workers i).held.count e = 1 ∧
          ¬ Holds C store p.db.contents e) ∨
        (p.channel.count e + ∑ i, (p.workers i).held.count e = 0 ∧
          Holds C store p.db.contents e)) ∧
      (∀ k v : Bytes, p.db.contents[k]? = some v →
        db.contents[k]? = some v ∨ ∃ e ∈ p.accepted, IsRecord C store e (k, v)) ∧
      (p.AllLeft →
        (∀ k v : Bytes, p.db.contents[k]? = some v ↔
          db.contents[k]? = some v ∨ ∃ e ∈ p.accepted, IsRecord C store e (k, v)) ∧
        ∀ (now' : Instant) (q : Processor config.numProcessors),
          Run C store kindText config (Quiet db.contents) (.start db now') q → q.AllLeft →
            q.accepted.Perm p.accepted → q.db.contents = p.db.contents) := by
  have hAtEnd {now : Instant} {q : Processor config.numProcessors}
      (hRun : Run C store kindText config (Quiet db.contents) (.start db now) q)
      (hLeft : q.AllLeft) (k v : Bytes) : q.db.contents[k]? = some v ↔
        db.contents[k]? = some v ∨ ∃ e ∈ q.accepted, IsRecord C store e (k, v) := by
    obtain ⟨done, hInv⟩ := (conserved_start C store db now).run hEncodes hRun
    have hClosed := ((undisturbed_start db now).run hRun).closed ⟨0, hWorkers⟩
      (by rw [hLeft]; rfl)
    exact hInv.contents_of_idle hClosed.1 (held_of_allLeft hLeft) k v
  obtain ⟨done, hInv⟩ := (conserved_start C store db now).run hEncodes hRun
  obtain ⟨hPlaces, hOnly⟩ := hInv.places hEncodes
  refine ⟨hPlaces, hOnly, fun hLeft => ⟨hAtEnd hRun hLeft, ?_⟩⟩
  intro now' q hOther hOtherLeft hPerm
  apply Std.ExtTreeMap.ext_getElem?
  intro k
  rw [Option.ext_iff]
  intro v
  rw [hAtEnd hOther hOtherLeft k v, hAtEnd hRun hLeft k v]
  simp only [hPerm.mem_iff]

/-- One worker with batches of one event. -/
def oneWorker : BatchConfig :=
  { BatchConfig.default with maxBatchSize := 1, numProcessors := 1 }

theorem allLeft_of_oneWorker {p : Processor 1} (hLeft : p.workers 0 = .left) : p.AllLeft := by
  intro i
  obtain rfl : i = 0 := Subsingleton.elim i 0
  exact hLeft

/-- Two of them. -/
def twoWorkers : BatchConfig := { oneWorker with numProcessors := 2 }

/-- Two events and two workers: the one that received the later event flushes first.  Then the
sender is dropped. -/
theorem batches_conserved_test :
    let e := createTestEnvelope ⟨Uuid.fromU128 1⟩ ⟨Uuid.fromU128 2⟩ DateTime.epoch
    let f := createTestEnvelope ⟨Uuid.fromU128 1⟩ ⟨Uuid.fromU128 3⟩ DateTime.epoch
    ∃ p : Processor 2,
      Run Crates.sample (new .default) (fun _ => "") twoWorkers
        (Quiet RocksDb.empty.contents) (.start .empty 0) p ∧
      p.AllLeft ∧ p.accepted = [e, f] ∧
      Holds Crates.sample (new .default) p.db.contents e ∧
      Holds Crates.sample (new .default) p.db.contents f := by
  intro e f
  have hStart : Run Crates.sample (new .default) (fun _ => "") twoWorkers
      (Quiet RocksDb.empty.contents) (.start .empty 0 : Processor 2) (.start .empty 0) := .refl
  have hEntered := (hStart.next (.enter (i := 0) rfl) trivial).next (.enter (i := 1) rfl) trivial
  have hNew : generateEventKey f ∉ [generateEventKey e] := by decide
  have hSent := (hEntered.next (.send e Nat.one_pos ⟨0, nofun⟩ (by decide))
    ⟨rfl, List.not_mem_nil⟩).next (.send f Nat.one_pos ⟨0, nofun⟩ (by decide)) ⟨rfl, hNew⟩
  have hReceived := (((hSent.next (.lock (i := 0) rfl rfl) trivial).next
    (.receive (i := 0) rfl rfl rfl) trivial).next (.lock (i := 1) rfl rfl) trivial).next
    (.receive (i := 1) rfl rfl rfl) trivial
  obtain ⟨result, db, hExec⟩ : ∃ result db, (appendBatch Crates.sample (new .default) twoWorkers
      .quiet [f]).exec .empty = (result, db) := ⟨_, _, rfl⟩
  obtain ⟨result', db', hExec'⟩ : ∃ result db', (appendBatch Crates.sample (new .default)
      twoWorkers .quiet [e]).exec db = (result, db') := ⟨_, _, rfl⟩
  have hFlushed := (((hReceived.next (.append (i := 1) .quiet 0 rfl hExec)
    ⟨fun _ => rfl, rfl⟩).next (.append (i := 0) .quiet 0 rfl hExec') ⟨fun _ => rfl, rfl⟩).next
    (.reset (i := 0) rfl) trivial).next (.reset (i := 1) rfl) trivial
  have hEnd := ((((hFlushed.next (.dropSender Nat.one_pos) trivial).next
    (.lock (i := 0) rfl rfl) trivial).next (.closed (i := 0) rfl rfl rfl rfl) trivial).next
    (.lock (i := 1) rfl rfl) trivial).next (.closed (i := 1) rfl rfl rfl rfl) trivial
  obtain ⟨p, hRun, hLeft, hAccepted, hChannel⟩ : ∃ p : Processor 2,
      Run Crates.sample (new .default) (fun _ => "") twoWorkers (Quiet RocksDb.empty.contents)
        (.start .empty 0) p ∧ p.AllLeft ∧ p.accepted = [e, f] ∧ p.channel = [] :=
    ⟨_, hEnd, Fin.forall_fin_two.mpr ⟨rfl, rfl⟩, rfl, rfl⟩
  obtain ⟨hPlaces, -, -⟩ := batches_conserved Crates.sample Crates.sample_lz4Encodes
    (new .default) (fun _ => "") twoWorkers Nat.two_pos .empty 0 p hRun
  have hStored : ∀ g ∈ [e, f], Holds Crates.sample (new .default) p.db.contents g := by
    intro g hg
    have hNone : p.channel.count g + ∑ i, (p.workers i).held.count g = 0 := by
      simp [hChannel, held_of_allLeft hLeft]
    rcases hPlaces g (hAccepted ▸ hg) with ⟨hCount, -⟩ | ⟨-, hHolds⟩
    · exact absurd (hNone.symm.trans hCount) Nat.zero_ne_one
    · exact hHolds
  exact ⟨p, hRun, hLeft, hAccepted, hStored e (by simp), hStored f (by simp)⟩

end LedgerFS.Batch
