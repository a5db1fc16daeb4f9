import LedgerFS.EventStore.Runs
import LedgerFS.Library.GuardedCalls

/-!
# Concurrent calls of one store

The methods of `store.rs` as they interleave: each is a tree of atomic steps on
the database, a `db.get`, a step of an iterator or the final write, taken under
`write_lock`.  Run by itself every tree is the method of `Store` (`exec_body`),
so the linearization of the lock's calls carries over
(`concurrentCalls_linearize`).

An iterator is asked for as many items as there are when it is made, and takes
each from the database as it is by then.  RocksDB promises more, a snapshot;
here it is the lock alone that keeps the items of one scan together.
-/

namespace LedgerFS.EventStore

open LedgerFS.Core
open LedgerFS.Library

/-- Statements of a method that interleaves with others. -/
abbrev LockedM : Type → Type := ExceptT EventStoreError (Steps RocksDb)

namespace LockedM

variable {α β : Type}

/-- A statement on the database, as one atomic step. -/
def atomically (x : StoreM α) : LockedM α :=
  ExceptT.mk (.step (fun db => (x.exec db).2) fun db => .done (x.exec db).1)

/-- A look at the database. -/
def observe (f : RocksDb → α) : LockedM α :=
  ExceptT.mk (.step (fun db => db) fun db => .done (.ok (f db)))

/-- `?` on a result. -/
def returned : Except EventStoreError α → LockedM α
  | .ok a => pure a
  | .error error => throw error

/-- Run by itself, the steps are the method. -/
def Runs (x : LockedM α) (y : StoreM α) : Prop := ∀ db, x.run.exec db = y.exec db

end LockedM

section Methods

variable (C : Crates) (store : EventStore) (env : CallEnv)

/-- `append_event`. -/
def appendEventSteps (envelope : EventEnvelope) : LockedM Unit := do
  let key := generateEventKey envelope
  let existing ← LockedM.atomically (env.get key)
  if existing.isSome then
    throw (alreadyExists C key)
  else do
    let value ← LockedM.returned
      ((store.serializer.serialize C envelope).mapError .serializationError)
    LockedM.atomically (env.putOpt key value store.config.syncWrites)

/-- The loop of `append_events`. -/
def prepareBatchSteps : List EventEnvelope → WriteBatch → LockedM WriteBatch
  | [], batch => pure batch
  | envelope :: envelopes, batch => do
      let key := generateEventKey envelope
      let existing ← LockedM.atomically (env.get key)
      if existing.isSome then
        throw (alreadyExists C key)
      else do
        let value ← LockedM.returned
          ((store.serializer.serialize C envelope).mapError .serializationError)
        prepareBatchSteps envelopes (batch ++ [(key, value)])

/-- `append_events`, after the test for an empty list. -/
def appendEventsSteps (envelopes : List EventEnvelope) : LockedM Unit := do
  let batch ← prepareBatchSteps C store env envelopes []
  LockedM.atomically (env.writeOpt batch store.config.syncWrites)

/-- The first loop of `append_events_optimized`. -/
def validateKeysSteps : List EventEnvelope → LockedM Unit
  | [] => pure ()
  | envelope :: envelopes => do
      let key := generateEventKey envelope
      let existing ← LockedM.atomically (env.get key)
      if existing.isSome then
        throw (alreadyExists C key)
      else
        validateKeysSteps envelopes

/-- The second loop; it does not touch the database. -/
def serializeBatchSteps : List EventEnvelope → WriteBatch → Nat → LockedM (WriteBatch × Nat)
  | [], batch, totalBytes => pure (batch, totalBytes)
  | envelope :: envelopes, batch, totalBytes => do
      let key := generateEventKey envelope
      let value ← LockedM.returned
        ((store.serializer.serialize C envelope).mapError .serializationError)
      serializeBatchSteps envelopes (batch ++ [(key, value)])
        (totalBytes + (key.length + value.length))

/-- `append_events_optimized`, after the test for an empty list. -/
def appendEventsOptimizedSteps (envelopes : List EventEnvelope) : LockedM AppendResult := do
  validateKeysSteps C env envelopes
  let (batch, totalBytes) ← serializeBatchSteps C store envelopes [] 0
  let sync := if envelopes.length > 100 then false else store.config.syncWrites
  LockedM.atomically (env.writeOpt batch sync)
  pure
    { eventsWritten := envelopes.length
      bytesWritten := totalBytes
      writeDuration := env.elapsed }

/-- The scan of `get_event`: so many items from the `n`-th on. -/
def findEventSteps (eventId : EventId) : Nat → Nat → LockedM (Option EventEnvelope)
  | 0, _ => pure none
  | left + 1, n => do
      let item ← LockedM.observe fun db => (db.iterator env .start)[n]?
      match item with
      | none => pure none
      | some item => do
          let envelope ← LockedM.returned (decodeItem C store env item)
          if envelope.eventId = eventId then pure (some envelope)
          else findEventSteps eventId left (n + 1)

/-- `get_event`. -/
def getEventSteps (eventId : EventId) : LockedM (Option EventEnvelope) := do
  let left ← LockedM.observe fun db => (db.iterator env .start).length
  findEventSteps C store env eventId left 0

/-- The scan of `query_events`. -/
def queryLoopSteps (mode : IteratorMode) (query : EventQuery) (limit offset : Nat) :
    Nat → Nat → List EventEnvelope → Nat → LockedM (List EventEnvelope)
  | 0, _, events, _ => pure events
  | left + 1, n, events, count => do
      let item ← LockedM.observe fun db => (db.iterator env mode)[n]?
      match item with
      | none => pure events
      | some item => do
          let envelope ← LockedM.returned (decodeItem C store env item)
          if query.accountId.any fun a => !eventMatchesAccount envelope a then
            queryLoopSteps mode query limit offset left (n + 1) events count
          else if query.endTime.any fun t => envelope.timestamp > t then
            pure events
          else if query.eventTypes.any fun types => !types.contains envelope.eventType then
            queryLoopSteps mode query limit offset left (n + 1) events count
          else if count < offset then
            queryLoopSteps mode query limit offset left (n + 1) events (count + 1)
          else if events.length ≥ limit then
            pure events
          else
            queryLoopSteps mode query limit offset left (n + 1) (events ++ [envelope])
              (count + 1)

/-- `query_events`. -/
def queryEventsSteps (query : EventQuery) : LockedM EventQueryResult := do
  let limit := query.limit.getD 1000
  let offset := query.offset.getD 0
  let mode :=
    match query.startTime with
    | some startTime => IteratorMode.from (generateTimeKeyPrefix startTime)
    | none => IteratorMode.start
  let left ← LockedM.observe fun db => (db.iterator env mode).length
  let events ← queryLoopSteps C store env mode query limit offset left 0 [] 0
  pure
    { events := events
      totalCount := none
      hasMore := events.length = limit }

end Methods

/-! ## Each method by itself -/

namespace LockedM

variable {α β : Type}

theorem exec_bind (x : LockedM α) (f : α → LockedM β) (db : RocksDb) :
    (x >>= f).run.exec db =
      match x.run.exec db with
      | (.ok a, db') => (f a).run.exec db'
      | (.error error, db') => (.error error, db') := by
  show (x.run >>= ExceptT.bindCont f : Steps RocksDb _).exec db = _
  rw [Steps.exec_bind]
  rcases x.run.exec db with ⟨_ | _, db'⟩ <;> rfl

theorem exec_observe (f : RocksDb → α) (g : α → LockedM β) (db : RocksDb) :
    (observe f >>= g).run.exec db = (g (f db)).run.exec db := rfl

theorem exec_returned (result : Except EventStoreError α) (f : α → LockedM β) (db : RocksDb) :
    (returned result >>= f).run.exec db =
      match result with
      | .ok a => (f a).run.exec db
      | .error error => (.error error, db) := by
  cases result <;> rfl

theorem Runs.bind {x : LockedM α} {y : StoreM α} {f : α → LockedM β} {g : α → StoreM β}
    (h : Runs x y) (hNext : ∀ a, Runs (f a) (g a)) : Runs (x >>= f) (y >>= g) := by
  intro db
  rw [exec_bind, StoreM.exec_bind, h db]
  rcases y.exec db with ⟨error | a, db'⟩
  · rfl
  · exact hNext a db'

theorem runs_pure (a : α) : Runs (pure a) (pure a) := fun _ => rfl

theorem runs_throw (error : EventStoreError) : Runs (throw error : LockedM α) (throw error) :=
  fun _ => rfl

theorem runs_atomically (x : StoreM α) : Runs (atomically x) x := fun _ => rfl

theorem runs_serialized (result : Except SerializationError α) :
    Runs (returned (result.mapError .serializationError)) (StoreM.serialized result) := by
  intro db
  cases result <;> rfl

theorem Runs.ite {p : Prop} [Decidable p] {x x' : LockedM α} {y y' : StoreM α}
    (h : Runs x y) (h' : Runs x' y') : Runs (if p then x else x') (if p then y else y') := by
  by_cases hp : p
  · rw [if_pos hp, if_pos hp]
    exact h
  · rw [if_neg hp, if_neg hp]
    exact h'

end LockedM

section Methods

variable (C : Crates) (store : EventStore) (env : CallEnv)

open LockedM

theorem appendEventSteps_runs (envelope : EventEnvelope) :
    Runs (appendEventSteps C store env envelope) (store.appendEvent C env envelope) :=
  (runs_atomically _).bind fun _ => .ite (runs_throw _)
    ((runs_serialized _).bind fun _ => runs_atomically _)

theorem prepareBatchSteps_runs (envelopes : List EventEnvelope) (batch : WriteBatch) :
    Runs (prepareBatchSteps C store env envelopes batch)
      (prepareBatch C store env envelopes batch) := by
  induction envelopes generalizing batch with
  | nil => exact runs_pure batch
  | cons envelope envelopes ih =>
      exact (runs_atomically _).bind fun _ => .ite (runs_throw _)
        ((runs_serialized _).bind fun _ => ih _)

theorem appendEventsSteps_runs {envelopes : List EventEnvelope} (hSome : envelopes ≠ []) :
    Runs (appendEventsSteps C store env envelopes) (store.appendEvents C env envelopes) := by
  rw [appendEvents, if_neg (by simpa using hSome)]
  exact (prepareBatchSteps_runs C store env envelopes []).bind fun _ => runs_atomically _

theorem validateKeysSteps_runs (envelopes : List EventEnvelope) :
    Runs (validateKeysSteps C env envelopes) (validateKeys C env envelopes) := by
  induction envelopes with
  | nil => exact runs_pure ()
  | cons envelope envelopes ih =>
      exact (runs_atomically _).bind fun _ => .ite (runs_throw _) ih

theorem serializeBatchSteps_runs (envelopes : List EventEnvelope) (batch : WriteBatch)
    (totalBytes : Nat) :
    Runs (serializeBatchSteps C store envelopes batch totalBytes)
      (serializeBatch C store envelopes batch totalBytes) := by
  induction envelopes generalizing batch totalBytes with
  | nil => exact runs_pure (batch, totalBytes)
  | cons envelope envelopes ih => exact (runs_serialized _).bind fun _ => ih _ _

theorem appendEventsOptimizedSteps_runs {envelopes : List EventEnvelope}
    (hSome : envelopes ≠ []) :
    Runs (appendEventsOptimizedSteps C store env envelopes)
      (store.appendEventsOptimized C env envelopes) := by
  rw [appendEventsOptimized, if_neg (by simpa using hSome)]
  exact (validateKeysSteps_runs C env envelopes).bind fun _ =>
    (serializeBatchSteps_runs C store envelopes [] 0).bind fun _ =>
      (runs_atomically _).bind fun _ => runs_pure _

/-- An item that is there, and those after it. -/
theorem drop_eq_of_left {γ : Type} {items : List γ} {left n : Nat}
    (h : items.length = n + (left + 1)) :
    ∃ item, items[n]? = some item ∧ items.drop n = item :: items.drop (n + 1) := by
  have hn : n < items.length := by omega
  exact ⟨items[n], List.getElem?_eq_getElem hn, List.drop_eq_getElem_cons hn⟩

/-- The scan of `get_event` on a database that nobody changes. -/
theorem findEventSteps_exec (eventId : EventId) (db : RocksDb) (left n : Nat)
    (h : (db.iterator env .start).length = n + left) :
    (findEventSteps C store env eventId left n).run.exec db =
      (findEvent C store env eventId ((db.iterator env .start).drop n), db) := by
  induction left generalizing n with
  | zero =>
      rw [List.drop_of_length_le (by omega)]
      rfl
  | succ left ih =>
      obtain ⟨item, hItem, hDrop⟩ := drop_eq_of_left h
      rw [hDrop, findEvent, findEventSteps, exec_observe, hItem]
      show (returned (decodeItem C store env item) >>= _ : LockedM _).run.exec db = _
      rw [exec_returned]
      cases decodeItem C store env item with
      | error error => rfl
      | ok envelope =>
          show (if envelope.eventId = eventId then pure (some envelope)
            else findEventSteps C store env eventId left (n + 1) : LockedM _).run.exec db =
              (if envelope.eventId = eventId then .ok (some envelope)
                else findEvent C store env eventId _, db)
          by_cases hId : envelope.eventId = eventId
          · rw [if_pos hId, if_pos hId]
            rfl
          · rw [if_neg hId, if_neg hId]
            exact ih (n + 1) (by omega)

theorem getEventSteps_runs (eventId : EventId) :
    Runs (getEventSteps C store env eventId)
      (StoreM.reading (store.getEvent C env eventId)) := by
  intro db
  rw [getEventSteps, exec_observe, findEventSteps_exec C store env eventId db _ 0 (by simp)]
  rfl

/-- The scan of `query_events` on a database that nobody changes. -/
theorem queryLoopSteps_exec (mode : IteratorMode) (query : EventQuery) (limit offset : Nat)
    (db : RocksDb) (left n : Nat) (events : List EventEnvelope) (count : Nat)
    (h : (db.iterator env mode).length = n + left) :
    (queryLoopSteps C store env mode query limit offset left n events count).run.exec db =
      (queryLoop C store env query limit offset ((db.iterator env mode).drop n) events count,
        db) := by
  induction left generalizing n events count with
  | zero =>
      rw [List.drop_of_length_le (by omega)]
      rfl
  | succ left ih =>
      obtain ⟨item, hItem, hDrop⟩ := drop_eq_of_left h
      rw [hDrop, queryLoop, queryLoopSteps, exec_observe, hItem]
      show (returned (decodeItem C store env item) >>= _ : LockedM _).run.exec db = _
      rw [exec_returned]
      have hNext := fun events count => ih (n + 1) events count (by omega)
      cases decodeItem C store env item with
      | error error => rfl
      | ok envelope =>
          -- the two loops branch alike, so every branch is one of these
          simp only [apply_ite (fun x : LockedM _ => x.run.exec db), hNext]
          simp only [bind, Except.bind]
          split_ifs <;> rfl

theorem queryEventsSteps_runs (query : EventQuery) :
    Runs (queryEventsSteps C store env query)
      (StoreM.reading (store.queryEvents C env query)) := by
  intro db
  rw [queryEventsSteps, exec_observe, exec_bind,
    queryLoopSteps_exec C store env _ query _ _ db _ 0 [] 0 (by simp)]
  rw [List.drop_zero]
  show _ = (store.queryEvents C env query db, db)
  rw [queryEvents]
  cases queryLoop C store env query (query.limit.getD 1000) (query.offset.getD 0)
    (db.iterator env _) [] 0 with
  | ok events => rfl
  | error error => rfl

end Methods

/-! ## The reads change nothing -/

namespace LockedM

variable {α β : Type}

/-- No step of the method changes the database. -/
def ReadOnly (x : LockedM α) : Prop := x.run.ReadOnly

theorem ReadOnly.bind {x : LockedM α} {f : α → LockedM β} (hx : ReadOnly x)
    (hf : ∀ a, ReadOnly (f a)) : ReadOnly (x >>= f) := by
  refine Steps.ReadOnly.bind hx ?_
  intro result
  cases result with
  | ok a => exact hf a
  | error error => exact .done _

theorem readOnly_pure (a : α) : ReadOnly (pure a) := .done _

theorem readOnly_observe (f : RocksDb → α) : ReadOnly (observe f) :=
  .step (fun _ => rfl) fun _ => .done _

theorem readOnly_returned (result : Except EventStoreError α) : ReadOnly (returned result) := by
  cases result <;> exact .done _

theorem ReadOnly.ite {p : Prop} [Decidable p] {x y : LockedM α} (hx : ReadOnly x)
    (hy : ReadOnly y) : ReadOnly (if p then x else y) := by
  by_cases hp : p
  · rw [if_pos hp]
    exact hx
  · rw [if_neg hp]
    exact hy

end LockedM

section Methods

variable (C : Crates) (store : EventStore) (env : CallEnv)

open LockedM

theorem findEventSteps_readOnly (eventId : EventId) (left n : Nat) :
    LockedM.ReadOnly (findEventSteps C store env eventId left n) := by
  induction left generalizing n with
  | zero => exact readOnly_pure none
  | succ left ih =>
      refine (readOnly_observe _).bind fun item => ?_
      cases item with
      | none => exact readOnly_pure none
      | some item =>
          exact (readOnly_returned _).bind fun _ => .ite (readOnly_pure _) (ih (n + 1))

theorem getEventSteps_readOnly (eventId : EventId) :
    LockedM.ReadOnly (getEventSteps C store env eventId) :=
  (readOnly_observe _).bind fun left => findEventSteps_readOnly C store env eventId left 0

theorem queryLoopSteps_readOnly (mode : IteratorMode) (query : EventQuery)
    (limit offset left n : Nat) (events : List EventEnvelope) (count : Nat) :
    LockedM.ReadOnly
      (queryLoopSteps C store env mode query limit offset left n events count) := by
  induction left generalizing n events count with
  | zero => exact readOnly_pure events
  | succ left ih =>
      refine (readOnly_observe _).bind fun item => ?_
      cases item with
      | none => exact readOnly_pure events
      | some item =>
          exact (readOnly_returned _).bind fun _ =>
            .ite (ih _ _ _) (.ite (readOnly_pure _) (.ite (ih _ _ _)
              (.ite (ih _ _ _) (.ite (readOnly_pure _) (ih _ _ _)))))

theorem queryEventsSteps_readOnly (query : EventQuery) :
    LockedM.ReadOnly (queryEventsSteps C store env query) :=
  (readOnly_observe _).bind fun left =>
    (queryLoopSteps_readOnly C store env _ query _ _ left 0 [] 0).bind fun _ => readOnly_pure _

end Methods

/-! ## Operations -/

/-- The operations that run concurrently. -/
inductive Operation
  | appendEvent (envelope : EventEnvelope)
  | appendEvents (envelopes : List EventEnvelope)
  | appendEventsOptimized (envelopes : List EventEnvelope)
  | getEvent (eventId : EventId)
  | queryEvents (query : EventQuery)

/-- What an operation answers. -/
inductive Outcome
  | appended (result : Except EventStoreError Unit)
  | appendedOptimized (result : Except EventStoreError AppendResult)
  | found (result : Except EventStoreError (Option EventEnvelope))
  | queried (result : Except EventStoreError EventQueryResult)

/-- An append that was acknowledged. -/
def Outcome.Acknowledged : Outcome → Prop
  | .appended result => ∃ u, result = .ok u
  | .appendedOptimized result => ∃ appendResult, result = .ok appendResult
  | _ => False

namespace Operation

/-- The operation among the calls of a run. -/
def call : Operation → Call
  | .appendEvent envelope => .appendEvent envelope
  | .appendEvents envelopes => .appendEvents envelopes
  | .appendEventsOptimized envelopes => .appendEventsOptimized envelopes
  | .getEvent eventId => .getEvent eventId
  | .queryEvents query => .queryEvents query

/-- The operation gets as far as `write_lock`. -/
def locks : Operation → Bool
  | .appendEvents envelopes => !envelopes.isEmpty
  | .appendEventsOptimized envelopes => !envelopes.isEmpty
  | _ => true

variable (C : Crates) (store : EventStore) (env : CallEnv)

/-- The operation by itself. -/
def perform (operation : Operation) (db : RocksDb) : Outcome × RocksDb :=
  match operation with
  | .appendEvent envelope => ((store.appendEvent C env envelope).exec db).map .appended id
  | .appendEvents envelopes => ((store.appendEvents C env envelopes).exec db).map .appended id
  | .appendEventsOptimized envelopes =>
      ((store.appendEventsOptimized C env envelopes).exec db).map .appendedOptimized id
  | .getEvent eventId => (.found (store.getEvent C env eventId db), db)
  | .queryEvents query => (.queried (store.queryEvents C env query db), db)

/-- The operation as its steps, under the guard it takes. -/
def guarded : Operation → GuardedCall RocksDb Outcome
  | .appendEvent envelope =>
      .underExclusive (Outcome.appended <$> (appendEventSteps C store env envelope).run)
  | .appendEvents envelopes =>
      if envelopes.isEmpty then .settledAs (.appended (.ok ()))
      else .underExclusive (Outcome.appended <$> (appendEventsSteps C store env envelopes).run)
  | .appendEventsOptimized envelopes =>
      if envelopes.isEmpty then
        .settledAs (.appendedOptimized
          (.ok { eventsWritten := 0, bytesWritten := 0, writeDuration := 0 }))
      else
        .underExclusive
          (Outcome.appendedOptimized <$> (appendEventsOptimizedSteps C store env envelopes).run)
  | .getEvent eventId =>
      .underShared (Outcome.found <$> (getEventSteps C store env eventId).run)
        ((getEventSteps_readOnly C store env eventId).map _)
  | .queryEvents query =>
      .underShared (Outcome.queried <$> (queryEventsSteps C store env query).run)
        ((queryEventsSteps_readOnly C store env query).map _)

theorem guarded_access (operation : Operation) :
    (operation.guarded C store env).access ≠ .unguarded ↔ operation.locks = true := by
  cases operation with
  | appendEvents envelopes => cases envelopes <;> simp [guarded, locks, GuardedCall.settledAs,
      GuardedCall.underExclusive]
  | appendEventsOptimized envelopes => cases envelopes <;> simp [guarded, locks,
      GuardedCall.settledAs, GuardedCall.underExclusive]
  | _ => simp [guarded, locks, GuardedCall.underExclusive, GuardedCall.underShared]

/-- Run by itself, the steps of an operation are its method. -/
theorem exec_body (operation : Operation) :
    (operation.guarded C store env).body.exec = operation.perform C store env := by
  funext db
  cases operation with
  | appendEvent envelope =>
      show (Outcome.appended <$> (appendEventSteps C store env envelope).run).exec db = _
      rw [Steps.exec_map, appendEventSteps_runs C store env envelope db]
      rfl
  | appendEvents envelopes =>
      by_cases hNil : envelopes = []
      · subst hNil
        rfl
      · rw [guarded, if_neg (by simpa using hNil)]
        show (Outcome.appended <$> (appendEventsSteps C store env envelopes).run).exec db = _
        rw [Steps.exec_map, appendEventsSteps_runs C store env hNil db]
        rfl
  | appendEventsOptimized envelopes =>
      by_cases hNil : envelopes = []
      · subst hNil
        rfl
      · rw [guarded, if_neg (by simpa using hNil)]
        show (Outcome.appendedOptimized <$>
          (appendEventsOptimizedSteps C store env envelopes).run).exec db = _
        rw [Steps.exec_map, appendEventsOptimizedSteps_runs C store env hNil db]
        rfl
  | getEvent eventId =>
      show (Outcome.found <$> (getEventSteps C store env eventId).run).exec db = _
      rw [Steps.exec_map, getEventSteps_runs C store env eventId db]
      rfl
  | queryEvents query =>
      show (Outcome.queried <$> (queryEventsSteps C store env query).run).exec db = _
      rw [Steps.exec_map, queryEventsSteps_runs C store env query db]
      rfl

/-- An operation does to the database what its call does. -/
theorem perform_snd (operation : Operation) (db : RocksDb) :
    (operation.perform C store env db).2 =
      ((operation.call.perform C store env).exec db).2 := by
  cases operation with
  | appendEvent envelope => rfl
  | appendEvents envelopes => rfl
  | appendEventsOptimized envelopes =>
      show ((store.appendEventsOptimized C env envelopes).exec db).2 =
        (StoreM.exec (store.appendEventsOptimized C env envelopes >>= fun _ => pure ()) db).2
      rw [StoreM.exec_bind]
      rcases (store.appendEventsOptimized C env envelopes).exec db with ⟨_ | _, db'⟩ <;> rfl
  | getEvent eventId => exact (reading_leaves _ db).symm
  | queryEvents query => exact (reading_leaves _ db).symm

/-- An append is acknowledged like its call. -/
theorem acknowledged_iff (operation : Operation) (hSome : operation.call.envelopes ≠ [])
    (db : RocksDb) :
    (operation.perform C store env db).1.Acknowledged ↔
      ((operation.call.perform C store env).exec db).1 = .ok () := by
  cases operation with
  | appendEvent envelope =>
      show (∃ u, ((store.appendEvent C env envelope).exec db).1 = .ok u) ↔ _
      exact ⟨fun ⟨_, h⟩ => h, fun h => ⟨(), h⟩⟩
  | appendEvents envelopes =>
      show (∃ u, ((store.appendEvents C env envelopes).exec db).1 = .ok u) ↔ _
      exact ⟨fun ⟨_, h⟩ => h, fun h => ⟨(), h⟩⟩
  | appendEventsOptimized envelopes =>
      show (∃ result, ((store.appendEventsOptimized C env envelopes).exec db).1 = .ok result) ↔
        (StoreM.exec (store.appendEventsOptimized C env envelopes >>= fun _ => pure ()) db).1 =
          .ok ()
      rw [StoreM.exec_bind]
      rcases (store.appendEventsOptimized C env envelopes).exec db with ⟨error | result, db'⟩
      · simp
      · exact iff_of_true ⟨result, rfl⟩ rfl
  | getEvent eventId => exact absurd rfl hSome
  | queryEvents query => exact absurd rfl hSome

/-- The keys an operation would write. -/
def keys (operation : Operation) : List Bytes := operation.call.envelopes.map generateEventKey

/-- An operation with a key to write gets as far as the lock. -/
theorem locks_of_mem_keys {operation : Operation} {key : Bytes} (h : key ∈ operation.keys) :
    operation.locks = true := by
  cases operation with
  | appendEvents envelopes =>
      cases envelopes with
      | nil => cases h
      | cons => rfl
  | appendEventsOptimized envelopes =>
      cases envelopes with
      | nil => cases h
      | cons => rfl
  | _ => rfl

variable {C store env}

/-- **Acknowledged once**: who is told that a key was written found it free, and
leaves it taken. -/
theorem acknowledged_takes {operation : Operation} {db : RocksDb} {key : Bytes}
    (hKey : key ∈ operation.keys) (hAck : (operation.perform C store env db).1.Acknowledged) :
    db.contents[key]? = none ∧
      (RocksDb.contents (operation.perform C store env db).2)[key]? ≠ none := by
  obtain ⟨e, he, rfl⟩ := List.mem_map.mp hKey
  have hSome := List.ne_nil_of_mem he
  rw [acknowledged_iff C store env operation hSome] at hAck
  rw [perform_snd]
  rcases perform_cases C store env operation.call db
    with ⟨batch, -, hAccepts, hExec⟩ | ⟨hNil, -⟩ | ⟨-, error, hExec⟩
  · refine ⟨(hAccepts.free e he).2, ?_⟩
    rw [hExec, RocksDb.contents_write]
    have hMem : generateEventKey e ∈ batch.map Prod.fst := by
      rw [keys_of_records hAccepts.records]
      exact hKey
    obtain ⟨value, -, hGet⟩ := applyBatch_get_of_mem db.contents batch _ hMem
    rw [hGet]
    simp
  · exact absurd hNil hSome
  · rw [hExec] at hAck
    cases hAck

/-- A key that is taken stays taken. -/
theorem perform_keeps_taken (operation : Operation) {db : RocksDb} {key : Bytes}
    (hTaken : db.contents[key]? ≠ none) :
    (RocksDb.contents (operation.perform C store env db).2)[key]? ≠ none := by
  obtain ⟨value, hValue⟩ := Option.ne_none_iff_exists'.mp hTaken
  rw [perform_snd, perform_keeps operation.call db hValue]
  simp

/-- A key stays free where nobody is told it was written. -/
theorem perform_keeps_free {operation : Operation} {db : RocksDb} {key : Bytes}
    (hFree : db.contents[key]? = none)
    (hNot : ¬ (key ∈ operation.keys ∧ (operation.perform C store env db).1.Acknowledged)) :
    (RocksDb.contents (operation.perform C store env db).2)[key]? = none := by
  rw [perform_snd]
  rcases perform_cases C store env operation.call db
    with ⟨batch, hSome, hAccepts, hExec⟩ | ⟨-, hSame⟩ | ⟨-, error, hExec⟩
  · rw [acknowledged_iff C store env operation hSome, hExec] at hNot
    rw [hExec, RocksDb.contents_write, applyBatch_get_of_not_mem, hFree]
    rw [keys_of_records hAccepts.records]
    exact fun hKey => hNot ⟨hKey, rfl⟩
  · rw [hSame]
    exact hFree
  · rw [hExec]
    exact hFree

/-- A single append of a free key goes through, unless the database fails. -/
theorem appendEvent_acknowledged (hEncodes : C.Lz4Encodes) {e : EventEnvelope} {db : RocksDb}
    (hFree : KeyIsFree env db.contents e) (hWritable : env.writeFault = none) :
    (perform C store env (.appendEvent e) db).1.Acknowledged := by
  have hSome : (Operation.appendEvent e).call.envelopes ≠ [] := List.cons_ne_nil e []
  obtain ⟨batch, -, hExec⟩ := perform_accepted C store env hEncodes (.appendEvent e) db hSome
    (by simpa [Call.envelopes] using hFree) hWritable
  rw [acknowledged_iff C store env _ hSome]
  exact congrArg Prod.fst hExec

end Operation

/-! ## One acknowledgement for each key -/

section Sequential

variable {ι : Type} (C : Crates) (store : EventStore) (calls : ι → CallEnv × Operation)

/-- The calls by themselves. -/
def performCall (i : ι) (db : RocksDb) : Outcome × RocksDb :=
  (calls i).2.perform C store (calls i).1 db

variable {C store calls}

/-- Nobody is told that a key was written which is taken already. -/
theorem not_acknowledged_of_taken {order : List ι} {db : RocksDb} {key : Bytes}
    (hTaken : db.contents[key]? ≠ none) {i : ι} {outcome : Outcome}
    (hMem : (i, outcome) ∈ (sequentially (performCall C store calls) order db).1)
    (hKey : key ∈ (calls i).2.keys) : ¬ outcome.Acknowledged := by
  induction order generalizing db with
  | nil => cases hMem
  | cons j order ih =>
      rcases List.mem_cons.mp hMem with hHere | hLater
      · cases hHere
        intro hAck
        exact hTaken (Operation.acknowledged_takes hKey hAck).1
      · exact ih (Operation.perform_keeps_taken _ hTaken) hLater

/-- At most one call is told that it wrote a key. -/
theorem acknowledged_unique {order : List ι} {db : RocksDb} {key : Bytes} {i j : ι}
    {outcome outcome' : Outcome}
    (hi : (i, outcome) ∈ (sequentially (performCall C store calls) order db).1)
    (hj : (j, outcome') ∈ (sequentially (performCall C store calls) order db).1)
    (hiKey : key ∈ (calls i).2.keys) (hjKey : key ∈ (calls j).2.keys)
    (hiAck : outcome.Acknowledged) (hjAck : outcome'.Acknowledged) : i = j := by
  induction order generalizing db with
  | nil => cases hi
  | cons k order ih =>
      rcases List.mem_cons.mp hi with hiHere | hiLater <;>
        rcases List.mem_cons.mp hj with hjHere | hjLater
      · exact (Prod.mk.inj hiHere).1.trans (Prod.mk.inj hjHere).1.symm
      · cases hiHere
        exact absurd hjAck (not_acknowledged_of_taken
          (Operation.acknowledged_takes hiKey hiAck).2 hjLater hjKey)
      · cases hjHere
        exact absurd hiAck (not_acknowledged_of_taken
          (Operation.acknowledged_takes hjKey hjAck).2 hiLater hiKey)
      · exact ih hiLater hjLater

/-- A free key that somebody can append is acknowledged to somebody. -/
theorem exists_acknowledged (hEncodes : C.Lz4Encodes) {order : List ι} {db : RocksDb}
    {key : Bytes} (hFree : db.contents[key]? = none) {i : ι} (hMem : i ∈ order)
    {e : EventEnvelope} (hCall : (calls i).2 = .appendEvent e) (hKey : generateEventKey e = key)
    (hReadable : (calls i).1.getFault key = none) (hWritable : (calls i).1.writeFault = none) :
    ∃ j outcome, (j, outcome) ∈ (sequentially (performCall C store calls) order db).1 ∧
      key ∈ (calls j).2.keys ∧ outcome.Acknowledged := by
  induction order generalizing db with
  | nil => cases hMem
  | cons j order ih =>
      by_cases hAck : key ∈ (calls j).2.keys ∧ (performCall C store calls j db).1.Acknowledged
      · exact ⟨j, _, List.mem_cons_self, hAck.1, hAck.2⟩
      · have hLater : i ∈ order := by
          rcases List.mem_cons.mp hMem with rfl | hLater
          · refine absurd ⟨?_, ?_⟩ hAck
            · rw [hCall, ← hKey]
              exact List.mem_cons_self
            · rw [performCall, hCall]
              exact Operation.appendEvent_acknowledged hEncodes
                ⟨hKey ▸ hReadable, hKey ▸ hFree⟩ hWritable
          · exact hLater
        obtain ⟨k, outcome, hAnswer, hRest⟩ := ih
          (Operation.perform_keeps_free hFree hAck) hLater
        exact ⟨k, outcome, List.mem_cons_of_mem _ hAnswer, hRest⟩

end Sequential

/-! ## Linearization -/

section Linearization

variable {ι : Type} (C : Crates) (store : EventStore) (calls : ι → CallEnv × Operation)

/-- The calls with their guards. -/
def guardedCalls (i : ι) : GuardedCall RocksDb Outcome :=
  (calls i).2.guarded C store (calls i).1

/-- What concurrent calls on a database can come to. -/
def Concurrently [DecidableEq ι] (db : RocksDb) (sys : CallSystem ι RocksDb Outcome) : Prop :=
  CallSystem.Reachable (guardedCalls C store calls) db sys

variable {C store calls}

theorem guardedCalls_access (i : ι) :
    (guardedCalls C store calls i).access ≠ .unguarded ↔ (calls i).2.locks = true :=
  (calls i).2.guarded_access C store (calls i).1

theorem oneAtATime_guardedCalls :
    CallSystem.oneAtATime (guardedCalls C store calls) =
      sequentially (performCall C store calls) := by
  have hBodies : (fun i => (guardedCalls C store calls i).body.exec) =
      performCall C store calls := by
    funext i
    exact (calls i).2.exec_body C store (calls i).1
  funext order db
  rw [CallSystem.oneAtATime, hBodies]

variable [DecidableEq ι]

namespace Concurrently

variable {db : RocksDb} {sys : CallSystem ι RocksDb Outcome}

theorem mem_order_iff (hReach : Concurrently C store calls db sys) (i : ι) :
    i ∈ sys.order ↔ (calls i).2.locks = true ∧ sys.calls i ≠ .waiting := by
  rw [hReach.invariant.2.ordered, guardedCalls_access]

/-- A waiting call may run to its end where the lock admits it. -/
theorem run (hReach : Concurrently C store calls db sys) (i : ι)
    (hCall : sys.calls i = .waiting)
    (hAdmits : sys.lock.Admits (guardedCalls C store calls i).access) :
    Concurrently C store calls db
      { state := ((guardedCalls C store calls i).body.exec sys.state).2
        calls := Function.update sys.calls i
          (.finished ((guardedCalls C store calls i).body.exec sys.state).1)
        lock := (sys.lock.acquire (guardedCalls C store calls i).access).release
          (guardedCalls C store calls i).access
        order := sys.order ++ [i] } :=
  hReach.trans (CallSystem.exists_run i sys hCall hAdmits)

/-- Who has finished has the answer of the sequential run. -/
theorem answer (hReach : Concurrently C store calls db sys) {i : ι} {outcome : Outcome}
    (hCall : sys.calls i = .finished outcome) (hLocks : (calls i).2.locks = true) :
    (i, outcome) ∈ (sequentially (performCall C store calls) sys.order db).1 := by
  rw [← oneAtATime_guardedCalls]
  exact hReach.invariant.2.answered i outcome hCall (guardedCalls_access i |>.mpr hLocks)

/-- The sequential run has one answer for each call. -/
theorem answer_unique (hReach : Concurrently C store calls db sys) {i : ι}
    {outcome outcome' : Outcome}
    (h : (i, outcome) ∈ (sequentially (performCall C store calls) sys.order db).1)
    (h' : (i, outcome') ∈ (sequentially (performCall C store calls) sys.order db).1) :
    outcome = outcome' := by
  have hNodup : ((sequentially (performCall C store calls) sys.order db).1.map
      Prod.fst).Nodup := by
    rw [keys_sequentially]
    exact hReach.invariant.2.nodup
  exact (Prod.mk.inj (List.inj_on_of_nodup_map hNodup h h' rfl)).2

/-- At most one append of a key is acknowledged. -/
theorem acknowledged_unique (hReach : Concurrently C store calls db sys) {key : Bytes}
    {i j : ι} {outcome outcome' : Outcome} (hi : sys.calls i = .finished outcome)
    (hiAck : outcome.Acknowledged) (hiKey : key ∈ (calls i).2.keys)
    (hj : sys.calls j = .finished outcome') (hjAck : outcome'.Acknowledged)
    (hjKey : key ∈ (calls j).2.keys) : i = j :=
  EventStore.acknowledged_unique (hReach.answer hi (Operation.locks_of_mem_keys hiKey))
    (hReach.answer hj (Operation.locks_of_mem_keys hjKey)) hiKey hjKey hiAck hjAck

/-- One of the single appends of a free key is acknowledged, where they are all
the appends of it and have finished. -/
theorem exists_acknowledged (hReach : Concurrently C store calls db sys)
    (hEncodes : C.Lz4Encodes) {key : Bytes} (hFree : db.contents[key]? = none)
    {appends : Set ι}
    (hAppends : ∀ i ∈ appends, ∃ e, (calls i).2 = .appendEvent e ∧ generateEventKey e = key)
    (hOthers : ∀ i ∉ appends, key ∉ (calls i).2.keys)
    (hFinished : ∀ i ∈ appends, ∃ outcome, sys.calls i = .finished outcome)
    (hSound : ∃ i ∈ appends, (calls i).1.getFault key = none ∧ (calls i).1.writeFault = none) :
    ∃ i ∈ appends, sys.calls i = .finished (.appended (.ok ())) := by
  obtain ⟨i, hi, hReadable, hWritable⟩ := hSound
  obtain ⟨e, hCall, hKey⟩ := hAppends i hi
  obtain ⟨outcome, hOutcome⟩ := hFinished i hi
  have hMem : i ∈ sys.order := by
    rw [hReach.mem_order_iff, hCall, hOutcome]
    simp [Operation.locks]
  obtain ⟨j, answer, hAnswer, hjKey, hAck⟩ := EventStore.exists_acknowledged hEncodes hFree
    hMem hCall hKey hReadable hWritable
  have hj : j ∈ appends := by
    by_contra hNot
    exact hOthers j hNot hjKey
  obtain ⟨outcome', hOutcome'⟩ := hFinished j hj
  have hSame : answer = outcome' := hReach.answer_unique hAnswer
    (hReach.answer hOutcome' (Operation.locks_of_mem_keys hjKey))
  refine ⟨j, hj, ?_⟩
  rw [hOutcome', ← hSame]
  obtain ⟨here, hHere⟩ := sequentially_answer (performCall C store calls) hAnswer
  obtain ⟨e', hCall', -⟩ := hAppends j hj
  have hForm : answer = .appended ((store.appendEvent C (calls j).1 e').exec here).1 := by
    refine hHere.symm.trans ?_
    show ((calls j).2.perform C store (calls j).1 here).1 = _
    rw [hCall']
    rfl
  rw [hForm] at hAck ⊢
  obtain ⟨u, hOk⟩ := hAck
  rw [hOk]

end Concurrently

variable (C store calls)

/-- **Concurrent calls linearize**: in whatever way they interleave, the answers
and the database are those of the calls made one at a time in the order in which
they acquired the lock (the calls that return before it may stand anywhere), an
order that only grows.  Of the appends of a free key at most one is
acknowledged; and if single appends are all there are of it, and the database
does not fail at every one of them, exactly one is. -/
theorem concurrentCalls_linearize (hEncodes : C.Lz4Encodes) (db : RocksDb)
    (sys : CallSystem ι RocksDb Outcome) (hReach : Concurrently C store calls db sys) :
    (sys.order.Nodup ∧
      (∀ i, i ∈ sys.order ↔ (calls i).2.locks = true ∧ sys.calls i ≠ .waiting) ∧
      ∀ later, Relation.ReflTransGen (CallSystem.Step (guardedCalls C store calls)) sys later →
        sys.order <+: later.order) ∧
    (∀ order : List ι, order.filter (fun i => (calls i).2.locks) = sys.order →
      (∀ i ∈ order, ∀ outcome, sys.calls i = .finished outcome →
        (i, outcome) ∈ (sequentially (performCall C store calls) order db).1) ∧
      ((∀ i, ¬ sys.Inside i) →
        (sequentially (performCall C store calls) order db).2 = sys.state)) ∧
    ∀ key : Bytes, db.contents[key]? = none →
      (∀ i j outcome outcome', sys.calls i = .finished outcome → outcome.Acknowledged →
        key ∈ (calls i).2.keys → sys.calls j = .finished outcome' → outcome'.Acknowledged →
        key ∈ (calls j).2.keys → i = j) ∧
      ∀ appends : Set ι,
        (∀ i ∈ appends, ∃ e, (calls i).2 = .appendEvent e ∧ generateEventKey e = key) →
        (∀ i ∉ appends, key ∉ (calls i).2.keys) →
        (∀ i ∈ appends, ∃ outcome, sys.calls i = .finished outcome) →
        (∃ i ∈ appends, (calls i).1.getFault key = none ∧ (calls i).1.writeFault = none) →
          ∃! i, i ∈ appends ∧ sys.calls i = .finished (.appended (.ok ())) := by
  refine ⟨⟨hReach.invariant.2.nodup, hReach.mem_order_iff,
    fun later hSteps => CallSystem.order_prefix hSteps⟩, ?_, ?_⟩
  · intro order hOrder
    have hFilter : order.filter
        (fun i => (guardedCalls C store calls i).access ≠ .unguarded) = sys.order := by
      rw [← hOrder]
      apply List.filter_congr
      intro i _
      rw [Bool.eq_iff_iff, decide_eq_true_eq, guardedCalls_access]
    rw [← oneAtATime_guardedCalls]
    exact hReach.linearizes hFilter
  · intro key hFree
    constructor
    · intro i j outcome outcome' hi hiAck hiKey hj hjAck hjKey
      exact hReach.acknowledged_unique hi hiAck hiKey hj hjAck hjKey
    · intro appends hAppends hOthers hFinished hSound
      obtain ⟨i, hi, hOk⟩ := hReach.exists_acknowledged hEncodes hFree hAppends hOthers
        hFinished hSound
      have hKeys : ∀ j ∈ appends, key ∈ (calls j).2.keys := by
        intro j hj
        obtain ⟨e, hCall, hKey⟩ := hAppends j hj
        rw [hCall, ← hKey]
        exact List.mem_cons_self
      refine ⟨i, ⟨hi, hOk⟩, ?_⟩
      rintro j ⟨hj, hOk'⟩
      exact hReach.acknowledged_unique hOk' ⟨(), rfl⟩ (hKeys j hj) hOk ⟨(), rfl⟩ (hKeys i hi)

/-- Two appends of one envelope to an empty store: whatever their order, one of
them is acknowledged. -/
theorem twoAppends_linearize :
    let envelope := createTestEnvelope ⟨Uuid.fromU128 1⟩ ⟨Uuid.fromU128 2⟩ DateTime.epoch
    let calls : Bool → CallEnv × Operation := fun _ => (.quiet, .appendEvent envelope)
    ∃ sys, Concurrently Crates.sample (new .default) calls .empty sys ∧
      sys.order = [false, true] ∧ ∃! i, sys.calls i = .finished (.appended (.ok ())) := by
  intro envelope calls
  have hStart : Concurrently Crates.sample (new .default) calls .empty (.initial .empty) :=
    .refl
  have hBoth := (hStart.run false rfl ⟨rfl, rfl⟩).run true rfl ⟨rfl, rfl⟩
  refine ⟨_, hBoth, rfl, ?_⟩
  have hKeys := (concurrentCalls_linearize Crates.sample (new .default) calls
    Crates.sample_lz4Encodes .empty _ hBoth).2.2 (generateEventKey envelope) rfl
  obtain ⟨i, ⟨-, hOk⟩, hUnique⟩ := hKeys.2 Set.univ (fun _ _ => ⟨envelope, rfl, rfl⟩)
    (fun i hi => absurd (Set.mem_univ i) hi)
    (fun i _ => by cases i <;> exact ⟨_, rfl⟩) ⟨false, Set.mem_univ _, rfl, rfl⟩
  exact ⟨i, hOk, fun j hj => hUnique j ⟨Set.mem_univ j, hj⟩⟩

end Linearization

end LedgerFS.EventStore
