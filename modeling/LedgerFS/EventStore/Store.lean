import LedgerFS.EventStore.RocksDb

/-!
# The event store (`store.rs`)

The three append paths, the lookups and scans, and compaction, as programs
over the database.  `StoreM` threads the database through the statements of a
method and stops at the first error, keeping whatever was written by then.
Methods that only read take the database and give no new one.

The locks are not modelled here: every method runs by itself.
-/

namespace LedgerFS.EventStore

open LedgerFS.Core
open LedgerFS.Library

/-- The settings of `config.rs` that the store itself consults; the others are
handed to RocksDB. -/
structure EventStoreConfig where
  /-- Enable compression for storage efficiency. -/
  enableCompression : Bool
  /-- Sync writes to disk for durability. -/
  syncWrites : Bool
deriving DecidableEq

namespace EventStoreConfig

/-- `EventStoreConfig::default`. -/
def default : EventStoreConfig where
  enableCompression := true
  syncWrites := false

/-- Configure for high-throughput scenarios. -/
def highThroughput (config : EventStoreConfig) : EventStoreConfig :=
  { config with syncWrites := false }

/-- Configure for high-durability scenarios. -/
def highDurability (config : EventStoreConfig) : EventStoreConfig :=
  { config with syncWrites := true }

/-- Configure for development/testing. -/
def development (config : EventStoreConfig) : EventStoreConfig :=
  { config with syncWrites := false, enableCompression := false }

end EventStoreConfig

/-- Errors that can occur in the event store. -/
inductive EventStoreError
  | databaseError (error : RocksDbError)
  | serializationError (error : SerializationError)
  | eventNotFound (message : String)
  | invalidQuery (message : String)
  | concurrencyError (message : String)
deriving DecidableEq

/-- `to_string`, given the texts of bincode's errors. -/
def EventStoreError.toText (kindText : Bincode.ErrorKind → String) : EventStoreError → String
  | .databaseError error => "Database error: " ++ error.message
  | .serializationError error => "Serialization error: " ++ error.toText kindText
  | .eventNotFound message => "Event not found: " ++ message
  | .invalidQuery message => "Invalid query parameters: " ++ message
  | .concurrencyError message => "Concurrency error: " ++ message

/-- Query parameters for retrieving events. -/
structure EventQuery where
  accountId : Option AccountId
  startTime : Option DateTime
  endTime : Option DateTime
  limit : Option Nat
  offset : Option Nat
  eventTypes : Option (List RustString)

/-- No filter and no offset. -/
def EventQuery.unfiltered (startTime : Option DateTime) (limit : Option Nat) : EventQuery where
  accountId := none
  startTime := startTime
  endTime := none
  limit := limit
  offset := none
  eventTypes := none

structure EventQueryResult where
  events : List EventEnvelope
  totalCount : Option Nat
  hasMore : Bool

/-- Result of an append operation. -/
structure AppendResult where
  eventsWritten : Nat
  bytesWritten : Nat
  writeDuration : Nat
deriving DecidableEq

/-- Statistics about the event store. -/
structure EventStoreStatistics where
  totalEvents : Nat
  oldestEvent : Option DateTime
  newestEvent : Option DateTime
  databaseSizeBytes : Nat

end LedgerFS.EventStore

/-- An open store; the database is passed separately. -/
structure LedgerFS.EventStore where
  serializer : LedgerFS.EventStore.EventSerializer
  config : LedgerFS.EventStore.EventStoreConfig

namespace LedgerFS.EventStore

open LedgerFS.Core
open LedgerFS.Library

/-- `EventStore::new`, for a database that opens. -/
def new (config : EventStoreConfig) : EventStore where
  serializer := ⟨config.enableCompression⟩
  config := config

/-! ## Statements -/

/-- Statements that may fail and may write. -/
abbrev StoreM : Type → Type := ExceptT EventStoreError (StateM RocksDb)

namespace StoreM

variable {α β : Type}

/-- The outcome on a database and the database left behind. -/
def exec (x : StoreM α) (db : RocksDb) : Except EventStoreError α × RocksDb :=
  x.run.run db

@[simp] theorem exec_pure (a : α) (db : RocksDb) :
    exec (pure a) db = (.ok a, db) := rfl

/-- A sequence stops at the first error. -/
theorem exec_bind (x : StoreM α) (f : α → StoreM β) (db : RocksDb) :
    exec (x >>= f) db =
      match exec x db with
      | (.ok a, db') => exec (f a) db'
      | (.error error, db') => (.error error, db') := by
  show (ExceptT.bindCont f (x.run.run db).1).run (x.run.run db).2 = _
  unfold exec
  rcases x.run.run db with ⟨_ | _, db'⟩ <;> rfl

theorem exec_bind_ok {x : StoreM α} {db db' : RocksDb} {a : α}
    (h : exec x db = (.ok a, db')) (f : α → StoreM β) :
    exec (x >>= f) db = exec (f a) db' := by
  rw [exec_bind, h]

theorem exec_bind_error {x : StoreM α} {db db' : RocksDb} {error : EventStoreError}
    (h : exec x db = (.error error, db')) (f : α → StoreM β) :
    exec (x >>= f) db = (.error error, db') := by
  rw [exec_bind, h]

/-- A sequence succeeds by way of its first part. -/
theorem exec_bind_eq_ok {x : StoreM α} {f : α → StoreM β} {db db' : RocksDb} {b : β}
    (h : exec (x >>= f) db = (.ok b, db')) :
    ∃ a mid, exec x db = (.ok a, mid) ∧ exec (f a) mid = (.ok b, db') := by
  rw [exec_bind] at h
  rcases hx : exec x db with ⟨_ | a, mid⟩
  · rw [hx] at h
    cases h
  · rw [hx] at h
    exact ⟨a, mid, rfl, h⟩

/-- `?` on a serialization result. -/
def serialized : Except SerializationError α → StoreM α
  | .ok a => pure a
  | .error error => throw (.serializationError error)

/-- A method that only reads. -/
def reading (method : RocksDb → Except EventStoreError α) : StoreM α := fun db =>
  (method db, db)

end StoreM

namespace CallEnv

/-- `self.db.get(&key)?`. -/
def get (env : CallEnv) (key : Bytes) : StoreM (Option Bytes) := fun db =>
  match env.getFault key with
  | some fault => (.error (.databaseError fault), db)
  | none => (.ok db.contents[key]?, db)

/-- `self.db.write_opt(batch, &write_opts)?`. -/
def writeOpt (env : CallEnv) (batch : WriteBatch) (sync : Bool) : StoreM Unit := fun db =>
  match env.writeFault with
  | some fault => (.error (.databaseError fault), db)
  | none => (.ok (), db.write batch sync)

/-- `self.db.put_opt(&key, &value, &write_opts)?`. -/
def putOpt (env : CallEnv) (key value : Bytes) (sync : Bool) : StoreM Unit :=
  env.writeOpt [(key, value)] sync

end CallEnv

/-! ## Appending -/

variable (C : Crates) (store : EventStore) (env : CallEnv)

/-- The refusal to overwrite a record. -/
def alreadyExists (key : Bytes) : EventStoreError :=
  .concurrencyError ("Event with key " ++ C.debugLossy key ++
    " already exists. Append-only store prevents overwrites.")

/-- Append a single event to the store. -/
def appendEvent (envelope : EventEnvelope) : StoreM Unit := do
  let key := generateEventKey envelope
  let existing ← env.get key
  if existing.isSome then
    throw (alreadyExists C key)
  else do
    let value ← StoreM.serialized (store.serializer.serialize C envelope)
    env.putOpt key value store.config.syncWrites

/-- The loop of `append_events`: check, serialize and batch each event. -/
def prepareBatch : List EventEnvelope → WriteBatch → StoreM WriteBatch
  | [], batch => pure batch
  | envelope :: envelopes, batch => do
      let key := generateEventKey envelope
      let existing ← env.get key
      if existing.isSome then
        throw (alreadyExists C key)
      else do
        let value ← StoreM.serialized (store.serializer.serialize C envelope)
        prepareBatch envelopes (batch ++ [(key, value)])

/-- Append multiple events atomically. -/
def appendEvents (envelopes : List EventEnvelope) : StoreM Unit :=
  if envelopes.isEmpty then
    pure ()
  else do
    let batch ← prepareBatch C store env envelopes []
    env.writeOpt batch store.config.syncWrites

/-- The first loop of `append_events_optimized`: check all keys. -/
def validateKeys : List EventEnvelope → StoreM Unit
  | [] => pure ()
  | envelope :: envelopes => do
      let key := generateEventKey envelope
      let existing ← env.get key
      if existing.isSome then
        throw (alreadyExists C key)
      else
        validateKeys envelopes

/-- The second loop: serialize and batch all events, counting the bytes. -/
def serializeBatch : List EventEnvelope → WriteBatch → Nat → StoreM (WriteBatch × Nat)
  | [], batch, totalBytes => pure (batch, totalBytes)
  | envelope :: envelopes, batch, totalBytes => do
      let key := generateEventKey envelope
      let value ← StoreM.serialized (store.serializer.serialize C envelope)
      serializeBatch envelopes (batch ++ [(key, value)])
        (totalBytes + (key.length + value.length))

/-- Append events with optimized batching for high throughput. -/
def appendEventsOptimized (envelopes : List EventEnvelope) : StoreM AppendResult :=
  if envelopes.isEmpty then
    pure { eventsWritten := 0, bytesWritten := 0, writeDuration := 0 }
  else do
    validateKeys C env envelopes
    let (batch, totalBytes) ← serializeBatch C store envelopes [] 0
    -- large batches are written without sync
    let sync := if envelopes.length > 100 then false else store.config.syncWrites
    env.writeOpt batch sync
    pure
      { eventsWritten := envelopes.length
        bytesWritten := totalBytes
        writeDuration := env.elapsed }

/-- Compact the database to reclaim space: no record changes. -/
def compact : StoreM Unit := pure ()

/-! ## Reading -/

/-- One step of an iterator: the item's value, decoded. -/
def decodeItem (item : Except RocksDbError (Bytes × Bytes)) :
    Except EventStoreError EventEnvelope := do
  let record ← item.mapError .databaseError
  (store.serializer.deserialize C (env.seeds record.2) record.2).mapError
    .serializationError

/-- The scan of `get_event`: the first record that carries the id. -/
def findEvent (eventId : EventId) :
    List (Except RocksDbError (Bytes × Bytes)) →
      Except EventStoreError (Option EventEnvelope)
  | [] => .ok none
  | item :: items => do
      let envelope ← decodeItem C store env item
      if envelope.eventId = eventId then .ok (some envelope)
      else findEvent eventId items

/-- Get a specific event by its ID. -/
def getEvent (eventId : EventId) (db : RocksDb) :
    Except EventStoreError (Option EventEnvelope) :=
  findEvent C store env eventId (db.iterator env .start)

/-- Helper method to check if an event matches an account. -/
def eventMatchesAccount (envelope : EventEnvelope) (accountId : AccountId) : Bool :=
  match envelope.eventData with
  | .accountCreated event => event.accountId = accountId
  | .accountStatusChanged event => event.accountId = accountId
  | .accountMetadataUpdated event => event.accountId = accountId
  | .transactionProcessed event =>
      event.fromAccount = some accountId || event.toAccount = some accountId
  | .balanceUpdated event => event.accountId = accountId
  | _ => false

/-- The scan of `query_events`, with the events found so far and the count
that the offset is measured by. -/
def queryLoop (query : EventQuery) (limit offset : Nat) :
    List (Except RocksDbError (Bytes × Bytes)) → List EventEnvelope → Nat →
      Except EventStoreError (List EventEnvelope)
  | [], events, _ => .ok events
  | item :: items, events, count => do
      let envelope ← decodeItem C store env item
      if query.accountId.any fun a => !eventMatchesAccount envelope a then
        queryLoop query limit offset items events count
      else if query.endTime.any fun t => envelope.timestamp > t then
        .ok events
      else if query.eventTypes.any fun types => !types.contains envelope.eventType then
        queryLoop query limit offset items events count
      else if count < offset then
        queryLoop query limit offset items events (count + 1)
      else if events.length ≥ limit then
        .ok events
      else
        queryLoop query limit offset items (events ++ [envelope]) (count + 1)

/-- Query events based on criteria. -/
def queryEvents (query : EventQuery) (db : RocksDb) :
    Except EventStoreError EventQueryResult := do
  let limit := query.limit.getD 1000
  let offset := query.offset.getD 0
  let mode :=
    match query.startTime with
    | some startTime => IteratorMode.from (generateTimeKeyPrefix startTime)
    | none => IteratorMode.start
  let events ← queryLoop C store env query limit offset (db.iterator env mode) [] 0
  pure
    { events := events
      totalCount := none
      hasMore := events.length = limit }

/-- Get all events for a specific account. -/
def getAccountEvents (accountId : AccountId) (db : RocksDb) :
    Except EventStoreError (List EventEnvelope) := do
  let result ← queryEvents C store env
    { accountId := some accountId
      startTime := none
      endTime := none
      limit := none
      offset := none
      eventTypes := none } db
  pure result.events

/-- Get events in a time range. -/
def getEventsInRange (startTime endTime : DateTime) (db : RocksDb) :
    Except EventStoreError (List EventEnvelope) := do
  let result ← queryEvents C store env
    { accountId := none
      startTime := some startTime
      endTime := some endTime
      limit := none
      offset := none
      eventTypes := none } db
  pure result.events

/-- Get the latest events, oldest first. -/
def getLatestEvents (limit : Nat) (db : RocksDb) :
    Except EventStoreError (List EventEnvelope) := do
  let events ← ((db.iterator env .end).take limit).mapM (decodeItem C store env)
  pure events.reverse

/-- The scan of `get_statistics`. -/
def statisticsLoop :
    List (Except RocksDbError (Bytes × Bytes)) → EventStoreStatistics →
      Except EventStoreError EventStoreStatistics
  | [], stats => .ok stats
  | item :: items, stats => do
      let envelope ← decodeItem C store env item
      statisticsLoop items
        { totalEvents := stats.totalEvents + 1
          oldestEvent :=
            if stats.oldestEvent.all fun t => envelope.timestamp < t then
              some envelope.timestamp
            else stats.oldestEvent
          newestEvent :=
            if stats.newestEvent.all fun t => envelope.timestamp > t then
              some envelope.timestamp
            else stats.newestEvent
          databaseSizeBytes := stats.databaseSizeBytes }

/-- Get statistics about the event store. -/
def getStatistics (db : RocksDb) : Except EventStoreError EventStoreStatistics :=
  statisticsLoop C store env (db.iterator env .start)
    { totalEvents := 0, oldestEvent := none, newestEvent := none, databaseSizeBytes := 0 }

end LedgerFS.EventStore
