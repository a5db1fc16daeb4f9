import LedgerFS.EventStore.Concurrent
import LedgerFS.Library.CallProgress

/-!
# All methods of one store at once

`Concurrent.lean` interleaves the appends and the two lookups.  Here the other
five methods join them: the scan from the end, the statistics, the two canned
queries and compaction, which takes the lock like a writer.

Three things are said of the ten methods together: they linearize and they come
to an end (`concurrentApi_completes`), and a reader sees of every acknowledged
append all of it or nothing, and everything that was acknowledged before the
reader was called (`reads_meet_whole_batches`).
-/

namespace LedgerFS.EventStore

open LedgerFS.Core
open LedgerFS.Library

/-! ## The other methods as steps -/

section Methods

variable (C : Crates) (store : EventStore) (env : CallEnv)

/-- A scan that decodes every item: so many from the `n`-th on. -/
def scanSteps {β : Type} (mode : IteratorMode) (visit : β → EventEnvelope → β) :
    Nat → Nat → β → LockedM β
  | 0, _, seen => pure seen
  | left + 1, n, seen => do
      let item ← LockedM.observe fun db => (db.iterator env mode)[n]?
      match item with
      | none => pure seen
      | some item => do
          let envelope ← LockedM.returned (decodeItem C store env item)
          scanSteps mode visit left (n + 1) (visit seen envelope)

/-- `get_latest_events`. -/
def getLatestEventsSteps (limit : Nat) : LockedM (List EventEnvelope) := do
  let left ← LockedM.observe fun db => ((db.iterator env .end).take limit).length
  let events ← scanSteps C store env .end (fun events envelope => events ++ [envelope]) left 0 []
  pure events.reverse

/-- The body of the loop of `get_statistics`. -/
def countEvent (stats : EventStoreStatistics) (envelope : EventEnvelope) :
    EventStoreStatistics where
  totalEvents := stats.totalEvents + 1
  oldestEvent :=
    if stats.oldestEvent.all fun t => envelope.timestamp < t then
      some envelope.timestamp
    else stats.oldestEvent
  newestEvent :=
    if stats.newestEvent.all fun t => envelope.timestamp > t then
      some envelope.timestamp
    else stats.newestEvent
  databaseSizeBytes := stats.databaseSizeBytes

/-- `get_statistics`. -/
def getStatisticsSteps : LockedM EventStoreStatistics := do
  let left ← LockedM.observe fun db => (db.iterator env .start).length
  scanSteps C store env .start countEvent left 0
    { totalEvents := 0, oldestEvent := none, newestEvent := none, databaseSizeBytes := 0 }

/-- `get_account_events`. -/
def getAccountEventsSteps (accountId : AccountId) : LockedM (List EventEnvelope) := do
  let result ← queryEventsSteps C store env
    { accountId := some accountId
      startTime := none
      endTime := none
      limit := none
      offset := none
      eventTypes := none }
  pure result.events

/-- `get_events_in_range`. -/
def getEventsInRangeSteps (startTime endTime : DateTime) : LockedM (List EventEnvelope) := do
  let result ← queryEventsSteps C store env
    { accountId := none
      startTime := some startTime
      endTime := some endTime
      limit := none
      offset := none
      eventTypes := none }
  pure result.events

/-! ### By themselves -/

open LockedM

/-- The scan over the items of one iterator. -/
def scanItems {β : Type} (visit : β → EventEnvelope → β) :
    List (Except RocksDbError (Bytes × Bytes)) → β → Except EventStoreError β
  | [], seen => .ok seen
  | item :: items, seen => do
      let envelope ← decodeItem C store env item
      scanItems visit items (visit seen envelope)

/-- The scan on a database that nobody changes. -/
theorem scanSteps_exec {β : Type} (mode : IteratorMode) (visit : β → EventEnvelope → β)
    (db : RocksDb) (left n : Nat) (seen : β) (h : n + left ≤ (db.iterator env mode).length) :
    (scanSteps C store env mode visit left n seen).run.exec db =
      (scanItems C store env visit (((db.iterator env mode).drop n).take left) seen, db) := by
  induction left generalizing n seen with
  | zero =>
      rw [List.take_zero]
      rfl
  | succ left ih =>
      have hn : n < (db.iterator env mode).length := by omega
      rw [List.drop_eq_getElem_cons hn, List.take_succ_cons, scanItems, scanSteps, exec_observe,
        List.getElem?_eq_getElem hn]
      show (returned (decodeItem C store env _) >>= _ : LockedM _).run.exec db = _
      rw [exec_returned]
      cases decodeItem C store env (db.iterator env mode)[n] with
      | error error => rfl
      | ok envelope => exact ih (n + 1) (visit seen envelope) (by omega)

/-- A scan that collects the events. -/
theorem scanItems_collect (items : List (Except RocksDbError (Bytes × Bytes)))
    (events : List EventEnvelope) :
    scanItems C store env (fun events envelope => events ++ [envelope]) items events =
      (items.mapM (decodeItem C store env)).map (events ++ ·) := by
  induction items generalizing events with
  | nil =>
      show Except.ok events = .ok (events ++ [])
      rw [List.append_nil]
  | cons item items ih =>
      rw [scanItems, List.mapM_cons]
      cases decodeItem C store env item with
      | error error => rfl
      | ok envelope =>
          show scanItems C store env _ items (events ++ [envelope]) = _
          rw [ih]
          cases items.mapM (decodeItem C store env) with
          | error error => rfl
          | ok rest =>
              show Except.ok (events ++ [envelope] ++ rest) = .ok (events ++ envelope :: rest)
              rw [List.append_assoc, List.singleton_append]

theorem scanItems_count (items : List (Except RocksDbError (Bytes × Bytes)))
    (stats : EventStoreStatistics) :
    scanItems C store env countEvent items stats = statisticsLoop C store env items stats := by
  induction items generalizing stats with
  | nil => rfl
  | cons item items ih =>
      rw [scanItems, statisticsLoop]
      cases decodeItem C store env item with
      | error error => rfl
      | ok envelope => exact ih (countEvent stats envelope)

theorem getLatestEventsSteps_runs (limit : Nat) :
    Runs (getLatestEventsSteps C store env limit)
      (StoreM.reading (store.getLatestEvents C env limit)) := by
  intro db
  have hTake : ((db.iterator env .end).drop 0).take ((db.iterator env .end).take limit).length =
      (db.iterator env .end).take limit := by
    rw [List.drop_zero, List.length_take, ← List.take_take, List.take_length]
  rw [getLatestEventsSteps, exec_observe, exec_bind,
    scanSteps_exec C store env .end _ db _ 0 [] (by simp), hTake, scanItems_collect]
  show _ = (store.getLatestEvents C env limit db, db)
  rw [getLatestEvents]
  cases ((db.iterator env .end).take limit).mapM (decodeItem C store env) with
  | error error => rfl
  | ok events => rfl

theorem getStatisticsSteps_runs :
    Runs (getStatisticsSteps C store env) (StoreM.reading (store.getStatistics C env)) := by
  intro db
  rw [getStatisticsSteps, exec_observe, scanSteps_exec C store env .start _ db _ 0 _ (by simp),
    List.drop_zero, List.take_length, scanItems_count]
  rfl

/-- A canned query. -/
theorem eventsOf_runs (query : EventQuery)
    {method : RocksDb → Except EventStoreError (List EventEnvelope)}
    (hMethod : ∀ db, method db = (store.queryEvents C env query db).map EventQueryResult.events) :
    Runs (do
      let result ← queryEventsSteps C store env query
      pure result.events) (StoreM.reading method) := by
  intro db
  have hQuery : (StoreM.reading (store.queryEvents C env query)).exec db =
      (store.queryEvents C env query db, db) := rfl
  rw [exec_bind, queryEventsSteps_runs C store env query db, hQuery]
  show _ = (method db, db)
  rw [hMethod]
  cases store.queryEvents C env query db with
  | error error => rfl
  | ok result => rfl

theorem getAccountEventsSteps_runs (accountId : AccountId) :
    Runs (getAccountEventsSteps C store env accountId)
      (StoreM.reading (store.getAccountEvents C env accountId)) := by
  apply eventsOf_runs
  intro db
  rw [getAccountEvents]
  cases store.queryEvents C env _ db <;> rfl

theorem getEventsInRangeSteps_runs (startTime endTime : DateTime) :
    Runs (getEventsInRangeSteps C store env startTime endTime)
      (StoreM.reading (store.getEventsInRange C env startTime endTime)) := by
  apply eventsOf_runs
  intro db
  rw [getEventsInRange]
  cases store.queryEvents C env _ db <;> rfl

/-! ### They change nothing -/

theorem scanSteps_readOnly {β : Type} (mode : IteratorMode) (visit : β → EventEnvelope → β)
    (left n : Nat) (seen : β) :
    LockedM.ReadOnly (scanSteps C store env mode visit left n seen) := by
  induction left generalizing n seen with
  | zero => exact readOnly_pure seen
  | succ left ih =>
      refine (readOnly_observe _).bind fun item => ?_
      cases item with
      | none => exact readOnly_pure seen
      | some item => exact (readOnly_returned _).bind fun _ => ih _ _

theorem getLatestEventsSteps_readOnly (limit : Nat) :
    LockedM.ReadOnly (getLatestEventsSteps C store env limit) :=
  (readOnly_observe _).bind fun left =>
    (scanSteps_readOnly C store env _ _ left 0 []).bind fun _ => readOnly_pure _

theorem getStatisticsSteps_readOnly : LockedM.ReadOnly (getStatisticsSteps C store env) :=
  (readOnly_observe _).bind fun left => scanSteps_readOnly C store env _ _ left 0 _

theorem getAccountEventsSteps_readOnly (accountId : AccountId) :
    LockedM.ReadOnly (getAccountEventsSteps C store env accountId) :=
  (queryEventsSteps_readOnly C store env _).bind fun _ => readOnly_pure _

theorem getEventsInRangeSteps_readOnly (startTime endTime : DateTime) :
    LockedM.ReadOnly (getEventsInRangeSteps C store env startTime endTime) :=
  (queryEventsSteps_readOnly C store env _).bind fun _ => readOnly_pure _

end Methods

/-! ## The methods under the lock -/

/-- A call of one of the ten methods. -/
inductive ApiCall
  | ofOperation (operation : Operation)
  | compact
  | getAccountEvents (accountId : AccountId)
  | getEventsInRange (startTime endTime : DateTime)
  | getLatestEvents (limit : Nat)
  | getStatistics

/-- What a method answers. -/
inductive Reply
  | ofOutcome (outcome : Outcome)
  | compacted (result : Except EventStoreError Unit)
  | listed (result : Except EventStoreError (List EventEnvelope))
  | statistics (result : Except EventStoreError EventStoreStatistics)

/-- An append that was acknowledged. -/
def Reply.Acknowledged : Reply → Prop
  | .ofOutcome outcome => outcome.Acknowledged
  | _ => False

namespace ApiCall

/-- The call gets as far as `write_lock`. -/
def locks : ApiCall → Bool
  | .ofOperation operation => operation.locks
  | _ => true

/-- The keys a call would write. -/
def keys : ApiCall → List Bytes
  | .ofOperation operation => operation.keys
  | _ => []

variable (C : Crates) (store : EventStore) (env : CallEnv)

/-- The call by itself. -/
def perform (call : ApiCall) (db : RocksDb) : Reply × RocksDb :=
  match call with
  | .ofOperation operation => (operation.perform C store env db).map .ofOutcome id
  | .compact => (EventStore.compact.exec db).map .compacted id
  | .getAccountEvents accountId => (.listed (store.getAccountEvents C env accountId db), db)
  | .getEventsInRange startTime endTime =>
      (.listed (store.getEventsInRange C env startTime endTime db), db)
  | .getLatestEvents limit => (.listed (store.getLatestEvents C env limit db), db)
  | .getStatistics => (.statistics (store.getStatistics C env db), db)

/-- The call as its steps, under the guard it takes. -/
def guarded : ApiCall → GuardedCall RocksDb Reply
  | .ofOperation operation => (operation.guarded C store env).map .ofOutcome
  | .compact => .underExclusive (Reply.compacted <$> (LockedM.atomically EventStore.compact).run)
  | .getAccountEvents accountId =>
      .underShared (Reply.listed <$> (getAccountEventsSteps C store env accountId).run)
        ((getAccountEventsSteps_readOnly C store env accountId).map _)
  | .getEventsInRange startTime endTime =>
      .underShared (Reply.listed <$> (getEventsInRangeSteps C store env startTime endTime).run)
        ((getEventsInRangeSteps_readOnly C store env startTime endTime).map _)
  | .getLatestEvents limit =>
      .underShared (Reply.listed <$> (getLatestEventsSteps C store env limit).run)
        ((getLatestEventsSteps_readOnly C store env limit).map _)
  | .getStatistics =>
      .underShared (Reply.statistics <$> (getStatisticsSteps C store env).run)
        ((getStatisticsSteps_readOnly C store env).map _)

theorem guarded_access (call : ApiCall) :
    (call.guarded C store env).access ≠ .unguarded ↔ call.locks = true := by
  cases call with
  | ofOperation operation =>
      rw [guarded, GuardedCall.map_access]
      exact operation.guarded_access C store env
  | _ => simp [guarded, locks, GuardedCall.underExclusive, GuardedCall.underShared]

/-- Run by itself, the steps of a call are its method. -/
theorem exec_body (call : ApiCall) :
    (call.guarded C store env).body.exec = call.perform C store env := by
  funext db
  cases call with
  | ofOperation operation =>
      rw [guarded, GuardedCall.exec_map_body, Operation.exec_body]
      rfl
  | compact => rfl
  | getAccountEvents accountId =>
      show (Reply.listed <$> (getAccountEventsSteps C store env accountId).run).exec db = _
      rw [Steps.exec_map, getAccountEventsSteps_runs C store env accountId db]
      rfl
  | getEventsInRange startTime endTime =>
      show (Reply.listed <$> (getEventsInRangeSteps C store env startTime endTime).run).exec db = _
      rw [Steps.exec_map, getEventsInRangeSteps_runs C store env startTime endTime db]
      rfl
  | getLatestEvents limit =>
      show (Reply.listed <$> (getLatestEventsSteps C store env limit).run).exec db = _
      rw [Steps.exec_map, getLatestEventsSteps_runs C store env limit db]
      rfl
  | getStatistics =>
      show (Reply.statistics <$> (getStatisticsSteps C store env).run).exec db = _
      rw [Steps.exec_map, getStatisticsSteps_runs C store env db]
      rfl

theorem locks_of_mem_keys {call : ApiCall} {key : Bytes} (h : key ∈ call.keys) :
    call.locks = true := by
  cases call with
  | ofOperation operation => exact Operation.locks_of_mem_keys h
  | _ => cases h

variable {C store env}

/-- A record stays through a call. -/
theorem perform_keeps (call : ApiCall) {db : RocksDb} {k v : Bytes}
    (hStored : db.contents[k]? = some v) :
    (RocksDb.contents (call.perform C store env db).2)[k]? = some v := by
  cases call with
  | ofOperation operation =>
      show (RocksDb.contents (operation.perform C store env db).2)[k]? = some v
      rw [Operation.perform_snd]
      exact EventStore.perform_keeps operation.call db hStored
  | _ => exact hStored

/-- Who is told that a key was written found it free, and leaves it taken. -/
theorem acknowledged_takes {call : ApiCall} {db : RocksDb} {key : Bytes} (hKey : key ∈ call.keys)
    (hAck : (call.perform C store env db).1.Acknowledged) :
    db.contents[key]? = none ∧
      (RocksDb.contents (call.perform C store env db).2)[key]? ≠ none := by
  cases call with
  | ofOperation operation => exact Operation.acknowledged_takes hKey hAck
  | _ => cases hKey

end ApiCall

/-! ## The system -/

section System

variable {ι : Type} (C : Crates) (store : EventStore) (calls : ι → CallEnv × ApiCall)

/-- The calls by themselves. -/
def performApi (i : ι) (db : RocksDb) : Reply × RocksDb :=
  (calls i).2.perform C store (calls i).1 db

/-- The calls with their guards. -/
def guardedApi (i : ι) : GuardedCall RocksDb Reply :=
  (calls i).2.guarded C store (calls i).1

variable {C store calls}

theorem guardedApi_access (i : ι) :
    (guardedApi C store calls i).access ≠ .unguarded ↔ (calls i).2.locks = true :=
  (calls i).2.guarded_access C store (calls i).1

theorem oneAtATime_guardedApi :
    CallSystem.oneAtATime (guardedApi C store calls) =
      sequentially (performApi C store calls) := by
  have hBodies : (fun i => (guardedApi C store calls i).body.exec) =
      performApi C store calls := by
    funext i
    exact (calls i).2.exec_body C store (calls i).1
  funext order db
  rw [CallSystem.oneAtATime, hBodies]

/-- One answer for each call of the order. -/
theorem sequentially_unique {perform : ι → RocksDb → Reply × RocksDb} {order : List ι}
    (hNodup : order.Nodup) {db : RocksDb} {i : ι} {reply reply' : Reply}
    (h : (i, reply) ∈ (sequentially perform order db).1)
    (h' : (i, reply') ∈ (sequentially perform order db).1) : reply = reply' := by
  have hKeys : ((sequentially perform order db).1.map Prod.fst).Nodup := by
    rw [keys_sequentially]
    exact hNodup
  exact (Prod.mk.inj (List.inj_on_of_nodup_map hKeys h h' rfl)).2

theorem exists_sequential_answer {perform : ι → RocksDb → Reply × RocksDb} {order : List ι}
    {i : ι} (h : i ∈ order) (db : RocksDb) :
    ∃ reply, (i, reply) ∈ (sequentially perform order db).1 := by
  have hKey : i ∈ (sequentially perform order db).1.map Prod.fst := by
    rw [keys_sequentially]
    exact h
  obtain ⟨answer, hMem, rfl⟩ := List.mem_map.mp hKey
  exact ⟨answer.2, hMem⟩

variable [DecidableEq ι] {db : RocksDb} {sys : CallSystem ι RocksDb Reply}

theorem mem_order_iff (hReach : CallSystem.Reachable (guardedApi C store calls) db sys) (i : ι) :
    i ∈ sys.order ↔ (calls i).2.locks = true ∧ sys.calls i ≠ .waiting := by
  rw [hReach.invariant.2.ordered, guardedApi_access]

/-- Where all calls are answered, they are answered as in one sequential order of
them all. -/
theorem exists_order_of_finished [Fintype ι]
    (hReach : CallSystem.Reachable (guardedApi C store calls) db sys)
    (hFinished : ∀ i, ∃ reply, sys.calls i = .finished reply) :
    ∃ order : List ι, order.Nodup ∧ (∀ i, i ∈ order) ∧ sys.order <+: order ∧
      (∀ i reply, sys.calls i = .finished reply ↔
        (i, reply) ∈ (sequentially (performApi C store calls) order db).1) ∧
      (sequentially (performApi C store calls) order db).2 = sys.state := by
  -- the calls that go without the lock come last
  let others := (Finset.univ.filter fun i => (calls i).2.locks = false).toList
  have hOthers : ∀ i, i ∈ others ↔ (calls i).2.locks = false := by simp [others]
  have hLocked : ∀ i, i ∈ sys.order ↔ (calls i).2.locks = true := by
    intro i
    obtain ⟨reply, hCall⟩ := hFinished i
    rw [mem_order_iff hReach, hCall]
    simp
  have hNodup : (sys.order ++ others).Nodup := by
    refine List.nodup_append'.mpr ⟨hReach.invariant.2.nodup, Finset.nodup_toList _, ?_⟩
    intro i hOrder hOther
    rw [hLocked] at hOrder
    rw [hOthers, hOrder] at hOther
    cases hOther
  have hAll : ∀ i, i ∈ sys.order ++ others := by
    intro i
    rw [List.mem_append, hLocked, hOthers]
    cases (calls i).2.locks <;> simp
  have hFilter : (sys.order ++ others).filter
      (fun i => (guardedApi C store calls i).access ≠ .unguarded) = sys.order := by
    rw [List.filter_append, List.filter_eq_self.mpr, List.filter_eq_nil_iff.mpr, List.append_nil]
    · intro i hi
      simpa [guardedApi_access] using (hOthers i).mp hi
    · intro i hi
      simpa [guardedApi_access] using (hLocked i).mp hi
  obtain ⟨hAnswers, hState⟩ := hReach.linearizes hFilter
  rw [oneAtATime_guardedApi] at hAnswers hState
  refine ⟨_, hNodup, hAll, List.prefix_append _ _, ?_,
    hState (CallSystem.not_inside_of_finished hFinished)⟩
  intro i reply
  refine ⟨hAnswers i (hAll i) reply, ?_⟩
  intro hMem
  obtain ⟨reply', hCall⟩ := hFinished i
  rw [hCall, sequentially_unique hNodup hMem (hAnswers i (hAll i) reply' hCall)]

variable (C store calls)

/-- **Every interleaving completes, as some sequence**: from whatever finitely many
calls of the ten methods have come to, they cannot go on for ever, they can go on
until all are answered, and where they cannot go on all are answered, with the
answers and the database of the calls made one at a time in some order. -/
theorem concurrentApi_completes [Fintype ι] (db : RocksDb) (sys : CallSystem ι RocksDb Reply)
    (hReach : CallSystem.Reachable (guardedApi C store calls) db sys) :
    (∀ run : Nat → CallSystem ι RocksDb Reply, run 0 = sys →
      ¬ ∀ n, CallSystem.Step (guardedApi C store calls) (run n) (run (n + 1))) ∧
    (∃ last, Relation.ReflTransGen (CallSystem.Step (guardedApi C store calls)) sys last ∧
      ∀ i, ∃ reply, last.calls i = .finished reply) ∧
    ((∀ next, ¬ CallSystem.Step (guardedApi C store calls) sys next) →
      (∀ i, ∃ reply, sys.calls i = .finished reply) ∧
      ∃ order : List ι, order.Nodup ∧ (∀ i, i ∈ order) ∧ sys.order <+: order ∧
        (∀ i reply, sys.calls i = .finished reply ↔
          (i, reply) ∈ (sequentially (performApi C store calls) order db).1) ∧
        (sequentially (performApi C store calls) order db).2 = sys.state) := by
  refine ⟨fun run _ => CallSystem.no_infinite_run run, ?_, ?_⟩
  · obtain ⟨last, hRun, -, hFinished⟩ := hReach.exists_finished
    exact ⟨last, hRun, hFinished⟩
  · intro hStuck
    have hFinished := hReach.finished_of_stuck hStuck
    exact ⟨hFinished, exists_order_of_finished hReach hFinished⟩

/-- An append, a compaction and the statistics: they can all be answered. -/
theorem threeCalls_complete :
    let calls : Fin 3 → CallEnv × ApiCall := fun i =>
      (.quiet,
        match i with
        | 0 => .ofOperation (.appendEvent
            (createTestEnvelope ⟨Uuid.fromU128 1⟩ ⟨Uuid.fromU128 2⟩ DateTime.epoch))
        | 1 => .compact
        | 2 => .getStatistics)
    ∃ last, CallSystem.Reachable (guardedApi Crates.sample (new .default) calls) .empty last ∧
      ∀ i, ∃ reply, last.calls i = .finished reply := by
  intro calls
  have hStart : CallSystem.Reachable (guardedApi Crates.sample (new .default) calls) .empty
      (.initial .empty) := .refl
  exact (concurrentApi_completes Crates.sample (new .default) calls .empty _ hStart).2.1

/-! ## What a reader sees -/

variable {C store calls}

omit [DecidableEq ι] in
/-- What was acknowledged on the way is there at the end. -/
theorem taken_of_acknowledged {order : List ι} {db : RocksDb} {j : ι} {reply : Reply}
    (hMem : (j, reply) ∈ (sequentially (performApi C store calls) order db).1)
    (hAck : reply.Acknowledged) {key : Bytes} (hKey : key ∈ (calls j).2.keys) :
    (sequentially (performApi C store calls) order db).2.contents[key]? ≠ none := by
  induction order generalizing db with
  | nil => cases hMem
  | cons i order ih =>
      rcases List.mem_cons.mp hMem with hHere | hLater
      · obtain ⟨rfl, rfl⟩ := Prod.mk.inj hHere
        have hTaken : (performApi C store calls j db).2.contents[key]? ≠ none :=
          (ApiCall.acknowledged_takes hKey hAck).2
        obtain ⟨value, hValue⟩ := Option.ne_none_iff_exists'.mp hTaken
        have hLast : (sequentially (performApi C store calls) order
            (performApi C store calls j db).2).2.contents[key]? = some value :=
          sequentially_keeps (performApi C store calls)
            (p := fun db => db.contents[key]? = some value)
            (fun i db hStored => (calls i).2.perform_keeps hStored) order hValue
        rw [sequentially, hLast]
        simp
      · exact ih hLater

omit [DecidableEq ι] in
/-- What is acknowledged on the way was free at the start. -/
theorem free_of_acknowledged {order : List ι} {db : RocksDb} {j : ι} {reply : Reply}
    (hMem : (j, reply) ∈ (sequentially (performApi C store calls) order db).1)
    (hAck : reply.Acknowledged) {key : Bytes} (hKey : key ∈ (calls j).2.keys) :
    db.contents[key]? = none := by
  induction order generalizing db with
  | nil => cases hMem
  | cons i order ih =>
      rcases List.mem_cons.mp hMem with hHere | hLater
      · obtain ⟨rfl, rfl⟩ := Prod.mk.inj hHere
        exact (ApiCall.acknowledged_takes hKey hAck).1
      · by_contra hTaken
        obtain ⟨value, hValue⟩ := Option.ne_none_iff_exists'.mp hTaken
        have hFree : (performApi C store calls i db).2.contents[key]? = none := ih hLater
        rw [show (performApi C store calls i db).2.contents[key]? = some value from
          (calls i).2.perform_keeps hValue] at hFree
        cases hFree

/-- Who has the lock while a call waits comes before it. -/
theorem mem_before {earlier : CallSystem ι RocksDb Reply}
    (hEarlier : CallSystem.Reachable (guardedApi C store calls) db earlier)
    (hRun : Relation.ReflTransGen (CallSystem.Step (guardedApi C store calls)) earlier sys)
    {before after : List ι} {i j : ι} (hOrder : sys.order = before ++ i :: after)
    (hWaiting : earlier.calls i = .waiting) (hLocks : (calls j).2.locks = true)
    (hBegun : earlier.calls j ≠ .waiting) : j ∈ before := by
  have hj : j ∈ earlier.order := (mem_order_iff hEarlier j).mpr ⟨hLocks, hBegun⟩
  have hi : i ∉ earlier.order := fun hMem => ((mem_order_iff hEarlier i).mp hMem).2 hWaiting
  have hPrefix : earlier.order <+: before ++ [i] ++ after := by
    rw [List.append_assoc, List.singleton_append, ← hOrder]
    exact CallSystem.order_prefix hRun
  rcases Nat.lt_or_ge before.length earlier.order.length with hLong | hShort
  · have hAll : before ++ [i] <+: earlier.order :=
      List.prefix_of_prefix_length_le (List.prefix_append _ _) hPrefix (by
        rw [List.length_append]
        exact hLong)
    exact absurd (hAll.subset (List.mem_append_right _ List.mem_cons_self)) hi
  · have hLead : before <+: before ++ [i] ++ after := by
      rw [List.append_assoc]
      exact List.prefix_append _ _
    exact (List.prefix_of_prefix_length_le hPrefix hLead hShort).subset hj

variable (C store calls)

/-- **Atomic and fresh reads**: in every interleaving of the ten methods, an
answered call was answered on the database of the calls that acquired the lock
before it.  Of every other append that was acknowledged, whole batches included,
that database holds all keys or none, and it holds those of every append that
was acknowledged while the call was still waiting. -/
theorem reads_meet_whole_batches (db : RocksDb) (sys : CallSystem ι RocksDb Reply)
    (hReach : CallSystem.Reachable (guardedApi C store calls) db sys) (i : ι) (reply : Reply)
    (hCall : sys.calls i = .finished reply) (hLocks : (calls i).2.locks = true) :
    ∃ before : List ι, before ++ [i] <+: sys.order ∧
      let here := (sequentially (performApi C store calls) before db).2
      reply = ((calls i).2.perform C store (calls i).1 here).1 ∧
      (∀ j reply', j ≠ i → sys.calls j = .finished reply' → reply'.Acknowledged →
        (j ∈ before ∧ ∀ key ∈ (calls j).2.keys, here.contents[key]? ≠ none) ∨
          (j ∉ before ∧ ∀ key ∈ (calls j).2.keys, here.contents[key]? = none)) ∧
      ∀ earlier, CallSystem.Reachable (guardedApi C store calls) db earlier →
        Relation.ReflTransGen (CallSystem.Step (guardedApi C store calls)) earlier sys →
        earlier.calls i = .waiting → ∀ j, (calls j).2.locks = true →
          earlier.calls j ≠ .waiting → j ∈ before := by
  have hAnswered {j : ι} {reply' : Reply} (hj : sys.calls j = .finished reply')
      (hjLocks : (calls j).2.locks = true) :
      (j, reply') ∈ (sequentially (performApi C store calls) sys.order db).1 := by
    rw [← oneAtATime_guardedApi]
    exact hReach.invariant.2.answered j reply' hj (guardedApi_access j |>.mpr hjLocks)
  obtain ⟨before, after, hOrder, hReply⟩ := exists_prefix_of_answer _ (hAnswered hCall hLocks)
  refine ⟨before, ?_, hReply, ?_, fun earlier hEarlier hRun hWaiting j hjLocks hBegun =>
    mem_before hEarlier hRun hOrder hWaiting hjLocks hBegun⟩
  · rw [hOrder]
    exact ⟨after, by rw [List.append_assoc, List.singleton_append]⟩
  · intro j reply' hOther hj hAck
    -- its answer is one of those on either side of `i`
    have hSplit : (sequentially (performApi C store calls) sys.order db).1 =
        (sequentially (performApi C store calls) before db).1 ++
          (sequentially (performApi C store calls) (i :: after)
            (sequentially (performApi C store calls) before db).2).1 := by
      rw [hOrder, sequentially_append]
    have hUnique {reply'' : Reply} (hjLocks : (calls j).2.locks = true)
        (hMem : (j, reply'') ∈ (sequentially (performApi C store calls) sys.order db).1) :
        reply'' = reply' :=
      sequentially_unique hReach.invariant.2.nodup hMem (hAnswered hj hjLocks)
    by_cases hBefore : j ∈ before
    · refine Or.inl ⟨hBefore, fun key hKey => ?_⟩
      obtain ⟨reply'', hMem⟩ := exists_sequential_answer hBefore db
      obtain rfl := hUnique (ApiCall.locks_of_mem_keys hKey) (by
        rw [hSplit]
        exact List.mem_append_left _ hMem)
      exact taken_of_acknowledged hMem hAck hKey
    · refine Or.inr ⟨hBefore, fun key hKey => ?_⟩
      have hjLocks := ApiCall.locks_of_mem_keys hKey
      have hAfter : j ∈ i :: after := by
        have hMem : j ∈ sys.order := (mem_order_iff hReach j).mpr ⟨hjLocks, by rw [hj]; simp⟩
        rw [hOrder] at hMem
        exact (List.mem_append.mp hMem).resolve_left hBefore
      obtain ⟨reply'', hMem⟩ := exists_sequential_answer hAfter
        (sequentially (performApi C store calls) before db).2
      obtain rfl := hUnique hjLocks (by
        rw [hSplit]
        exact List.mem_append_right _ hMem)
      exact free_of_acknowledged hMem hAck hKey

/-- Statistics that are asked for after an append was acknowledged: they are taken
on a database that holds the event. -/
theorem statisticsAfterAppend_meet_it :
    let envelope := createTestEnvelope ⟨Uuid.fromU128 1⟩ ⟨Uuid.fromU128 2⟩ DateTime.epoch
    let calls : Bool → CallEnv × ApiCall := fun reader =>
      (.quiet, if reader then .getStatistics else .ofOperation (.appendEvent envelope))
    ∃ sys reply, CallSystem.Reachable (guardedApi Crates.sample (new .default) calls) .empty sys ∧
      sys.calls true = .finished reply ∧
      ∃ here : RocksDb, here.contents[generateEventKey envelope]? ≠ none ∧
        reply = (ApiCall.getStatistics.perform Crates.sample (new .default) .quiet here).1 := by
  intro envelope calls
  let jobs := guardedApi Crates.sample (new .default) calls
  let appended := CallSystem.afterRun jobs (.initial .empty) false
  have hAppended : CallSystem.Reachable jobs .empty appended :=
    CallSystem.steps_afterRun rfl ⟨rfl, rfl⟩
  have hRead : Relation.ReflTransGen (CallSystem.Step jobs) appended
      (CallSystem.afterRun jobs appended true) := CallSystem.steps_afterRun rfl rfl
  have hReach : CallSystem.Reachable jobs .empty (CallSystem.afterRun jobs appended true) :=
    hAppended.trans hRead
  have hAppend : (Operation.perform Crates.sample (new .default) .quiet (.appendEvent envelope)
      .empty).1.Acknowledged :=
    Operation.appendEvent_acknowledged Crates.sample_lz4Encodes ⟨rfl, rfl⟩ rfl
  have hAck : ((jobs false).body.exec RocksDb.empty).1.Acknowledged := by
    rw [show (jobs false).body.exec = _ from ApiCall.exec_body Crates.sample (new .default)
      .quiet (.ofOperation (.appendEvent envelope))]
    exact hAppend
  obtain ⟨before, -, hReply, hWhole, hFresh⟩ := reads_meet_whole_batches Crates.sample
    (new .default) calls .empty _ hReach true _ rfl rfl
  have hBefore : false ∈ before := hFresh appended hAppended hRead rfl false rfl (by simp [appended,
    CallSystem.afterRun])
  refine ⟨_, _, hReach, rfl, _, ?_, hReply⟩
  rcases hWhole false _ (by simp) rfl hAck with ⟨-, hTaken⟩ | ⟨hNot, -⟩
  · exact hTaken _ List.mem_cons_self
  · exact absurd hBefore hNot

end System

end LedgerFS.EventStore
