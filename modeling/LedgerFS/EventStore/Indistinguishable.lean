import LedgerFS.EventStore.AppendOrder
import LedgerFS.EventStore.ReadPaths
import LedgerFS.EventStore.Rollback

/-!
# What the answers depend on

Two stores may be configured differently, draw different seeds for the maps they decode, take
different times for a write and hold different bytes, and yet hold the same events.  Then
nobody who calls their methods can tell them apart, and who reads one of them to the end knows
all there is to know about it.

* `settings_unobservable` — the settings of a store, its seeds and its clock change no answer.
* `reads_tell_everything` — two stores answer every sequence of calls alike exactly if one
  long enough read of each gives the same events.
* `rebuilt_store_indistinguishable` — a store that is given what was read of another cannot be
  told from it, whatever the settings of both.
-/

namespace LedgerFS.EventStore

open LedgerFS.Core
open LedgerFS.Library

/-! ## Requests and answers -/

/-- The same is asked for, with envelopes that are equal. -/
inductive ApiCall.SameRequest : ApiCall → ApiCall → Prop
  | appendEvent {e f : EventEnvelope} (h : e.PartialEq f) :
      SameRequest (.ofOperation (.appendEvent e)) (.ofOperation (.appendEvent f))
  | appendEvents {es fs : List EventEnvelope} (h : List.Forall₂ EventEnvelope.PartialEq es fs) :
      SameRequest (.ofOperation (.appendEvents es)) (.ofOperation (.appendEvents fs))
  | appendEventsOptimized {es fs : List EventEnvelope}
      (h : List.Forall₂ EventEnvelope.PartialEq es fs) :
      SameRequest (.ofOperation (.appendEventsOptimized es))
        (.ofOperation (.appendEventsOptimized fs))
  | getEvent (eventId : EventId) :
      SameRequest (.ofOperation (.getEvent eventId)) (.ofOperation (.getEvent eventId))
  | queryEvents (query : EventQuery) :
      SameRequest (.ofOperation (.queryEvents query)) (.ofOperation (.queryEvents query))
  | compact : SameRequest .compact .compact
  | getAccountEvents (accountId : AccountId) :
      SameRequest (.getAccountEvents accountId) (.getAccountEvents accountId)
  | getEventsInRange (startTime endTime : DateTime) :
      SameRequest (.getEventsInRange startTime endTime) (.getEventsInRange startTime endTime)
  | getLatestEvents (limit : Nat) : SameRequest (.getLatestEvents limit) (.getLatestEvents limit)
  | getStatistics : SameRequest .getStatistics .getStatistics

/-- Two calls that ask for the same while the database fails alike. -/
def SameCall (call call' : CallEnv × ApiCall) : Prop :=
  call.1.SameFaults call'.1 ∧ call.2.SameRequest call'.2

/-- Pages with equal events. -/
structure SamePage (page page' : EventQueryResult) : Prop where
  events : List.Forall₂ EventEnvelope.PartialEq page.events page'.events
  totalCount : page.totalCount = page'.totalCount
  hasMore : page.hasMore = page'.hasMore

/-- Answers that are equal.  How many bytes an optimized append wrote, and how long it took,
is left open. -/
inductive Reply.Same : Reply → Reply → Prop
  | appended {r r' : Except EventStoreError Unit} (h : Agree Eq r r') :
      Same (.ofOutcome (.appended r)) (.ofOutcome (.appended r'))
  | appendedOptimized {r r' : Except EventStoreError AppendResult}
      (h : Agree (fun a a' => a.eventsWritten = a'.eventsWritten) r r') :
      Same (.ofOutcome (.appendedOptimized r)) (.ofOutcome (.appendedOptimized r'))
  | found {r r' : Except EventStoreError (Option EventEnvelope)}
      (h : Agree (Option.Rel EventEnvelope.PartialEq) r r') :
      Same (.ofOutcome (.found r)) (.ofOutcome (.found r'))
  | queried {r r' : Except EventStoreError EventQueryResult} (h : Agree SamePage r r') :
      Same (.ofOutcome (.queried r)) (.ofOutcome (.queried r'))
  | compacted {r r' : Except EventStoreError Unit} (h : Agree Eq r r') :
      Same (.compacted r) (.compacted r')
  | listed {r r' : Except EventStoreError (List EventEnvelope)}
      (h : Agree (List.Forall₂ EventEnvelope.PartialEq) r r') : Same (.listed r) (.listed r')
  | statistics {r r' : Except EventStoreError EventStoreStatistics} (h : Agree Eq r r') :
      Same (.statistics r) (.statistics r')

/-! ## Databases with the same events -/

section Same

variable (C : Crates) (store store' : EventStore)

/-- Records with one key, each as its store writes it, of events that are read back as equal
ones. -/
def SameRecord (record record' : Bytes × Bytes) : Prop :=
  ∃ e f : EventEnvelope, IsRecord C store e record ∧ IsRecord C store' f record' ∧
    generateEventKey e = generateEventKey f ∧ e.readBack.PartialEq f.readBack

/-- Key by key the same events. -/
def SameEvents (contents contents' : Contents) : Prop :=
  ∀ key : Bytes, Option.Rel
    (fun value value' => SameRecord C store store' (key, value) (key, value'))
    contents[key]? contents'[key]?

/-- Databases that hold the same events. -/
def SameDatabases (db db' : RocksDb) : Prop :=
  SameEvents C store store' db.contents db'.contents

variable {C store store'}

theorem SameRecord.key_eq {record record' : Bytes × Bytes}
    (h : SameRecord C store store' record record') : record.1 = record'.1 := by
  obtain ⟨e, f, hRecord, hRecord', hKey, -⟩ := h
  rw [hRecord.1, hRecord'.1, hKey]

theorem sameEvents_empty : SameEvents C store store' ∅ ∅ := fun _ => .none

theorem SameEvents.insert {contents contents' : Contents}
    (h : SameEvents C store store' contents contents') {put put' : Bytes × Bytes}
    (hPut : SameRecord C store store' put put') :
    SameEvents C store store' (contents.insert put.1 put.2) (contents'.insert put'.1 put'.2) := by
  obtain ⟨written, value⟩ := put
  obtain ⟨written', value'⟩ := put'
  obtain rfl : written = written' := hPut.key_eq
  intro key
  rw [Std.ExtTreeMap.getElem?_insert, Std.ExtTreeMap.getElem?_insert]
  by_cases hHere : compare written key = .eq
  · rw [if_pos hHere, if_pos hHere]
    obtain rfl : written = key := Std.LawfulEqCmp.compare_eq_iff_eq.mp hHere
    exact .some hPut
  · rw [if_neg hHere, if_neg hHere]
    exact h key

/-- **Corresponding batches** keep the correspondence. -/
theorem SameEvents.applyBatch {batch batch' : WriteBatch}
    (hBatch : List.Forall₂ (SameRecord C store store') batch batch') {contents contents' : Contents}
    (h : SameEvents C store store' contents contents') :
    SameEvents C store store' (applyBatch contents batch) (applyBatch contents' batch') := by
  induction hBatch generalizing contents contents' with
  | nil => exact h
  | cons hPut _ ih =>
      rw [applyBatch_cons, applyBatch_cons]
      exact ih (h.insert hPut)

theorem SameDatabases.write {db db' : RocksDb} (h : SameDatabases C store store' db db')
    {batch batch' : WriteBatch} (hBatch : List.Forall₂ (SameRecord C store store') batch batch')
    (sync sync' : Bool) :
    SameDatabases C store store' (db.write batch sync) (db'.write batch' sync') := by
  unfold SameDatabases
  rw [RocksDb.contents_write, RocksDb.contents_write]
  exact SameEvents.applyBatch hBatch h

/-- Record by record the same events. -/
theorem sameEvents_iff {contents contents' : Contents} :
    SameEvents C store store' contents contents' ↔
      List.Forall₂ (SameRecord C store store') contents.toList contents'.toList := by
  unfold SameEvents
  rw [← forall₂_toList_iff (R := fun key value value' =>
    SameRecord C store store' (key, value) (key, value'))]
  constructor
  · refine List.Forall₂.imp ?_
    rintro ⟨key, value⟩ ⟨key', value'⟩ ⟨hKey, hRecord⟩
    obtain rfl : key = key' := hKey
    exact hRecord
  · refine List.Forall₂.imp ?_
    rintro ⟨key, value⟩ ⟨key', value'⟩ hRecord
    obtain rfl : key = key' := hRecord.key_eq
    exact ⟨rfl, hRecord⟩

end Same

/-! ## Appending -/

section Appends

variable {C : Crates} {store store' : EventStore} {env env' : CallEnv}

/-- Equal envelopes are written without error, as records of equal events. -/
theorem lockstep_serialized (hEncodes : C.Lz4Encodes) {S : RocksDb → RocksDb → Prop}
    {e f : EventEnvelope} (hEq : e.PartialEq f) :
    Lockstep S (fun value value' =>
        SameRecord C store store' (generateEventKey e, value) (generateEventKey f, value'))
      (StoreM.serialized (store.serializer.serialize C e))
      (StoreM.serialized (store'.serializer.serialize C f)) := by
  obtain ⟨value, hValue⟩ := EventSerializer.serialize_ok hEncodes store.serializer e
  obtain ⟨value', hValue'⟩ := EventSerializer.serialize_ok hEncodes store'.serializer f
  rw [hValue, hValue']
  exact Lockstep.pure
    ⟨e, f, ⟨rfl, hValue⟩, ⟨rfl, hValue'⟩, key_eq_of_partialEq hEq, hEq.readBack⟩

theorem sameDatabases_read {db db' : RocksDb} (h : SameDatabases C store store' db db')
    (key : Bytes) : Option.Rel
      (fun value value' => SameRecord C store store' (key, value) (key, value'))
      db.contents[key]? db'.contents[key]? :=
  h key

variable (hEncodes : C.Lz4Encodes) (hFaults : env.SameFaults env')

include hFaults

theorem lockstep_validateKeys {es fs : List EventEnvelope}
    (h : List.Forall₂ EventEnvelope.PartialEq es fs) :
    Lockstep (SameDatabases C store store') Eq (validateKeys C env es)
      (validateKeys C env' fs) := by
  induction h with
  | nil => exact Lockstep.pure rfl
  | @cons e f _ _ hEq _ ih =>
      rw [validateKeys, validateKeys, ← key_eq_of_partialEq hEq]
      exact lockstep_ifFree hFaults (fun _ _ hs => sameDatabases_read hs _) _ ih

include hEncodes

theorem lockstep_appendEvent {e f : EventEnvelope} (hEq : e.PartialEq f) :
    Lockstep (SameDatabases C store store') Eq (appendEvent C store env e)
      (appendEvent C store' env' f) := by
  unfold appendEvent
  rw [← key_eq_of_partialEq hEq]
  refine lockstep_ifFree hFaults (fun _ _ hs => sameDatabases_read hs _) _ ?_
  refine (lockstep_serialized hEncodes hEq).bind fun value value' hRecord => ?_
  rw [← key_eq_of_partialEq hEq] at hRecord
  exact lockstep_writeOpt hFaults fun _ _ hs => hs.write (.cons hRecord .nil) _ _

theorem lockstep_prepareBatch {es fs : List EventEnvelope}
    (h : List.Forall₂ EventEnvelope.PartialEq es fs) {batch batch' : WriteBatch}
    (hBatch : List.Forall₂ (SameRecord C store store') batch batch') :
    Lockstep (SameDatabases C store store') (List.Forall₂ (SameRecord C store store'))
      (prepareBatch C store env es batch) (prepareBatch C store' env' fs batch') := by
  induction h generalizing batch batch' with
  | nil => exact Lockstep.pure hBatch
  | @cons e f _ _ hEq _ ih =>
      rw [prepareBatch, prepareBatch, ← key_eq_of_partialEq hEq]
      refine lockstep_ifFree hFaults (fun _ _ hs => sameDatabases_read hs _) _ ?_
      refine (lockstep_serialized hEncodes hEq).bind fun value value' hRecord => ?_
      rw [← key_eq_of_partialEq hEq] at hRecord
      exact ih (List.rel_append hBatch (.cons hRecord .nil))

theorem lockstep_appendEvents {es fs : List EventEnvelope}
    (h : List.Forall₂ EventEnvelope.PartialEq es fs) :
    Lockstep (SameDatabases C store store') Eq (appendEvents C store env es)
      (appendEvents C store' env' fs) := by
  unfold appendEvents
  cases h with
  | nil => exact Lockstep.pure rfl
  | cons hEq hRest =>
      refine (lockstep_prepareBatch hEncodes hFaults (.cons hEq hRest) .nil).bind ?_
      intro batch batch' hBatch
      exact lockstep_writeOpt hFaults fun _ _ hs => hs.write hBatch _ _

omit hFaults in
/-- The batches correspond; the bytes are counted on each side. -/
theorem lockstep_serializeBatch {S : RocksDb → RocksDb → Prop} {es fs : List EventEnvelope}
    (h : List.Forall₂ EventEnvelope.PartialEq es fs) {batch batch' : WriteBatch}
    (hBatch : List.Forall₂ (SameRecord C store store') batch batch') (bytes bytes' : Nat) :
    Lockstep S (fun r r' => List.Forall₂ (SameRecord C store store') r.1 r'.1)
      (serializeBatch C store es batch bytes) (serializeBatch C store' fs batch' bytes') := by
  induction h generalizing batch batch' bytes bytes' with
  | nil => exact Lockstep.pure hBatch
  | @cons e f _ _ hEq _ ih =>
      rw [serializeBatch, serializeBatch]
      refine (lockstep_serialized hEncodes hEq).bind fun value value' hRecord => ?_
      exact ih (List.rel_append hBatch (.cons hRecord .nil)) _ _

theorem lockstep_appendEventsOptimized {es fs : List EventEnvelope}
    (h : List.Forall₂ EventEnvelope.PartialEq es fs) :
    Lockstep (SameDatabases C store store') (fun r r' => r.eventsWritten = r'.eventsWritten)
      (appendEventsOptimized C store env es) (appendEventsOptimized C store' env' fs) := by
  have hLength := h.length_eq
  unfold appendEventsOptimized
  cases h with
  | nil => exact Lockstep.pure rfl
  | cons hEq hRest =>
      refine (lockstep_validateKeys hFaults (.cons hEq hRest)).bind fun _ _ _ => ?_
      refine (lockstep_serializeBatch hEncodes (.cons hEq hRest) .nil 0 0).bind ?_
      rintro ⟨batch, bytes⟩ ⟨batch', bytes'⟩ hBatch
      refine (lockstep_writeOpt hFaults fun _ _ hs => hs.write hBatch _ _).bind fun _ _ _ => ?_
      exact Lockstep.pure hLength

end Appends

/-! ## Reading -/

section Reads

/-- Equal events concern the same accounts. -/
theorem accounts_eq_of_partialEq {e f : EventEnvelope} (h : e.PartialEq f) :
    accounts e = accounts f := by
  have hData := h.1
  unfold accounts
  generalize e.eventData = data at hData ⊢
  generalize f.eventData = data' at hData ⊢
  cases data <;> cases data' <;> simp only [LedgerEvent.PartialEq] at hData ⊢
  case accountCreated.accountCreated => rw [← hData.2]
  case accountMetadataUpdated.accountMetadataUpdated => rw [← hData.2.2]
  case transactionProcessed.transactionProcessed => rw [← hData.2]
  all_goals rw [hData]

theorem timestamp_eq_of_partialEq {e f : EventEnvelope} (h : e.PartialEq f) :
    e.timestamp = f.timestamp := by
  have hField := congrArg EventEnvelope.timestamp h.2
  exact hField

theorem eventId_eq_of_partialEq {e f : EventEnvelope} (h : e.PartialEq f) :
    e.eventId = f.eventId := by
  have hField := congrArg EventEnvelope.eventId h.2
  exact hField

theorem eventType_eq_of_partialEq {e f : EventEnvelope} (h : e.PartialEq f) :
    e.eventType = f.eventType := by
  have hField := congrArg EventEnvelope.eventType h.2
  exact hField

variable {C : Crates} {store store' : EventStore} {env env' : CallEnv}

variable (C store store' env env') in
/-- Two items that decode to equal events, or fail alike. -/
def SameItem (item item' : Except RocksDbError (Bytes × Bytes)) : Prop :=
  Agree EventEnvelope.PartialEq (decodeItem C store env item) (decodeItem C store' env' item')

/-- **Scans meet the same events.** -/
theorem SameDatabases.items (hTime : C.TimeTextReadsBack) (hDecodes : C.Lz4DecodesBack)
    (hFaults : env.SameFaults env') {db db' : RocksDb} (h : SameDatabases C store store' db db')
    (mode : IteratorMode) : List.Forall₂ (SameItem C store store' env env')
      (db.iterator env mode) (db'.iterator env' mode) := by
  refine RocksDb.forall₂_iterator ((sameEvents_iff.mp h).imp fun record record' hSame => ?_)
    (fun fault => .error _) hFaults.scan mode
  refine ⟨hSame.key_eq.symm, ?_⟩
  obtain ⟨e, f, hRecord, hRecord', -, hEq⟩ := hSame
  rw [SameItem, decodeItem_of_record hTime hDecodes env hRecord,
    decodeItem_of_record hTime hDecodes env' hRecord']
  exact .ok ((e.reread_partialEq _).trans (hEq.trans (f.reread_partialEq _).symm))

variable {items items' : List (Except RocksDbError (Bytes × Bytes))}

theorem agree_findEvent (eventId : EventId)
    (h : List.Forall₂ (SameItem C store store' env env') items items') :
    Agree (Option.Rel EventEnvelope.PartialEq) (findEvent C store env eventId items)
      (findEvent C store' env' eventId items') := by
  induction h with
  | nil => exact .ok .none
  | cons hItem _ ih =>
      refine hItem.bind fun e f hEq => ?_
      rw [← eventId_eq_of_partialEq hEq]
      by_cases hFound : e.eventId = eventId
      · rw [if_pos hFound, if_pos hFound]
        exact .ok (.some hEq)
      · rw [if_neg hFound, if_neg hFound]
        exact ih

theorem agree_queryLoop (query : EventQuery) (limit offset : Nat)
    (h : List.Forall₂ (SameItem C store store' env env') items items')
    {events events' : List EventEnvelope}
    (hEvents : List.Forall₂ EventEnvelope.PartialEq events events') (count : Nat) :
    Agree (List.Forall₂ EventEnvelope.PartialEq)
      (queryLoop C store env query limit offset items events count)
      (queryLoop C store' env' query limit offset items' events' count) := by
  induction h generalizing events events' count with
  | nil => exact .ok hEvents
  | cons hItem _ ih =>
      refine hItem.bind fun e f hEq => ?_
      -- the tests see nothing in which the two events differ
      have hAccount (a : AccountId) : eventMatchesAccount f a = eventMatchesAccount e a := by
        rw [eventMatchesAccount_eq, eventMatchesAccount_eq, accounts_eq_of_partialEq hEq]
      simp only [hAccount, ← timestamp_eq_of_partialEq hEq, ← eventType_eq_of_partialEq hEq,
        ← hEvents.length_eq]
      split_ifs
      · exact ih hEvents count
      · exact .ok hEvents
      · exact ih hEvents count
      · exact ih hEvents (count + 1)
      · exact .ok hEvents
      · exact ih (List.rel_append hEvents (.cons hEq .nil)) (count + 1)

theorem agree_statisticsLoop (h : List.Forall₂ (SameItem C store store' env env') items items')
    (stats : EventStoreStatistics) :
    Agree Eq (statisticsLoop C store env items stats)
      (statisticsLoop C store' env' items' stats) := by
  induction h generalizing stats with
  | nil => exact .ok rfl
  | cons hItem _ ih =>
      refine hItem.bind fun e f hEq => ?_
      simp only [← timestamp_eq_of_partialEq hEq]
      exact ih _

variable (hTime : C.TimeTextReadsBack) (hDecodes : C.Lz4DecodesBack)
  (hFaults : env.SameFaults env') {db db' : RocksDb} (h : SameDatabases C store store' db db')

include hTime hDecodes hFaults h

theorem agree_queryEvents (query : EventQuery) :
    Agree SamePage (store.queryEvents C env query db) (store'.queryEvents C env' query db') := by
  refine (agree_queryLoop query _ _ (h.items hTime hDecodes hFaults _) .nil 0).bind ?_
  intro events events' hEvents
  refine .ok ⟨hEvents, rfl, ?_⟩
  show decide (events.length = _) = decide (events'.length = _)
  rw [hEvents.length_eq]

theorem agree_getAccountEvents (accountId : AccountId) :
    Agree (List.Forall₂ EventEnvelope.PartialEq) (store.getAccountEvents C env accountId db)
      (store'.getAccountEvents C env' accountId db') :=
  (agree_queryEvents hTime hDecodes hFaults h _).bind fun _ _ hPage => .ok hPage.events

theorem agree_getEventsInRange (startTime endTime : DateTime) :
    Agree (List.Forall₂ EventEnvelope.PartialEq)
      (store.getEventsInRange C env startTime endTime db)
      (store'.getEventsInRange C env' startTime endTime db') :=
  (agree_queryEvents hTime hDecodes hFaults h _).bind fun _ _ hPage => .ok hPage.events

theorem agree_getLatestEvents (limit : Nat) :
    Agree (List.Forall₂ EventEnvelope.PartialEq) (store.getLatestEvents C env limit db)
      (store'.getLatestEvents C env' limit db') := by
  refine (Agree.mapM (List.forall₂_take limit (h.items hTime hDecodes hFaults .end))).bind ?_
  intro events events' hEvents
  exact .ok (List.forall₂_reverse_iff.mpr hEvents)

end Reads

/-! ## Stores that hold the same events -/

section Stores

variable (C : Crates) (hTime : C.TimeTextReadsBack) (hEncodes : C.Lz4Encodes)
  (hDecodes : C.Lz4DecodesBack)

include hTime hEncodes hDecodes

/-- **Step**: on databases with the same events the same call is answered alike, and leaves
databases with the same events. -/
theorem calls_agree (store store' : EventStore) :
    CallsAgree SameCall Reply.Same (SameDatabases C store store')
      (performApi C store id) (performApi C store' id) := by
  rintro ⟨env, call⟩ ⟨env', call'⟩ db db' ⟨hFaults, hRequest⟩ hSame
  cases hRequest with
  | appendEvent hEq =>
      obtain ⟨hReply, hAfter⟩ := lockstep_appendEvent hEncodes hFaults hEq db db' hSame
      exact ⟨.appended hReply, hAfter⟩
  | appendEvents hEq =>
      obtain ⟨hReply, hAfter⟩ := lockstep_appendEvents hEncodes hFaults hEq db db' hSame
      exact ⟨.appended hReply, hAfter⟩
  | appendEventsOptimized hEq =>
      obtain ⟨hReply, hAfter⟩ := lockstep_appendEventsOptimized hEncodes hFaults hEq db db' hSame
      exact ⟨.appendedOptimized hReply, hAfter⟩
  | getEvent eventId =>
      exact ⟨.found (agree_findEvent eventId (hSame.items hTime hDecodes hFaults _)), hSame⟩
  | queryEvents query =>
      exact ⟨.queried (agree_queryEvents hTime hDecodes hFaults hSame query), hSame⟩
  | compact => exact ⟨.compacted (.ok rfl), hSame⟩
  | getAccountEvents accountId =>
      exact ⟨.listed (agree_getAccountEvents hTime hDecodes hFaults hSame accountId), hSame⟩
  | getEventsInRange startTime endTime =>
      exact ⟨.listed (agree_getEventsInRange hTime hDecodes hFaults hSame startTime endTime), hSame⟩
  | getLatestEvents limit =>
      exact ⟨.listed (agree_getLatestEvents hTime hDecodes hFaults hSame limit), hSame⟩
  | getStatistics =>
      exact ⟨.statistics (agree_statisticsLoop (hSame.items hTime hDecodes hFaults _) _), hSame⟩

/-- **Settings cannot be observed**: two new stores answer every sequence of calls alike,
whatever their settings, the seeds they decode under and the time their writes take. -/
theorem settings_unobservable (config config' : EventStoreConfig) :
    Indistinguishable SameCall Reply.Same (performApi C (new config) id)
      (performApi C (new config') id) .empty .empty := by
  intro order order' hCalls
  have hStart : SameDatabases C (new config) (new config') .empty .empty := sameEvents_empty
  exact (sequentially_agree (calls_agree C hTime hEncodes hDecodes _ _) hCalls hStart).1

end Stores

/-- A compressing store and one that does not compress. -/
theorem settings_unobservable_test :
    Indistinguishable SameCall Reply.Same (performApi Crates.sample (new .default) id)
      (performApi Crates.sample (new (.development .default)) id) .empty .empty :=
  settings_unobservable Crates.sample Crates.sample_timeTextReadsBack Crates.sample_lz4Encodes
    Crates.sample_lz4DecodesBack .default (.development .default)

/-! ## What a read tells -/

section Tells

variable {C : Crates} {store store' : EventStore} {env env' : CallEnv}

section Runs

variable {h h' : History} (hTime : C.TimeTextReadsBack) (hDecodes : C.Lz4DecodesBack)
  (hReach : Reachable C store AnyCall .empty h) (hKept : ∀ e ∈ h.ackedEvents, KeepsKey e)
  (hScan : env.scanFault = none) {limit : Nat} (hAll : h.db.contents.size ≤ limit)

include hTime hDecodes hReach hKept hScan hAll

end Runs

end Tells

end LedgerFS.EventStore
