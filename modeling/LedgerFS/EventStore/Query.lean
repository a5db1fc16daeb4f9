import LedgerFS.EventStore.KeyOrder
import LedgerFS.EventStore.Runs
import LedgerFS.Library.OrderedScan
import Mathlib.Data.List.TakeWhile

/-!
# Queries

`query_events` walks the records in key order from a seek position and filters
on the way.  Its meaning is stated over the decoded events (`StoredEvents`): the
loop is the composition of the filters, the early stop, the offset and the
limit (`queryLoop_eq`), and the seek selects by nanosecond count
(`queryEvents_eq`).
-/

namespace LedgerFS.EventStore

open LedgerFS.Core
open LedgerFS.Library

/-! ## Stored events -/

section Stored

variable (C : Crates) (store : EventStore) (env : CallEnv)

/-- What the records decode to during one call, in key order. -/
def StoredEvents (contents : Contents) (stored : List EventEnvelope) : Prop :=
  List.Forall₂ (fun record e => decodeItem C store env (.ok record) = .ok e)
    contents.toList stored

/-- The key of the first comes before the key of the second. -/
def KeyBefore (e f : EventEnvelope) : Prop :=
  compare (generateEventKey e) (generateEventKey f) = .lt

instance : DecidableRel KeyBefore := fun e f =>
  inferInstanceAs (Decidable (compare (generateEventKey e) (generateEventKey f) = .lt))

theorem KeyBefore.asymm {e f : EventEnvelope} (h : KeyBefore e f) : ¬ KeyBefore f e := by
  intro hBack
  have hSwap : compare (generateEventKey f) (generateEventKey e) = .gt :=
    Std.OrientedCmp.gt_of_lt h
  rw [KeyBefore, hSwap] at hBack
  cases hBack

/-- Records decode one by one, to events with their keys. -/
def DecodesTo (records : List (Bytes × Bytes)) (events : List EventEnvelope) : Prop :=
  List.Forall₂ (fun record e => decodeItem C store env (.ok record) = .ok e ∧
    generateEventKey e = record.1) records events

variable {C store env}

/-- Every record of a run decodes. -/
theorem exists_stored (hTime : C.TimeTextReadsBack) (hDecodes : C.Lz4DecodesBack)
    (env : CallEnv) {admits : Contents → Call → Prop} {h : History}
    (hReach : Reachable C store admits .empty h) :
    ∃ stored, StoredEvents C store env h.db.contents stored := by
  have hAll := hReach.acknowledged
  unfold StoredEvents
  generalize h.db.contents.toList = records at hAll
  induction records with
  | nil => exact ⟨[], .nil⟩
  | cons record records ih =>
      obtain ⟨⟨e, -, hRecord⟩, hRest⟩ := List.forall_mem_cons.mp hAll
      obtain ⟨stored, hStored⟩ := ih hRest
      exact ⟨_ :: stored, .cons (decodeItem_of_record hTime hDecodes env hRecord) hStored⟩

theorem DecodesTo.storedEvents {contents : Contents} {stored : List EventEnvelope}
    (h : DecodesTo C store env contents.toList stored) :
    StoredEvents C store env contents stored :=
  h.imp fun _ _ hBoth => hBoth.1

theorem DecodesTo.keys {records : List (Bytes × Bytes)} {events : List EventEnvelope}
    (h : DecodesTo C store env records events) :
    events.map generateEventKey = records.map Prod.fst := by
  induction h with
  | nil => rfl
  | cons hBoth _ ih => rw [List.map_cons, List.map_cons, hBoth.2, ih]

/-- The events are in key order, like their records. -/
theorem DecodesTo.ordered {contents : Contents} {stored : List EventEnvelope}
    (h : DecodesTo C store env contents.toList stored) : stored.Pairwise KeyBefore := by
  have hRecords : (contents.toList.map Prod.fst).Pairwise fun a b => compare a b = .lt := by
    rw [List.pairwise_map]
    exact Std.ExtTreeMap.ordered_keys_toList
  rw [← h.keys, List.pairwise_map] at hRecords
  exact hRecords

theorem nodup_of_ordered {events : List EventEnvelope} (h : events.Pairwise KeyBefore) :
    events.Nodup := by
  refine h.imp ?_
  rintro e f hBefore rfl
  exact hBefore.asymm hBefore

/-- A stored envelope, reread, is among the decoded events. -/
theorem StoredEvents.mem_of_holds (hTime : C.TimeTextReadsBack)
    (hDecodes : C.Lz4DecodesBack) {contents : Contents} {stored : List EventEnvelope}
    (h : StoredEvents C store env contents stored) {e : EventEnvelope}
    (hHolds : Holds C store contents e) : ∃ hs, e.reread hs ∈ stored := by
  obtain ⟨v, hValue, hGet⟩ := hHolds
  have hMem := Std.ExtTreeMap.mem_toList_iff_getElem?_eq_some.mpr hGet
  have hDecode := decodeItem_of_record hTime hDecodes env
    (show IsRecord C store e (generateEventKey e, v) from ⟨rfl, hValue⟩)
  refine ⟨env.seeds v, ?_⟩
  unfold StoredEvents at h
  generalize contents.toList = records at h hMem
  induction h with
  | nil => cases hMem
  | cons hHere _ ih =>
      rcases List.mem_cons.mp hMem with rfl | hTail
      · cases hDecode.symm.trans hHere
        exact List.mem_cons_self
      · exact List.mem_cons_of_mem _ (ih hTail)

/-- A decoded event of a run is an acknowledged one, reread. -/
theorem StoredEvents.acknowledged (hTime : C.TimeTextReadsBack)
    (hDecodes : C.Lz4DecodesBack) {admits : Contents → Call → Prop} {h : History}
    (hReach : Reachable C store admits .empty h) {stored : List EventEnvelope}
    (hStored : StoredEvents C store env h.db.contents stored) {f : EventEnvelope}
    (hf : f ∈ stored) : ∃ e ∈ h.ackedEvents, ∃ hs, f = e.reread hs := by
  have hAll := hReach.acknowledged
  unfold StoredEvents at hStored
  generalize h.db.contents.toList = records at hAll hStored
  induction hStored with
  | nil => cases hf
  | @cons record g _ _ hDecode _ ih =>
      obtain ⟨⟨e, he, hRecord⟩, hRest⟩ := List.forall_mem_cons.mp hAll
      rcases List.mem_cons.mp hf with rfl | hTail
      · cases (decodeItem_of_record hTime hDecodes env hRecord).symm.trans hDecode
        exact ⟨e, he, _, rfl⟩
      · exact ih hTail hRest

/-- A call finds one list of events. -/
theorem StoredEvents.unique {contents : Contents} {stored stored' : List EventEnvelope}
    (h : StoredEvents C store env contents stored)
    (h' : StoredEvents C store env contents stored') : stored = stored' := by
  have hOne : Relator.RightUnique fun (record : Bytes × Bytes) e =>
      decodeItem C store env (.ok record) = .ok e := by
    intro record e f he hf
    exact Except.ok.inj (he.symm.trans hf)
  exact hOne.forall₂ h h'

/-- What holds of what all acknowledged timestamps are read back to holds of all decoded ones. -/
theorem StoredEvents.timestamps (hTime : C.TimeTextReadsBack)
    (hDecodes : C.Lz4DecodesBack) {admits : Contents → Call → Prop} {h : History}
    (hReach : Reachable C store admits .empty h) {stored : List EventEnvelope}
    (hStored : StoredEvents C store env h.db.contents stored) {P : DateTime → Prop}
    (hAcked : ∀ e ∈ h.ackedEvents, P e.timestamp.readBack) : ∀ f ∈ stored, P f.timestamp := by
  intro f hf
  obtain ⟨e, he, hs, rfl⟩ := hStored.acknowledged hTime hDecodes hReach hf
  exact hAcked e he

/-- There are no more decoded events than acknowledged ones. -/
theorem StoredEvents.length_le {admits : Contents → Call → Prop} {h : History}
    (hReach : Reachable C store admits .empty h) {stored : List EventEnvelope}
    (hStored : StoredEvents C store env h.db.contents stored) :
    stored.length ≤ h.ackedEvents.length := by
  rw [← hStored.length_eq, Std.ExtTreeMap.length_toList]
  exact hReach.size_le

/-- Decoded events that keep their keys have the keys of their records. -/
theorem StoredEvents.decodesTo (hTime : C.TimeTextReadsBack) (hDecodes : C.Lz4DecodesBack)
    {admits : Contents → Call → Prop} {h : History} (hReach : Reachable C store admits .empty h)
    {stored : List EventEnvelope} (hStored : StoredEvents C store env h.db.contents stored)
    (hKept : ∀ e ∈ h.ackedEvents, ∀ hs, e.reread hs ∈ stored → KeepsKey e) :
    DecodesTo C store env h.db.contents.toList stored := by
  have hAll := hReach.acknowledged
  unfold StoredEvents at hStored
  generalize h.db.contents.toList = records at hAll hStored
  induction hStored with
  | nil => exact .nil
  | cons hDecode _ ih =>
      obtain ⟨⟨e, he, hRecord⟩, hRest⟩ := List.forall_mem_cons.mp hAll
      cases (decodeItem_of_record hTime hDecodes env hRecord).symm.trans hDecode
      have hKey : generateEventKey e.readBack = generateEventKey e :=
        hKept e he _ List.mem_cons_self
      refine .cons ⟨hDecode, hKey.trans hRecord.1.symm⟩ (ih ?_ hRest)
      intro f hf hs hMem
      exact hKept f hf hs (List.mem_cons_of_mem _ hMem)

/-- From 1970 on they do. -/
theorem StoredEvents.decodesTo_of_nonneg (hTime : C.TimeTextReadsBack)
    (hDecodes : C.Lz4DecodesBack) {admits : Contents → Call → Prop} {h : History}
    (hReach : Reachable C store admits .empty h) {stored : List EventEnvelope}
    (hStored : StoredEvents C store env h.db.contents stored)
    (hRange : ∀ f ∈ stored, 0 ≤ f.timestamp.secs) :
    DecodesTo C store env h.db.contents.toList stored := by
  refine hStored.decodesTo hTime hDecodes hReach fun e _ hs hMem => keepsKey_of_nonneg ?_
  have hBack := hRange _ hMem
  rw [EventEnvelope.reread_timestamp] at hBack
  exact e.timestamp.secs_readBack_nonneg_iff.mp hBack

end Stored

/-! ## The scan -/

section Scan

variable (C : Crates) (store : EventStore) (env : CallEnv)

/-- The accounts an event concerns. -/
def accounts (e : EventEnvelope) : List AccountId :=
  match e.eventData with
  | .accountCreated event => [event.accountId]
  | .accountStatusChanged event => [event.accountId]
  | .accountMetadataUpdated event => [event.accountId]
  | .transactionProcessed event => event.fromAccount.toList ++ event.toAccount.toList
  | .balanceUpdated event => [event.accountId]
  | .merkleRootGenerated _ => []
  | .digestPublished _ => []

theorem accounts_rehash (hs : Hashers) (e : EventEnvelope) :
    accounts (e.rehash hs) = accounts e := by
  unfold accounts EventEnvelope.rehash LedgerEvent.rehash
  cases e.eventData <;> rfl

/-- What is read back concerns the same accounts. -/
theorem accounts_reread (hs : Hashers) (e : EventEnvelope) :
    accounts (e.reread hs) = accounts e := by
  rw [EventEnvelope.reread, accounts_rehash]
  unfold accounts EventEnvelope.readBack EventEnvelope.mapInstants LedgerEvent.mapInstants
  cases e.eventData <;> rfl

/-- The event concerns the account asked for. -/
def forAccount (query : EventQuery) (e : EventEnvelope) : Bool :=
  query.accountId.all fun a => a ∈ accounts e

/-- The event is not later than the end asked for. -/
def untilEnd (query : EventQuery) (e : EventEnvelope) : Bool :=
  query.endTime.all fun t => e.timestamp ≤ t

/-- The event is of a type asked for. -/
def ofTypes (query : EventQuery) (e : EventEnvelope) : Bool :=
  query.eventTypes.all fun types => types.contains e.eventType

/-- The matches a scan meets: an event of the account past the end stops it. -/
def metByScan (query : EventQuery) (events : List EventEnvelope) : List EventEnvelope :=
  ((events.filter (forAccount query)).takeWhile (untilEnd query)).filter (ofTypes query)

theorem metByScan_of_account {query : EventQuery} (hEnd : query.endTime = none)
    (hTypes : query.eventTypes = none) (events : List EventEnvelope) :
    metByScan query events = events.filter (forAccount query) := by
  have hUntil : ∀ e : EventEnvelope, untilEnd query e = true := fun e => by
    simp [untilEnd, hEnd]
  have hOfTypes : ∀ e : EventEnvelope, ofTypes query e = true := fun e => by
    simp [ofTypes, hTypes]
  rw [metByScan, List.takeWhile_eq_self_iff.mpr fun e _ => hUntil e]
  exact List.filter_eq_self.mpr fun e _ => hOfTypes e

theorem metByScan_of_range {query : EventQuery} (hAccount : query.accountId = none)
    (hTypes : query.eventTypes = none) (events : List EventEnvelope) :
    metByScan query events = events.takeWhile (untilEnd query) := by
  have hForAccount : ∀ e : EventEnvelope, forAccount query e = true := fun e => by
    simp [forAccount, hAccount]
  have hOfTypes : ∀ e : EventEnvelope, ofTypes query e = true := fun e => by
    simp [ofTypes, hTypes]
  rw [metByScan, List.filter_eq_self.mpr fun e _ => hForAccount e]
  exact List.filter_eq_self.mpr fun e _ => hOfTypes e

/-- The events a scan from the seek position meets. -/
def fromSeek (startTime : Option DateTime) (stored : List EventEnvelope) :
    List EventEnvelope :=
  match startTime with
  | some s => stored.filter fun e => timestampNanos s ≤ timestampNanos e.timestamp
  | none => stored

variable {C store env}

/-- The helper of the store tells which events concern an account. -/
theorem eventMatchesAccount_eq (e : EventEnvelope) (a : AccountId) :
    eventMatchesAccount e a = decide (a ∈ accounts e) := by
  unfold eventMatchesAccount accounts
  cases e.eventData with
  | transactionProcessed event =>
      rw [Bool.eq_iff_iff]
      simp [Option.mem_toList]
  | _ => simp [eq_comm]

/-- **The loop**: one filter after the other, then the offset and the limit. -/
theorem queryLoop_eq (query : EventQuery) (limit offset : Nat)
    {records : List (Bytes × Bytes)} {events : List EventEnvelope}
    (h : List.Forall₂ (fun record e => decodeItem C store env (.ok record) = .ok e) records events)
    (found : List EventEnvelope) (count : Nat) :
    queryLoop C store env query limit offset (records.map .ok) found count =
      .ok (found ++
        ((metByScan query events).drop (offset - count)).take (limit - found.length)) := by
  induction h generalizing found count with
  | nil => simp [queryLoop, metByScan]
  | @cons record e records events hHere _ ih =>
      rw [List.map_cons, queryLoop, hHere]
      have hAccount : (query.accountId.any fun a => !eventMatchesAccount e a) =
          !forAccount query e := by
        cases hId : query.accountId <;> simp [forAccount, hId, eventMatchesAccount_eq]
      have hEnd : (query.endTime.any fun t => decide (e.timestamp > t)) =
          !untilEnd query e := by
        cases hTime : query.endTime with
        | none => simp [untilEnd, hTime]
        | some t =>
            simp only [untilEnd, hTime, Option.any_some, Option.all_some, gt_iff_lt,
              ← decide_not, not_le]
      have hTypes : (query.eventTypes.any fun types => !types.contains e.eventType) =
          !ofTypes query e := by
        cases hNames : query.eventTypes <;> simp [ofTypes, hNames]
      show (if (query.accountId.any fun a => !eventMatchesAccount e a) = true then _
        else if (query.endTime.any fun t => decide (e.timestamp > t)) = true then _
        else if (query.eventTypes.any fun types => !types.contains e.eventType) = true then _
        else _) = _
      rw [hAccount, hEnd, hTypes]
      by_cases hForAccount : forAccount query e = true
      · by_cases hUntilEnd : untilEnd query e = true
        · by_cases hOfTypes : ofTypes query e = true
          · have hMet : metByScan query (e :: events) = e :: metByScan query events := by
              simp [metByScan, hForAccount, hUntilEnd, hOfTypes]
            rw [hMet]
            simp only [hForAccount, hUntilEnd, hOfTypes, Bool.not_true, Bool.false_eq_true,
              if_false]
            by_cases hSkip : count < offset
            · have hDrop : offset - count = offset - (count + 1) + 1 := by omega
              rw [if_pos hSkip, ih, hDrop, List.drop_succ_cons]
            · have hNone : offset - count = 0 := by omega
              have hNext : offset - (count + 1) = 0 := by omega
              rw [if_neg hSkip, hNone, List.drop_zero]
              by_cases hFull : found.length ≥ limit
              · have hNoMore : limit - found.length = 0 := by omega
                rw [if_pos hFull, hNoMore, List.take_zero, List.append_nil]
              · have hMore : limit - found.length = limit - (found.length + 1) + 1 := by
                  omega
                rw [if_neg hFull, ih, hNext, hMore, List.take_succ_cons,
                  List.length_append, List.length_singleton, List.drop_zero,
                  List.append_assoc, List.singleton_append]
          · have hMet : metByScan query (e :: events) = metByScan query events := by
              simp [metByScan, hForAccount, hUntilEnd, hOfTypes]
            rw [hMet]
            simp only [hForAccount, hUntilEnd, hOfTypes, Bool.not_true, Bool.not_false,
              Bool.false_eq_true, if_false, if_true]
            exact ih found count
        · have hMet : metByScan query (e :: events) = [] := by
            simp [metByScan, hForAccount, hUntilEnd]
          simp [hMet, hForAccount, hUntilEnd]
      · have hMet : metByScan query (e :: events) = metByScan query events := by
          simp [metByScan, hForAccount]
        rw [hMet]
        simp only [hForAccount, Bool.not_false, if_true]
        exact ih found count

/-- Seeking selects the events with their records. -/
theorem DecodesTo.filter {records : List (Bytes × Bytes)} {events : List EventEnvelope}
    (h : DecodesTo C store env records events) (s : DateTime) :
    DecodesTo C store env
      (records.filter fun record => (compare (generateTimeKeyPrefix s) record.1).isLE)
      (events.filter fun e => timestampNanos s ≤ timestampNanos e.timestamp) := by
  induction h with
  | nil => exact .nil
  | @cons record e _ _ hBoth _ ih =>
      have hSeek := timeKeyPrefix_le_iff s e
      rw [hBoth.2] at hSeek
      by_cases hLate : timestampNanos s ≤ timestampNanos e.timestamp
      · rw [List.filter_cons, List.filter_cons, if_pos (hSeek.mpr hLate),
          if_pos (decide_eq_true hLate)]
        exact .cons hBoth ih
      · rw [List.filter_cons, List.filter_cons, if_neg (fun hLE => hLate (hSeek.mp hLE)),
          if_neg (by simpa using hLate)]
        exact ih

/-- The page a query returns of the decoded events. -/
def pageOf (query : EventQuery) (stored : List EventEnvelope) : List EventEnvelope :=
  ((metByScan query (fromSeek query.startTime stored)).drop (query.offset.getD 0)).take
    (query.limit.getD 1000)

theorem metByScan_unfiltered (startTime : Option DateTime) (limit : Option Nat)
    (events : List EventEnvelope) : metByScan (.unfiltered startTime limit) events = events := by
  rw [metByScan_of_account rfl rfl]
  exact List.filter_eq_self.mpr fun _ _ => rfl

theorem pageOf_unfiltered (limit : Option Nat) (stored : List EventEnvelope) :
    pageOf (.unfiltered none limit) stored = stored.take (limit.getD 1000) := by
  rw [pageOf, metByScan_unfiltered]
  rfl

/-- **What a query returns**, over the decoded events.  The keys matter only to a query with a
start time. -/
theorem queryEvents_eq_of_stored (hQuiet : env.scanFault = none) {db : RocksDb}
    {stored : List EventEnvelope} (h : StoredEvents C store env db.contents stored)
    (query : EventQuery)
    (hKeys : ∀ s ∈ query.startTime, DecodesTo C store env db.contents.toList stored) :
    store.queryEvents C env query db =
      .ok
        { events := pageOf query stored
          totalCount := none
          hasMore := (pageOf query stored).length = query.limit.getD 1000 } := by
  have hLoop {records : List (Bytes × Bytes)}
      (hRecords : List.Forall₂ (fun record e => decodeItem C store env (.ok record) = .ok e)
        records (fromSeek query.startTime stored)) :
      queryLoop C store env query (query.limit.getD 1000) (query.offset.getD 0)
          (records.map .ok) [] 0 = .ok (pageOf query stored) := by
    rw [queryLoop_eq query _ _ hRecords]
    rfl
  cases hStart : query.startTime with
  | none =>
      rw [hStart] at hLoop
      simp only [queryEvents, hStart, RocksDb.iterator, hQuiet]
      rw [hLoop h]
      rfl
  | some s =>
      rw [hStart] at hLoop
      simp only [queryEvents, hStart, RocksDb.iterator, hQuiet]
      rw [hLoop (((hKeys s hStart).filter s).imp fun _ _ hBoth => hBoth.1)]
      rfl

theorem queryEvents_eq (hQuiet : env.scanFault = none) {db : RocksDb}
    {stored : List EventEnvelope} (h : DecodesTo C store env db.contents.toList stored)
    (query : EventQuery) :
    store.queryEvents C env query db =
      .ok
        { events := pageOf query stored
          totalCount := none
          hasMore := (pageOf query stored).length = query.limit.getD 1000 } :=
  queryEvents_eq_of_stored hQuiet h.storedEvents query fun _ _ => h

end Scan

end LedgerFS.EventStore
