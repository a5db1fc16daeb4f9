import LedgerFS.EventStore.EventIds
import LedgerFS.EventStore.Reference

/-!
# Complete histories

`get_account_events` and `get_events_in_range` pass no limit on, and a query
without a limit returns a thousand events at most.  So the history of an account
is complete exactly up to a thousand events.  A range is complete exactly where
the scan reaches its events (`Reached`); where the counts are in time order that
again means a thousand events at most (`history_complete_iff`).
-/

namespace LedgerFS.EventStore

open LedgerFS.Core
open LedgerFS.Library

/-- All stored events of a kind are returned. -/
def Complete (wanted : EventEnvelope → Prop) (stored events : List EventEnvelope) : Prop :=
  ∀ e ∈ stored, wanted e → e ∈ events

/-- The event lies in the range. -/
def InRange (startTime endTime : DateTime) (e : EventEnvelope) : Prop :=
  startTime ≤ e.timestamp ∧ e.timestamp ≤ endTime

instance (startTime endTime : DateTime) : DecidablePred (InRange startTime endTime) :=
  fun _ => inferInstanceAs (Decidable (_ ∧ _))

/-- The stored events counted from the start time on and before an event. -/
def countedUpTo (startTime : DateTime) (stored : List EventEnvelope) (e : EventEnvelope) :
    List EventEnvelope :=
  stored.filter fun f =>
    startTime.nanosOrZero ≤ f.timestamp.nanosOrZero ∧ CountedBefore f e

/-- The event is counted from the start time on, and before it come fewer than
a thousand events, none of them past the end. -/
structure Reached (startTime endTime : DateTime) (stored : List EventEnvelope)
    (e : EventEnvelope) : Prop where
  fromStart : startTime.nanosOrZero ≤ e.timestamp.nanosOrZero
  notPastEnd : ∀ f ∈ countedUpTo startTime stored e, f.timestamp ≤ endTime
  notFull : (countedUpTo startTime stored e).length < 1000

section Histories

variable {C : Crates} {store : EventStore} {env : CallEnv} {db : RocksDb}
  {stored : List EventEnvelope}

/-- The query of `get_account_events`. -/
def accountQuery (a : AccountId) : EventQuery where
  accountId := some a
  startTime := none
  endTime := none
  limit := none
  offset := none
  eventTypes := none

/-- The query of `get_events_in_range`. -/
def rangeQuery (startTime endTime : DateTime) : EventQuery where
  accountId := none
  startTime := some startTime
  endTime := some endTime
  limit := none
  offset := none
  eventTypes := none

theorem getAccountEvents_eq (hQuiet : env.scanFault = none)
    (h : StoredEvents C store env db.contents stored) (a : AccountId) :
    store.getAccountEvents C env a db =
      .ok ((stored.filter fun e => a ∈ accounts e).take 1000) := by
  have hPage : pageOf (accountQuery a) stored =
      (stored.filter fun e => a ∈ accounts e).take 1000 := by
    rw [pageOf, metByScan_of_account rfl rfl]
    rfl
  show (store.queryEvents C env (accountQuery a) db >>= fun result =>
    pure result.events) = _
  rw [queryEvents_eq_of_stored hQuiet h _ (fun s hs => by cases hs), ← hPage]
  rfl

theorem getEventsInRange_eq (hQuiet : env.scanFault = none)
    (h : DecodesTo C store env db.contents.toList stored) (startTime endTime : DateTime) :
    store.getEventsInRange C env startTime endTime db =
      .ok (((fromSeek (some startTime) stored).takeWhile
        fun e => e.timestamp ≤ endTime).take 1000) := by
  have hPage : pageOf (rangeQuery startTime endTime) stored =
      ((fromSeek (some startTime) stored).takeWhile
        fun e => e.timestamp ≤ endTime).take 1000 := by
    rw [pageOf, metByScan_of_range rfl rfl]
    rfl
  show (store.queryEvents C env (rangeQuery startTime endTime) db >>= fun result =>
    pure result.events) = _
  rw [queryEvents_eq hQuiet h, ← hPage]
  rfl

/-- The first thousand events of a kind are all of them up to a thousand. -/
theorem complete_take_iff (hNodup : stored.Nodup) (wanted : EventEnvelope → Prop)
    [DecidablePred wanted] {sorted : List EventEnvelope} (hPerm : sorted.Perm stored) :
    Complete wanted stored ((sorted.filter fun e => wanted e).take 1000) ↔
      (stored.filter fun e => wanted e).length ≤ 1000 := by
  have hLength := (hPerm.filter fun e => decide (wanted e)).length_eq
  have hFiltered : (sorted.filter fun e => wanted e).Nodup :=
    (hPerm.nodup_iff.mpr hNodup).filter _
  rw [← hLength, ← OrderedScan.forall_mem_take_iff hFiltered]
  constructor
  · intro hAll e he
    obtain ⟨hMem, hWanted⟩ := List.mem_filter.mp he
    exact hAll e (hPerm.mem_iff.mp hMem) (of_decide_eq_true hWanted)
  · intro hAll e he hWanted
    exact hAll e (List.mem_filter.mpr ⟨hPerm.mem_iff.mpr he, decide_eq_true hWanted⟩)

/-- **Range scans return what they reach.** -/
theorem mem_range_iff_reached (hOrder : stored.Pairwise KeyBefore)
    (hRange : ∀ e ∈ stored, e.timestamp.InNanosRange) {startTime : DateTime}
    (hStart : startTime.InNanosRange) (endTime : DateTime) {e : EventEnvelope}
    (he : e ∈ stored) (hEnd : e.timestamp ≤ endTime) :
    e ∈ ((fromSeek (some startTime) stored).takeWhile
        fun f => f.timestamp ≤ endTime).take 1000 ↔
      Reached startTime endTime stored e := by
  have hSeek (f : EventEnvelope) (hf : f ∈ stored) :=
    seek_iff_counted hStart.1 (hRange f hf).1
  by_cases hFrom : e ∈ fromSeek (some startTime) stored
  · have hBefore : countedUpTo startTime stored e =
        (fromSeek (some startTime) stored).filter fun f => KeyBefore f e := by
      rw [countedUpTo, fromSeek, List.filter_filter]
      apply List.filter_congr
      intro f hf
      have hKey := keyBefore_iff_counted (hRange f hf).1 (hRange e he).1
      rw [Bool.eq_iff_iff, Bool.and_eq_true, decide_eq_true_eq, decide_eq_true_eq,
        decide_eq_true_eq, hSeek f hf, hKey, and_comm]
    rw [OrderedScan.mem_take_takeWhile_iff (fun _ _ hKey => hKey.asymm) _
      (fromSeek_ordered (some startTime) hOrder) 1000 hFrom,
      List.countP_eq_length_filter, ← hBefore]
    have hCounted := (hSeek e he).mp (((mem_fromSeek e).mp hFrom).2 startTime rfl)
    constructor
    · rintro ⟨-, hNotPast, hFew⟩
      refine ⟨hCounted, fun f hf => ?_, hFew⟩
      rw [hBefore, List.mem_filter, decide_eq_true_eq] at hf
      exact of_decide_eq_true (hNotPast f hf.1 hf.2)
    · intro hReached
      refine ⟨decide_eq_true hEnd, fun f hf hKey => ?_, hReached.notFull⟩
      apply decide_eq_true
      apply hReached.notPastEnd f
      rw [hBefore, List.mem_filter]
      exact ⟨hf, decide_eq_true hKey⟩
  · have hNotCounted : ¬ startTime.nanosOrZero ≤ e.timestamp.nanosOrZero := by
      intro hCounted
      apply hFrom
      rw [mem_fromSeek]
      refine ⟨he, fun s hs => ?_⟩
      cases hs
      exact (hSeek e he).mpr hCounted
    apply iff_of_false
    · intro hMem
      exact hFrom ((List.takeWhile_sublist _).subset (List.mem_of_mem_take hMem))
    · intro hReached
      exact hNotCounted hReached.fromStart

/-- In key order a range is complete up to a thousand events. -/
theorem complete_range_iff_of_inKeyOrder (hOrder : stored.Pairwise KeyBefore)
    {startTime : DateTime} (hIn : InKeyOrder (some startTime) stored) (endTime : DateTime) :
    Complete (InRange startTime endTime) stored
        (((fromSeek (some startTime) stored).takeWhile
          fun f => f.timestamp ≤ endTime).take 1000) ↔
      (stored.filter fun e => InRange startTime endTime e).length ≤ 1000 := by
  have hScan : (fromSeek (some startTime) stored).takeWhile (fun f => f.timestamp ≤ endTime) =
      (stored.mergeSort timeOrder).filter fun e => InRange startTime endTime e := by
    rw [fromSeek_eq_sortedFrom hOrder hIn]
    have hMet : metByScan (rangeQuery startTime endTime) (sortedFrom (some startTime) stored) =
        (stored.mergeSort timeOrder).filter (matchesQuery (rangeQuery startTime endTime)) :=
      metByScan_sortedFrom _
    have hMatches : matchesQuery (rangeQuery startTime endTime) =
        fun e => decide (InRange startTime endTime e) := by
      funext e
      rw [Bool.eq_iff_iff, decide_eq_true_eq]
      simp [matchesQuery, rangeQuery, forAccount, untilEnd, ofTypes, InRange]
    rw [metByScan_of_range rfl rfl, hMatches] at hMet
    exact hMet
  rw [hScan]
  exact complete_take_iff (nodup_of_ordered hOrder) _ (List.mergeSort_perm stored timeOrder)

end Histories

/-- **Complete histories**: up to a thousand events of an account, and as far as
the scan of a range reaches; in time order that is up to a thousand events. -/
theorem history_complete_iff (C : Crates) (hTime : C.TimeTextReadsBack)
    (hDecodes : C.Lz4DecodesBack) (store : EventStore) (h : History)
    (hReach : Reachable C store AnyCall .empty h) (env : CallEnv)
    (hQuiet : env.scanFault = none) :
    ∃ stored, StoredEvents C store env h.db.contents stored ∧
      ((∀ e ∈ stored, e.timestamp.InNanosRange) →
        (∀ a : AccountId, ∃ events, store.getAccountEvents C env a h.db = .ok events ∧
          (Complete (fun e => a ∈ accounts e) stored events ↔
            (stored.filter fun e => a ∈ accounts e).length ≤ 1000)) ∧
        ∀ startTime endTime : DateTime, startTime.InNanosRange →
          ∃ events, store.getEventsInRange C env startTime endTime h.db = .ok events ∧
            (Complete (InRange startTime endTime) stored events ↔
              ∀ e ∈ stored, InRange startTime endTime e →
                Reached startTime endTime stored e) ∧
            (InTimeOrder (some startTime) stored →
              (Complete (InRange startTime endTime) stored events ↔
                (stored.filter fun e => InRange startTime endTime e).length ≤ 1000))) := by
  obtain ⟨stored, hStored⟩ := exists_stored hTime hDecodes env hReach
  refine ⟨stored, hStored, fun hRange => ?_⟩
  have hKeys := hStored.decodesTo_of_nonneg hTime hDecodes hReach fun e he => (hRange e he).1
  have hOrder := hKeys.ordered
  refine ⟨fun a => ?_, fun startTime endTime hStart => ?_⟩
  · refine ⟨_, getAccountEvents_eq hQuiet hStored a, ?_⟩
    exact complete_take_iff (nodup_of_ordered hOrder) _ (List.Perm.refl stored)
  · refine ⟨_, getEventsInRange_eq hQuiet hKeys startTime endTime, ?_, fun hIn => ?_⟩
    · apply forall₂_congr
      intro e he
      apply forall_congr'
      intro hWanted
      exact mem_range_iff_reached hOrder hRange hStart endTime he hWanted.2
    · apply complete_range_iff_of_inKeyOrder hOrder
      apply (inKeyOrder_iff_inTimeOrder hRange fun s hs => ?_).mpr hIn
      cases hs
      exact hStart

/-- Of three events of two accounts, the two of the first account, and the two of the first
second. -/
theorem history_complete_test :
    let a : AccountId := ⟨Uuid.fromU128 1⟩
    ∃ (h : History) (stored history range : List EventEnvelope),
      h.appended = [later, first, tied] ∧
      StoredEvents Crates.sample (new .default) .quiet h.db.contents stored ∧
      (new .default).getAccountEvents Crates.sample .quiet a h.db = .ok history ∧
      Complete (fun e => a ∈ accounts e) stored history ∧
      (stored.filter fun e => a ∈ accounts e).length = 2 ∧
      (new .default).getEventsInRange Crates.sample .quiet DateTime.epoch DateTime.epoch h.db =
        .ok range ∧
      Complete (InRange DateTime.epoch DateTime.epoch) stored range ∧
      (stored.filter fun e => InRange DateTime.epoch DateTime.epoch e).length = 2 := by
  intro a
  obtain ⟨h, hReach, hAppended, hAll⟩ := exists_threeEvents_in_order
  obtain ⟨stored, hStored, hComplete⟩ := history_complete_iff Crates.sample
    Crates.sample_timeTextReadsBack Crates.sample_lz4DecodesBack (new .default) h hReach .quiet rfl
  obtain ⟨⟨hs₁, hs₂, hs₃, hThree⟩, hTimes, -⟩ := hAll stored hStored
  obtain ⟨hAccounts, hRanges⟩ := hComplete fun e he => (hTimes e he).1
  obtain ⟨history, hHistory, hOfAccount⟩ := hAccounts a
  obtain ⟨range, hRange, -, hOfRange⟩ := hRanges DateTime.epoch DateTime.epoch (by decide)
  have hOrder : InTimeOrder (some DateTime.epoch) stored :=
    inTimeOrder_of_nonLeap hTimes fun s hs => by cases hs; decide
  have hTwo : (stored.filter fun e => a ∈ accounts e).length = 2 := by
    rw [hThree]
    rfl
  have hTwo' : (stored.filter fun e => InRange DateTime.epoch DateTime.epoch e).length = 2 := by
    rw [hThree]
    rfl
  exact ⟨h, stored, history, range, hAppended, hStored, hHistory, hOfAccount.mpr (by omega), hTwo,
    hRange, (hOfRange hOrder).mpr (by omega), hTwo'⟩

/-- One event more than a thousand for one account: the last one is left out. -/
theorem history_truncated :
    ¬ ∀ (h : History) (stored : List EventEnvelope),
      Reachable Crates.sample (new .default) AnyCall .empty h →
      StoredEvents Crates.sample (new .default) .quiet h.db.contents stored →
      (∀ e ∈ stored, e.timestamp.InNanosRange) →
      (∀ a : AccountId, ∃ events,
        (new .default).getAccountEvents Crates.sample .quiet a h.db = .ok events ∧
          Complete (fun e => a ∈ accounts e) stored events) ∧
      ∀ startTime endTime : DateTime, startTime.InNanosRange → ∃ events,
        (new .default).getEventsInRange Crates.sample .quiet startTime endTime h.db =
            .ok events ∧
          Complete (InRange startTime endTime) stored events := by
  intro hAlways
  let a : AccountId := ⟨Uuid.fromU128 1⟩
  obtain ⟨envelopes, hLength, hIds, hEnvelopes⟩ := exists_testEnvelopes a DateTime.epoch
    (show 1001 ≤ 2 ^ 128 by decide)
  have hTime := Crates.sample_timeTextReadsBack
  have hDecodes := Crates.sample_lz4DecodesBack
  have hEnvelope {e : EventEnvelope} (he : e ∈ envelopes) :
      e.timestamp = DateTime.epoch ∧ accounts e = [a] := by
    obtain ⟨eventId, rfl⟩ := hEnvelopes e he
    exact ⟨rfl, rfl⟩
  obtain ⟨h, hAcked, hReach, hHolds⟩ := exists_history Crates.sample_lz4Encodes
    (new .default) AnyCall (.appendEvents envelopes) trivial
    (List.ne_nil_of_length_pos (by simp [Call.envelopes, hLength]))
    (nodup_keys_of_ids hIds)
  obtain ⟨stored, hStored⟩ := exists_stored hTime hDecodes .quiet hReach
  have hRange : ∀ f ∈ stored, f.timestamp.InNanosRange := by
    intro f hf
    obtain ⟨g, hg, hs, rfl⟩ := hStored.acknowledged hTime hDecodes hReach hf
    rw [History.ackedEvents, hAcked, List.flatMap_singleton] at hg
    rw [EventEnvelope.reread_timestamp, (hEnvelope hg).1]
    decide
  have hKeys := hStored.decodesTo_of_nonneg hTime hDecodes hReach fun e he => (hRange e he).1
  -- each of the 1001 ids is the id of a stored event of the account
  have hMany : envelopes.length ≤ (stored.filter fun f => a ∈ accounts f).length := by
    have hSub : envelopes.map EventEnvelope.eventId ⊆
        (stored.filter fun f => a ∈ accounts f).map EventEnvelope.eventId := by
      intro eventId hId
      obtain ⟨e, he, rfl⟩ := List.mem_map.mp hId
      obtain ⟨hs, hMem⟩ := hStored.mem_of_holds hTime hDecodes (hHolds e he)
      refine List.mem_map.mpr ⟨e.reread hs, List.mem_filter.mpr ⟨hMem, ?_⟩, rfl⟩
      rw [accounts_reread, (hEnvelope he).2]
      exact decide_eq_true List.mem_cons_self
    have hCount := (List.subperm_of_subset hIds hSub).length_le
    rw [List.length_map, List.length_map] at hCount
    exact hCount
  obtain ⟨events, hOk, hComplete⟩ := (hAlways h stored hReach hStored hRange).1 a
  cases (getAccountEvents_eq rfl hStored a).symm.trans hOk
  have hFew := (complete_take_iff (nodup_of_ordered hKeys.ordered) _
    (List.Perm.refl stored)).mp hComplete
  omega

end LedgerFS.EventStore
