import LedgerFS.EventStore.Reference

/-!
# The latest events and the statistics

`get_latest_events` takes items from the end of the key order and turns them
round; `get_statistics` goes forward once with a running minimum and maximum.
Against the list of all events sorted by timestamp and id, the statistics are
right on every store, the latest events exactly where the keys are in time order
(`readPaths_agree_iff`).
-/

namespace LedgerFS.EventStore

open LedgerFS.Core
open LedgerFS.Library

section Scans

variable {C : Crates} {store : EventStore} {env : CallEnv}

/-- Records that decode one by one decode in a row. -/
theorem mapM_decodeItem {records : List (Bytes × Bytes)} {events : List EventEnvelope}
    (h : List.Forall₂ (fun record e => decodeItem C store env (.ok record) = .ok e) records
      events) : (records.map .ok).mapM (decodeItem C store env) = .ok events := by
  induction h with
  | nil => rfl
  | cons hHere _ ih => rw [List.map_cons, List.mapM_cons, hHere, ih]; rfl

/-- **The scan from the end**: the last events in key order. -/
theorem getLatestEvents_eq (hQuiet : env.scanFault = none) {db : RocksDb}
    {stored : List EventEnvelope} (h : StoredEvents C store env db.contents stored) (k : Nat) :
    store.getLatestEvents C env k db = .ok (stored.drop (stored.length - k)) := by
  have hBack := List.forall₂_take k (List.forall₂_reverse_iff.mpr h)
  have hItems : (db.iterator env .end).take k =
      (db.contents.toList.reverse.take k).map .ok := by
    rw [RocksDb.iterator, hQuiet, List.map_take]
  rw [getLatestEvents, hItems, mapM_decodeItem hBack]
  show Except.ok (stored.reverse.take k).reverse = _
  rw [List.take_reverse, List.reverse_reverse]

/-- The earlier of the reading so far and the next. -/
theorem earlier_eq (oldest : Option DateTime) (t : DateTime) :
    (if oldest.all (fun o => decide (t < o)) then some t else oldest) =
      some (oldest.elim t fun o => min o t) := by
  cases oldest with
  | none => rfl
  | some o =>
      by_cases hLess : t < o
      · simp [hLess, min_eq_right_of_lt hLess]
      · simp [hLess, min_eq_left (not_lt.mp hLess)]

/-- The later of the reading so far and the next. -/
theorem later_eq (newest : Option DateTime) (t : DateTime) :
    (if newest.all (fun o => decide (t > o)) then some t else newest) =
      some (newest.elim t fun o => max o t) := by
  cases newest with
  | none => rfl
  | some o =>
      by_cases hMore : t > o
      · simp [hMore, max_eq_right_of_lt hMore]
      · simp [hMore, max_eq_left (not_lt.mp hMore)]

theorem min?_cons_elim (oldest : Option DateTime) (t : DateTime) (ts : List DateTime) :
    (oldest.toList ++ t :: ts).min? = ((oldest.elim t fun o => min o t) :: ts).min? := by
  cases oldest <;> rfl

theorem max?_cons_elim (newest : Option DateTime) (t : DateTime) (ts : List DateTime) :
    (newest.toList ++ t :: ts).max? = ((newest.elim t fun o => max o t) :: ts).max? := by
  cases newest <;> rfl

/-- **The running minimum and maximum** are those of all readings. -/
theorem statisticsLoop_eq {records : List (Bytes × Bytes)} {events : List EventEnvelope}
    (h : List.Forall₂ (fun record e => decodeItem C store env (.ok record) = .ok e) records events)
    (stats : EventStoreStatistics) :
    statisticsLoop C store env (records.map .ok) stats =
      .ok
        { totalEvents := stats.totalEvents + events.length
          oldestEvent :=
            (stats.oldestEvent.toList ++ events.map EventEnvelope.timestamp).min?
          newestEvent :=
            (stats.newestEvent.toList ++ events.map EventEnvelope.timestamp).max?
          databaseSizeBytes := stats.databaseSizeBytes } := by
  induction h generalizing stats with
  | nil =>
      rw [List.map_nil, statisticsLoop, List.length_nil, List.map_nil, List.append_nil,
        List.append_nil]
      rcases stats with ⟨total, _ | oldest, _ | newest, size⟩ <;> rfl
  | @cons record e records events hHere _ ih =>
      rw [List.map_cons, statisticsLoop, hHere]
      show statisticsLoop C store env (records.map .ok) _ = _
      rw [ih, earlier_eq, later_eq, List.map_cons, min?_cons_elim, max?_cons_elim,
        List.length_cons]
      simp only [Option.toList_some, List.singleton_append, Nat.add_assoc, Nat.add_comm 1]

theorem getStatistics_eq (hQuiet : env.scanFault = none) {db : RocksDb}
    {stored : List EventEnvelope} (h : StoredEvents C store env db.contents stored) :
    store.getStatistics C env db =
      .ok
        { totalEvents := stored.length
          oldestEvent := (stored.map EventEnvelope.timestamp).min?
          newestEvent := (stored.map EventEnvelope.timestamp).max?
          databaseSizeBytes := 0 } := by
  rw [getStatistics, RocksDb.iterator, hQuiet]
  rw [statisticsLoop_eq h]
  simp

end Scans

/-! ## Against the sorted events -/

section Sorted

variable {stored : List EventEnvelope}

/-- The first of the sorted events has the earliest timestamp. -/
theorem min?_timestamps_eq (stored : List EventEnvelope) :
    (stored.map EventEnvelope.timestamp).min? =
      ((stored.mergeSort timeOrder).head?).map EventEnvelope.timestamp := by
  have hPerm := List.mergeSort_perm stored timeOrder
  have hOrder := pairwise_sorted stored
  cases hSorted : stored.mergeSort timeOrder with
  | nil =>
      rw [hSorted] at hPerm
      rw [hPerm.nil_eq.symm]
      rfl
  | cons e rest =>
      rw [hSorted] at hPerm hOrder
      rw [List.head?_cons, Option.map_some, List.min?_eq_some_iff]
      refine ⟨List.mem_map_of_mem (hPerm.mem_iff.mp List.mem_cons_self), ?_⟩
      intro t ht
      obtain ⟨f, hf, rfl⟩ := List.mem_map.mp ht
      rcases List.mem_cons.mp (hPerm.mem_iff.mpr hf) with rfl | hLater
      · exact le_refl _
      · have hBefore := (List.pairwise_cons.mp hOrder).1 f hLater
        rw [timeOrder_iff, not_before_iff] at hBefore
        exact hBefore.1

/-- The last of the sorted events has the latest timestamp. -/
theorem max?_timestamps_eq (stored : List EventEnvelope) :
    (stored.map EventEnvelope.timestamp).max? =
      ((stored.mergeSort timeOrder).getLast?).map EventEnvelope.timestamp := by
  have hPerm := List.mergeSort_perm stored timeOrder
  have hOrder := pairwise_sorted stored
  rcases List.eq_nil_or_concat (stored.mergeSort timeOrder) with hSorted | ⟨rest, e, hSorted⟩
  · rw [hSorted] at hPerm ⊢
    rw [hPerm.nil_eq.symm]
    rfl
  · rw [List.concat_eq_append] at hSorted
    rw [hSorted] at hPerm hOrder ⊢
    rw [List.getLast?_concat, Option.map_some, List.max?_eq_some_iff]
    refine ⟨List.mem_map_of_mem (hPerm.mem_iff.mp (by simp)), ?_⟩
    intro t ht
    obtain ⟨f, hf, rfl⟩ := List.mem_map.mp ht
    rcases List.mem_append.mp (hPerm.mem_iff.mpr hf) with hBefore | hLast
    · have hLess := (List.pairwise_append.mp hOrder).2.2 f hBefore e List.mem_cons_self
      rw [timeOrder_iff, not_before_iff] at hLess
      exact hLess.1
    · rw [List.mem_singleton.mp hLast]

end Sorted

/-- The read paths agree with the list of all events sorted by timestamp and id. -/
def ReadPathsAgree (C : Crates) (store : EventStore) (env : CallEnv) (db : RocksDb)
    (stored : List EventEnvelope) : Prop :=
  (∀ k, ∃ events, store.getLatestEvents C env k db = .ok events ∧
    events = (stored.mergeSort timeOrder).drop (stored.length - k)) ∧
  ∃ stats, store.getStatistics C env db = .ok stats ∧ stats.totalEvents = stored.length ∧
    stats.oldestEvent = (stored.mergeSort timeOrder).head?.map EventEnvelope.timestamp ∧
    stats.newestEvent = (stored.mergeSort timeOrder).getLast?.map EventEnvelope.timestamp

theorem readPathsAgree_iff_inKeyOrder {C : Crates} {store : EventStore} {env : CallEnv}
    (hQuiet : env.scanFault = none) {db : RocksDb} {stored : List EventEnvelope}
    (h : StoredEvents C store env db.contents stored) (hOrder : stored.Pairwise KeyBefore) :
    ReadPathsAgree C store env db stored ↔ InKeyOrder none stored := by
  rw [← sorted_eq_iff_inKeyOrder hOrder]
  constructor
  · rintro ⟨hLatest, -⟩
    -- asked for as many events as there are, the scan returns them all
    obtain ⟨events, hOk, hEvents⟩ := hLatest stored.length
    rw [getLatestEvents_eq hQuiet h] at hOk
    cases hOk
    rwa [Nat.sub_self, List.drop_zero, List.drop_zero] at hEvents
  · intro hSame
    refine ⟨fun k => ⟨_, getLatestEvents_eq hQuiet h k, ?_⟩, _, getStatistics_eq hQuiet h, rfl,
      min?_timestamps_eq stored, max?_timestamps_eq stored⟩
    rw [← hSame]

/-- **When the read paths agree**: for every store built by a run whose
timestamps have a count, exactly where the counts are in time order; the
statistics are right on each of them. -/
theorem readPaths_agree_iff (C : Crates) (hTime : C.TimeTextReadsBack)
    (hDecodes : C.Lz4DecodesBack) (store : EventStore) (h : History)
    (hReach : Reachable C store AnyCall .empty h) (env : CallEnv)
    (hQuiet : env.scanFault = none) :
    ∃ stored, StoredEvents C store env h.db.contents stored ∧
      ((∀ e ∈ stored, e.timestamp.InNanosRange) →
        (ReadPathsAgree C store env h.db stored ↔ InTimeOrder none stored)) ∧
      ∃ stats, store.getStatistics C env h.db = .ok stats ∧
        stats.totalEvents = stored.length ∧
        stats.oldestEvent =
          (stored.mergeSort timeOrder).head?.map EventEnvelope.timestamp ∧
        stats.newestEvent =
          (stored.mergeSort timeOrder).getLast?.map EventEnvelope.timestamp := by
  obtain ⟨stored, hStored⟩ := exists_stored hTime hDecodes env hReach
  refine ⟨stored, hStored, fun hRange => ?_, _, getStatistics_eq hQuiet hStored,
    rfl, min?_timestamps_eq stored, max?_timestamps_eq stored⟩
  have hKeys := hStored.decodesTo_of_nonneg hTime hDecodes hReach fun e he => (hRange e he).1
  rw [readPathsAgree_iff_inKeyOrder hQuiet hStored hKeys.ordered]
  exact inKeyOrder_iff_inTimeOrder hRange (fun s hs => by cases hs)

/-- Of three events the latest two, oldest first, and the statistics of all. -/
theorem readPaths_agree_test :
    ∃ (h : History) (events : List EventEnvelope) (stats : EventStoreStatistics),
      h.appended = [later, first, tied] ∧
      (new .default).getLatestEvents Crates.sample .quiet 2 h.db = .ok events ∧
      List.Forall₂ EventEnvelope.PartialEq events [first, later] ∧
      (new .default).getStatistics Crates.sample .quiet h.db = .ok stats ∧
      stats.totalEvents = 3 ∧ stats.oldestEvent = some DateTime.epoch ∧
      stats.newestEvent = some DateTime.oneSecond := by
  obtain ⟨h, hReach, hAppended, hAll⟩ := exists_threeEvents_in_order
  obtain ⟨stored, hStored, hIff, -⟩ := readPaths_agree_iff Crates.sample
    Crates.sample_timeTextReadsBack Crates.sample_lz4DecodesBack (new .default) h hReach
    .quiet rfl
  obtain ⟨⟨hs₁, hs₂, hs₃, hThree⟩, hTimes, hSorted⟩ := hAll stored hStored
  obtain ⟨hLatest, stats, hStats, hTotal, hOldest, hNewest⟩ :=
    (hIff fun e he => (hTimes e he).1).mpr
      (inTimeOrder_of_nonLeap hTimes fun s hs => by cases hs)
  obtain ⟨events, hOk, hEvents⟩ := hLatest 2
  rw [hSorted, hThree] at hEvents hOldest hNewest
  rw [hThree] at hTotal
  refine ⟨h, events, stats, hAppended, hOk, ?_, hStats, hTotal, hOldest, hNewest⟩
  rw [hEvents]
  exact .cons (first.rehash_partialEq hs₂) (.cons (later.rehash_partialEq hs₃) .nil)

/-- Around a leap second the latest events come in the wrong order. -/
theorem readPaths_leapSecond :
    ¬ ∀ (h : History) (stored : List EventEnvelope),
      Reachable Crates.sample (new .default) AnyCall .empty h →
      StoredEvents Crates.sample (new .default) .quiet h.db.contents stored →
      (∀ e ∈ stored, e.timestamp.InNanosRange) →
        ReadPathsAgree Crates.sample (new .default) .quiet h.db stored := by
  intro hAlways
  obtain ⟨h, stored, hReach, hStored, hRange, hOrder, hOut⟩ := exists_leapSecond_store
  apply hOut
  rw [← readPathsAgree_iff_inKeyOrder rfl hStored hOrder]
  exact hAlways h stored hReach hStored hRange

end LedgerFS.EventStore
