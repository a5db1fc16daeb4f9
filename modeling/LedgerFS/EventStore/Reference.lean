import LedgerFS.EventStore.StoredOrder
import Mathlib.Data.List.Sort

/-!
# Queries against their reference

The reference meaning of a query is to sort all stored events by timestamp and
id, filter them, drop the offset and take the limit.  The scan follows the keys
instead, that is the nanosecond counts, and stops at the first event past the
end.  Both give the same page for every query from a start time exactly where
the counts order the events from there on like their timestamps
(`queryEvents_reference_iff`).  From 1970 to 2262 only readings inside a leap
second are out of order (`inTimeOrder_of_nonLeap`).
-/

namespace LedgerFS.EventStore

open LedgerFS.Core
open LedgerFS.Library

/-! ## The reference meaning -/

/-- By timestamp, then by event id. -/
def timeOrder (e f : EventEnvelope) : Bool := !decide (Before f e)

/-- The event satisfies every condition of the query. -/
def matchesQuery (query : EventQuery) (e : EventEnvelope) : Bool :=
  query.startTime.all (fun s => s ≤ e.timestamp) &&
    (forAccount query e && untilEnd query e && ofTypes query e)

/-- **Reference**: sort, filter, drop the offset, take the limit. -/
def reference (query : EventQuery) (stored : List EventEnvelope) : List EventEnvelope :=
  (((stored.mergeSort timeOrder).filter (matchesQuery query)).drop
    (query.offset.getD 0)).take (query.limit.getD 1000)

theorem timeOrder_iff (e f : EventEnvelope) : timeOrder e f = true ↔ ¬ Before f e := by
  simp [timeOrder]

private theorem isLE_of_not_lt {a b : Bytes} (h : ¬ compare a b = .lt) :
    (compare b a).isLE := by
  have hSwap : compare b a = (compare a b).swap := Std.OrientedCmp.eq_swap
  rw [hSwap]
  cases hCompare : compare a b with
  | lt => exact absurd hCompare h
  | eq => rfl
  | gt => rfl

/-- Not before means not earlier, and on a tie not with the smaller id. -/
theorem not_before_iff (e f : EventEnvelope) :
    ¬ Before f e ↔ e.timestamp ≤ f.timestamp ∧
      (e.timestamp = f.timestamp →
        (compare e.eventId.uuid.bytes f.eventId.uuid.bytes).isLE) := by
  unfold Before
  rw [not_or, not_lt, not_and]
  constructor
  · rintro ⟨hLe, hTie⟩
    exact ⟨hLe, fun hEq => isLE_of_not_lt (hTie hEq.symm)⟩
  · rintro ⟨hLe, hTie⟩
    refine ⟨hLe, fun hEq hLess => ?_⟩
    have hGt : compare e.eventId.uuid.bytes f.eventId.uuid.bytes = .gt :=
      Std.OrientedCmp.gt_of_lt hLess
    have hIs := hTie hEq.symm
    rw [hGt] at hIs
    cases hIs

theorem timeOrder_trans (e f g : EventEnvelope) (hef : timeOrder e f = true)
    (hfg : timeOrder f g = true) : timeOrder e g = true := by
  rw [timeOrder_iff, not_before_iff] at hef hfg ⊢
  refine ⟨le_trans hef.1 hfg.1, fun hEq => ?_⟩
  have hMid : e.timestamp = f.timestamp :=
    le_antisymm hef.1 (hEq ▸ hfg.1)
  exact Std.TransCmp.isLE_trans (hef.2 hMid) (hfg.2 (hMid ▸ hEq))

theorem timeOrder_total (e f : EventEnvelope) : (timeOrder e f || timeOrder f e) = true := by
  rw [Bool.or_eq_true, timeOrder_iff, timeOrder_iff]
  by_cases hBefore : Before f e
  · refine Or.inr ?_
    rw [not_before_iff]
    rcases hBefore with hLt | ⟨hEq, hLess⟩
    · exact ⟨le_of_lt hLt, fun hEq => absurd hEq (ne_of_lt hLt)⟩
    · exact ⟨le_of_eq hEq, fun _ => by rw [hLess]; rfl⟩
  · exact Or.inl hBefore

theorem pairwise_sorted (stored : List EventEnvelope) :
    (stored.mergeSort timeOrder).Pairwise fun e f => timeOrder e f = true :=
  List.pairwise_mergeSort timeOrder_trans timeOrder_total stored

/-- Events in order both ways have one key. -/
theorem key_eq_of_timeOrder {e f : EventEnvelope} (hef : timeOrder e f = true)
    (hfe : timeOrder f e = true) : generateEventKey e = generateEventKey f := by
  rw [timeOrder_iff, not_before_iff] at hef hfe
  have hTime : e.timestamp = f.timestamp := le_antisymm hef.1 hfe.1
  have hId : e.eventId.uuid.bytes = f.eventId.uuid.bytes := by
    have hLE := hef.2 hTime
    have hGE := hfe.2 hTime.symm
    exact Std.LawfulEqCmp.eq_of_compare (Std.OrientedCmp.isLE_antisymm hLE hGE)
  rw [generateEventKey, generateEventKey, hTime, hId]

/-! ## Where key order is time order -/

/-- The counts select what the start time selects, and the keys of the
events from there on are in time order. -/
structure InKeyOrder (startTime : Option DateTime) (stored : List EventEnvelope) : Prop where
  seek : ∀ s ∈ startTime, ∀ e ∈ stored,
    timestampNanos s ≤ timestampNanos e.timestamp ↔ s ≤ e.timestamp
  order : ∀ e ∈ stored, ∀ f ∈ stored, (∀ s ∈ startTime, s ≤ e.timestamp) →
    Before e f → KeyBefore e f

section Order

variable {startTime : Option DateTime} {stored : List EventEnvelope}

/-- The sorted events from the start time on. -/
def sortedFrom (startTime : Option DateTime) (stored : List EventEnvelope) :
    List EventEnvelope :=
  (stored.mergeSort timeOrder).filter fun e => startTime.all fun s => s ≤ e.timestamp

theorem mem_sortedFrom (e : EventEnvelope) :
    e ∈ sortedFrom startTime stored ↔ e ∈ stored ∧ ∀ s ∈ startTime, s ≤ e.timestamp := by
  rw [sortedFrom, List.mem_filter, List.mem_mergeSort]
  cases startTime <;> simp

theorem mem_fromSeek (e : EventEnvelope) :
    e ∈ fromSeek startTime stored ↔ e ∈ stored ∧
      ∀ s ∈ startTime, timestampNanos s ≤ timestampNanos e.timestamp := by
  cases startTime <;> simp [fromSeek]

theorem fromSeek_ordered (startTime : Option DateTime)
    (hOrder : stored.Pairwise KeyBefore) :
    (fromSeek startTime stored).Pairwise KeyBefore := by
  cases startTime with
  | none => exact hOrder
  | some s => exact hOrder.filter _

theorem sortedFrom_ordered (startTime : Option DateTime) (stored : List EventEnvelope) :
    (sortedFrom startTime stored).Pairwise fun e f => timeOrder e f = true :=
  (pairwise_sorted stored).filter _

/-- Events with one key are one stored event. -/
theorem eq_of_key (hOrder : stored.Pairwise KeyBefore) {e f : EventEnvelope}
    (he : e ∈ stored) (hf : f ∈ stored) (hKey : generateEventKey e = generateEventKey f) :
    e = f := by
  have hSelf : compare (generateEventKey f) (generateEventKey f) = .eq :=
    Std.ReflCmp.compare_self
  rcases OrderedScan.ordered_of_mem hOrder he hf with hEq | hBefore | hBefore
  · exact hEq
  · rw [KeyBefore, hKey, hSelf] at hBefore
    cases hBefore
  · rw [KeyBefore, hKey, hSelf] at hBefore
    cases hBefore

/-- Where a seek finds the sorted events, the keys are in time order. -/
theorem inKeyOrder_of_fromSeek (hOrder : stored.Pairwise KeyBefore)
    (hSame : fromSeek startTime stored = sortedFrom startTime stored) :
    InKeyOrder startTime stored := by
  have hMem (e : EventEnvelope) : e ∈ fromSeek startTime stored ↔
      e ∈ sortedFrom startTime stored := by rw [hSame]
  constructor
  · intro s hs e he
    have hBoth := hMem e
    rw [mem_fromSeek, mem_sortedFrom] at hBoth
    cases startTime with
    | none => cases hs
    | some s' =>
        cases hs
        simpa [he] using hBoth
  · intro e he f hf hStart hBefore
    have hKeys := fromSeek_ordered startTime hOrder
    have hTimes := sortedFrom_ordered startTime stored
    rw [hSame] at hKeys
    have heIn : e ∈ sortedFrom startTime stored := (mem_sortedFrom e).mpr ⟨he, hStart⟩
    have hLater : e.timestamp ≤ f.timestamp := by
      rcases hBefore with hLt | ⟨hEq, -⟩
      · exact le_of_lt hLt
      · exact le_of_eq hEq
    have hfIn : f ∈ sortedFrom startTime stored :=
      (mem_sortedFrom f).mpr ⟨hf, fun s hs => le_trans (hStart s hs) hLater⟩
    rcases OrderedScan.ordered_of_mem (hKeys.and hTimes) heIn hfIn
      with rfl | ⟨hKey, -⟩ | ⟨-, hTime⟩
    · rcases hBefore with hLt | ⟨-, hLess⟩
      · exact absurd hLt (lt_irrefl _)
      · have hSelf : compare e.eventId.uuid.bytes e.eventId.uuid.bytes = .eq :=
          Std.ReflCmp.compare_self
        rw [hSelf] at hLess
        cases hLess
    · exact hKey
    · exact absurd hBefore ((timeOrder_iff f e).mp hTime)

/-- **In order, a seek finds the sorted events.** -/
theorem fromSeek_eq_sortedFrom (hOrder : stored.Pairwise KeyBefore)
    (hIn : InKeyOrder startTime stored) :
    fromSeek startTime stored = sortedFrom startTime stored := by
  have hSelect : fromSeek startTime stored =
      stored.filter fun e => startTime.all fun s => s ≤ e.timestamp := by
    cases startTime with
    | none => simp [fromSeek]
    | some s =>
        apply List.filter_congr
        intro e he
        simpa using hIn.seek s rfl e he
  have hPerm : (fromSeek startTime stored).Perm (sortedFrom startTime stored) := by
    rw [hSelect]
    exact ((List.mergeSort_perm stored timeOrder).filter _).symm
  apply List.Perm.eq_of_pairwise _ _ (sortedFrom_ordered startTime stored) hPerm
  · intro e f he hf hef hfe
    exact eq_of_key hOrder ((mem_fromSeek e).mp he).1 ((mem_sortedFrom f).mp hf).1
      (key_eq_of_timeOrder hef hfe)
  · apply (fromSeek_ordered startTime hOrder).imp_of_mem
    intro e f he hf hKey
    rw [timeOrder_iff]
    intro hBefore
    have hfIn : f ∈ sortedFrom startTime stored := hPerm.mem_iff.mp hf
    rw [mem_sortedFrom] at hfIn
    have heIn := (mem_fromSeek e).mp he
    exact hKey.asymm (hIn.order f hfIn.1 e heIn.1 hfIn.2 hBefore)

/-- A scan over sorted events meets what matches. -/
theorem metByScan_sortedFrom (query : EventQuery) :
    metByScan query (sortedFrom query.startTime stored) =
      (stored.mergeSort timeOrder).filter (matchesQuery query) := by
  have hStop : ((sortedFrom query.startTime stored).filter (forAccount query)).Pairwise
      fun e f => untilEnd query f = true → untilEnd query e = true := by
    apply ((sortedFrom_ordered _ stored).filter _).imp
    intro e f hTime hEnd
    rw [timeOrder_iff, not_before_iff] at hTime
    cases hQuery : query.endTime with
    | none => simp [untilEnd, hQuery]
    | some t =>
        simp only [untilEnd, hQuery, Option.all_some, decide_eq_true_eq] at hEnd ⊢
        exact le_trans hTime.1 hEnd
  rw [metByScan, OrderedScan.takeWhile_eq_filter _ hStop, sortedFrom, List.filter_filter,
    List.filter_filter, List.filter_filter]
  apply List.filter_congr
  intro e _
  rw [matchesQuery]
  cases query.startTime.all fun s => decide (s ≤ e.timestamp) <;>
    cases forAccount query e <;> cases untilEnd query e <;> cases ofTypes query e <;> rfl

/-- Pages of a query are pages of the reference exactly in order. -/
theorem pageOf_eq_reference_iff (hOrder : stored.Pairwise KeyBefore) :
    (∀ query : EventQuery, query.startTime = startTime →
      pageOf query stored = reference query stored) ↔ InKeyOrder startTime stored := by
  constructor
  · intro hAll
    apply inKeyOrder_of_fromSeek hOrder
    -- no filter, no offset, and a limit that cuts nothing off
    let query : EventQuery := .unfiltered startTime (some stored.length)
    have hTrue (es : List EventEnvelope) : metByScan query es = es :=
      metByScan_unfiltered startTime _ es
    have hPage := hAll query rfl
    have hReference : reference query stored =
        (sortedFrom startTime stored).take stored.length := by
      rw [reference, ← metByScan_sortedFrom query, hTrue]
      rfl
    have hScan : pageOf query stored = (fromSeek startTime stored).take stored.length := by
      rw [pageOf, hTrue]
      rfl
    have hShort : (fromSeek startTime stored).length ≤ stored.length := by
      cases startTime with
      | none => exact Nat.le_refl _
      | some s => exact List.length_filter_le _ _
    have hShort' : (sortedFrom startTime stored).length ≤ stored.length := by
      have h := List.length_filter_le
        (fun e : EventEnvelope => startTime.all fun s => s ≤ e.timestamp)
        (stored.mergeSort timeOrder)
      rw [List.length_mergeSort] at h
      exact h
    rw [hScan, hReference, List.take_of_length_le hShort,
      List.take_of_length_le hShort'] at hPage
    exact hPage
  · rintro hIn query rfl
    rw [pageOf, fromSeek_eq_sortedFrom hOrder hIn, metByScan_sortedFrom, reference]

/-- The events in key order are the sorted ones exactly where the keys are in
time order. -/
theorem sorted_eq_iff_inKeyOrder (hOrder : stored.Pairwise KeyBefore) :
    stored = stored.mergeSort timeOrder ↔ InKeyOrder none stored := by
  have hSorted : sortedFrom none stored = stored.mergeSort timeOrder :=
    List.filter_eq_self.mpr fun _ _ => rfl
  constructor
  · intro hSame
    exact inKeyOrder_of_fromSeek hOrder (hSame.trans hSorted.symm)
  · intro hIn
    exact (fromSeek_eq_sortedFrom hOrder hIn).trans hSorted

end Order

/-! ## Counts and instants -/

/-- Counted earlier, or counted alike with the smaller event id. -/
def CountedBefore (e f : EventEnvelope) : Prop :=
  e.timestamp.nanosOrZero < f.timestamp.nanosOrZero ∨
    e.timestamp.nanosOrZero = f.timestamp.nanosOrZero ∧
      compare e.eventId.uuid.bytes f.eventId.uuid.bytes = .lt

instance (e f : EventEnvelope) : Decidable (CountedBefore e f) :=
  inferInstanceAs (Decidable (_ ∨ _))

/-- The counts select what the start time selects, and order the events from
there on like their timestamps. -/
structure InTimeOrder (startTime : Option DateTime) (stored : List EventEnvelope) : Prop where
  seek : ∀ s ∈ startTime, ∀ e ∈ stored,
    s.nanosOrZero ≤ e.timestamp.nanosOrZero ↔ s ≤ e.timestamp
  order : ∀ e ∈ stored, ∀ f ∈ stored, (∀ s ∈ startTime, s ≤ e.timestamp) →
    Before e f → CountedBefore e f

/-- From 1970 on keys are ordered like the counts. -/
theorem keyBefore_iff_counted {e f : EventEnvelope} (he : 0 ≤ e.timestamp.secs)
    (hf : 0 ≤ f.timestamp.secs) : KeyBefore e f ↔ CountedBefore e f := by
  have heCount := timestampNanos_of_nonneg he
  have hfCount := timestampNanos_of_nonneg hf
  rw [KeyBefore, generateEventKey_lt_iff, CountedBefore]
  constructor
  · rintro (hLess | ⟨hSame, hId⟩)
    · exact Or.inl (by omega)
    · exact Or.inr ⟨by omega, hId⟩
  · rintro (hLess | ⟨hSame, hId⟩)
    · exact Or.inl (by omega)
    · exact Or.inr ⟨by omega, hId⟩

/-- From 1970 on a seek compares the counts. -/
theorem seek_iff_counted {s t : DateTime} (hs : 0 ≤ s.secs) (ht : 0 ≤ t.secs) :
    timestampNanos s ≤ timestampNanos t ↔ s.nanosOrZero ≤ t.nanosOrZero := by
  have hsCount := timestampNanos_of_nonneg hs
  have htCount := timestampNanos_of_nonneg ht
  omega

section Range

variable {startTime : Option DateTime} {stored : List EventEnvelope}

theorem inKeyOrder_iff_inTimeOrder (hStored : ∀ e ∈ stored, e.timestamp.InNanosRange)
    (hStart : ∀ s ∈ startTime, s.InNanosRange) :
    InKeyOrder startTime stored ↔ InTimeOrder startTime stored := by
  constructor
  · intro hIn
    constructor
    · intro s hs e he
      rw [← seek_iff_counted (hStart s hs).1 (hStored e he).1]
      exact hIn.seek s hs e he
    · intro e he f hf hFrom hBefore
      rw [← keyBefore_iff_counted (hStored e he).1 (hStored f hf).1]
      exact hIn.order e he f hf hFrom hBefore
  · intro hIn
    constructor
    · intro s hs e he
      rw [seek_iff_counted (hStart s hs).1 (hStored e he).1]
      exact hIn.seek s hs e he
    · intro e he f hf hFrom hBefore
      rw [keyBefore_iff_counted (hStored e he).1 (hStored f hf).1]
      exact hIn.order e he f hf hFrom hBefore

/-- Without readings inside leap seconds the counts are in time order. -/
theorem inTimeOrder_of_nonLeap
    (hStored : ∀ e ∈ stored, e.timestamp.InNanosRange ∧ e.timestamp.NonLeap)
    (hStart : ∀ s ∈ startTime, s.InNanosRange ∧ s.NonLeap) :
    InTimeOrder startTime stored := by
  constructor
  · intro s hs e he
    obtain ⟨hsRange, hsNonLeap⟩ := hStart s hs
    obtain ⟨heRange, heNonLeap⟩ := hStored e he
    rcases lt_trichotomy s e.timestamp with hLt | hEq | hGt
    · have hCount := DateTime.nanosOrZero_lt hLt heRange hsNonLeap heNonLeap hsRange.1
      exact iff_of_true (le_of_lt hCount) (le_of_lt hLt)
    · rw [hEq]
      exact iff_of_true (le_refl _) (le_refl _)
    · have hCount := DateTime.nanosOrZero_lt hGt hsRange heNonLeap hsNonLeap heRange.1
      exact iff_of_false (not_le_of_gt hCount) (not_le_of_gt hGt)
  · intro e he f hf _ hBefore
    obtain ⟨heRange, heNonLeap⟩ := hStored e he
    obtain ⟨hfRange, hfNonLeap⟩ := hStored f hf
    rcases hBefore with hLt | ⟨hSame, hId⟩
    · exact Or.inl (DateTime.nanosOrZero_lt hLt hfRange heNonLeap hfNonLeap heRange.1)
    · exact Or.inr ⟨by rw [hSame], hId⟩

end Range

/-- **Queries are their reference** exactly where the counts are in time
order, in every store built by a run. -/
theorem queryEvents_reference_iff (C : Crates) (hTime : C.TimeTextReadsBack)
    (hDecodes : C.Lz4DecodesBack) (store : EventStore) (h : History)
    (hReach : Reachable C store AnyCall .empty h) (env : CallEnv)
    (hQuiet : env.scanFault = none) :
    ∃ stored, StoredEvents C store env h.db.contents stored ∧
      ((∀ e ∈ stored, e.timestamp.InNanosRange) → ∀ startTime : Option DateTime,
        (∀ s ∈ startTime, s.InNanosRange) →
          ((∀ query : EventQuery, query.startTime = startTime →
              ∃ result, store.queryEvents C env query h.db = .ok result ∧
                result.events = reference query stored) ↔
            InTimeOrder startTime stored)) := by
  obtain ⟨stored, hStored⟩ := exists_stored hTime hDecodes env hReach
  refine ⟨stored, hStored, fun hRange startTime hStart => ?_⟩
  have hKeys := hStored.decodesTo_of_nonneg hTime hDecodes hReach fun e he => (hRange e he).1
  rw [← inKeyOrder_iff_inTimeOrder hRange hStart, ← pageOf_eq_reference_iff hKeys.ordered]
  constructor
  · intro hAll query hQuery
    obtain ⟨result, hOk, hEvents⟩ := hAll query hQuery
    have hPage := queryEvents_eq hQuiet hKeys query
    cases hPage.symm.trans hOk
    exact hEvents
  · intro hAll query hQuery
    exact ⟨_, queryEvents_eq hQuiet hKeys query, hAll query hQuery⟩

/-- The three events are in time order. -/
theorem exists_threeEvents_in_order :
    ∃ h : History, Reachable Crates.sample (new .default) AnyCall .empty h ∧
      h.appended = [later, first, tied] ∧
      ∀ stored, StoredEvents Crates.sample (new .default) .quiet h.db.contents stored →
        (∃ hs₁ hs₂ hs₃, stored = [tied.rehash hs₁, first.rehash hs₂, later.rehash hs₃]) ∧
        (∀ e ∈ stored, e.timestamp.InNanosRange ∧ e.timestamp.NonLeap) ∧
        stored.mergeSort timeOrder = stored := by
  obtain ⟨h, hReach, hAppended, hAll⟩ := exists_threeEvents
  refine ⟨h, hReach.mono fun _ => trivial, hAppended, fun stored hStored => ?_⟩
  have hTimes : ∀ e ∈ stored, e.timestamp.InNanosRange ∧ e.timestamp.NonLeap := by
    apply hStored.timestamps Crates.sample_timeTextReadsBack Crates.sample_lz4DecodesBack hReach
      (P := fun t => t.InNanosRange ∧ t.NonLeap)
    intro e he
    rw [← h.appended_perm.mem_iff, hAppended] at he
    have hEach : ∀ e ∈ [later, first, tied],
        e.timestamp.readBack.InNanosRange ∧ e.timestamp.readBack.NonLeap := by decide
    exact hEach e he
  have hRange : ∀ e ∈ stored, e.timestamp.InNanosRange := fun e he => (hTimes e he).1
  have hKeys := hStored.decodesTo_of_nonneg Crates.sample_timeTextReadsBack
    Crates.sample_lz4DecodesBack hReach fun e he => (hRange e he).1
  have hNoStart : ∀ s ∈ (none : Option DateTime), s.InNanosRange ∧ s.NonLeap := by simp
  have hIn := (inKeyOrder_iff_inTimeOrder hRange fun s hs => (hNoStart s hs).1).mpr
    (inTimeOrder_of_nonLeap hTimes hNoStart)
  exact ⟨hAll stored hStored, hTimes, ((sorted_eq_iff_inKeyOrder hKeys.ordered).mpr hIn).symm⟩

/-- The second event of an account, of three events on two pages. -/
theorem queryEvents_reference_test :
    let store := new .default
    let query : EventQuery :=
      { accountId := some ⟨Uuid.fromU128 1⟩, startTime := none, endTime := none
        limit := some 1, offset := some 1, eventTypes := none }
    ∃ (h : History) (result : EventQueryResult), h.appended = [later, first, tied] ∧
      store.queryEvents Crates.sample .quiet query h.db = .ok result ∧
      List.Forall₂ EventEnvelope.PartialEq result.events [later] := by
  intro store query
  obtain ⟨h, hReach, hAppended, hAll⟩ := exists_threeEvents_in_order
  obtain ⟨stored, hStored, hQueries⟩ := queryEvents_reference_iff Crates.sample
    Crates.sample_timeTextReadsBack Crates.sample_lz4DecodesBack store h hReach .quiet rfl
  obtain ⟨⟨hs₁, hs₂, hs₃, hThree⟩, hTimes, hSorted⟩ := hAll stored hStored
  obtain ⟨result, hOk, hEvents⟩ := (hQueries (fun e he => (hTimes e he).1) none
    (fun s hs => by cases hs)).mpr (inTimeOrder_of_nonLeap hTimes fun s hs => by cases hs) query rfl
  refine ⟨h, result, hAppended, hOk, ?_⟩
  rw [hEvents, reference, hSorted, hThree]
  exact .cons (later.rehash_partialEq hs₃) .nil

/-- Half a second into the leap second of 2016, and a fifth of a second into
2017: the keys are not in time order. -/
theorem exists_leapSecond_store :
    ∃ (h : History) (stored : List EventEnvelope),
      Reachable Crates.sample (new .default) AnyCall .empty h ∧
      StoredEvents Crates.sample (new .default) .quiet h.db.contents stored ∧
      (∀ e ∈ stored, e.timestamp.InNanosRange) ∧
      stored.Pairwise KeyBefore ∧ ¬ InKeyOrder none stored := by
  let inLeapSecond := createTestEnvelope ⟨Uuid.fromU128 0⟩ ⟨Uuid.fromU128 1⟩
    ⟨1483228799, 1500000000, by decide, by decide, by decide⟩
  let newYear := createTestEnvelope ⟨Uuid.fromU128 0⟩ ⟨Uuid.fromU128 2⟩
    ⟨1483228800, 200000000, by decide, by decide, by decide⟩
  have hTime := Crates.sample_timeTextReadsBack
  have hDecodes := Crates.sample_lz4DecodesBack
  obtain ⟨h, hAcked, hReach, hHolds⟩ := exists_history Crates.sample_lz4Encodes (new .default)
    AnyCall (.appendEvents [inLeapSecond, newYear]) trivial (List.cons_ne_nil _ _)
    (show [generateEventKey inLeapSecond, generateEventKey newYear].Nodup by decide)
  obtain ⟨stored, hStored⟩ := exists_stored hTime hDecodes .quiet hReach
  have hRange : ∀ f ∈ stored, f.timestamp.InNanosRange := by
    apply hStored.timestamps hTime hDecodes hReach (P := DateTime.InNanosRange)
    rw [History.ackedEvents, hAcked]
    show ∀ g ∈ [inLeapSecond, newYear], g.timestamp.readBack.InNanosRange
    decide
  have hKeys := hStored.decodesTo_of_nonneg hTime hDecodes hReach fun e he => (hRange e he).1
  refine ⟨h, stored, hReach, hStored, hRange, hKeys.ordered, fun hIn => ?_⟩
  obtain ⟨hs₁, hFirst⟩ := hStored.mem_of_holds hTime hDecodes
    (hHolds inLeapSecond List.mem_cons_self)
  obtain ⟨hs₂, hSecond⟩ := hStored.mem_of_holds hTime hDecodes
    (hHolds newYear (List.mem_cons_of_mem _ List.mem_cons_self))
  rw [EventEnvelope.reread_of_unambiguous (show inLeapSecond.Unambiguous by decide)] at hFirst
  rw [EventEnvelope.reread_of_unambiguous (show newYear.Unambiguous by decide)] at hSecond
  have hBefore := hIn.order _ hFirst _ hSecond (fun s hs => by cases hs)
    (show Before inLeapSecond newYear by decide)
  have hKeyBefore : KeyBefore inLeapSecond newYear := hBefore
  rw [KeyBefore, generateEventKey_lt_iff] at hKeyBefore
  revert hKeyBefore
  decide

/-- Around a leap second a scan returns the later event first. -/
theorem queryEvents_leapSecond :
    ¬ ∀ (h : History) (stored : List EventEnvelope),
      Reachable Crates.sample (new .default) AnyCall .empty h →
      StoredEvents Crates.sample (new .default) .quiet h.db.contents stored →
      (∀ e ∈ stored, e.timestamp.InNanosRange) →
      ∀ query : EventQuery, (∀ s ∈ query.startTime, s.InNanosRange) →
        ∃ result, (new .default).queryEvents Crates.sample .quiet query h.db = .ok result ∧
          result.events = reference query stored := by
  intro hAlways
  obtain ⟨h, stored, hReach, hStored, hRange, hOrder, hOut⟩ := exists_leapSecond_store
  apply hOut
  rw [← pageOf_eq_reference_iff hOrder]
  intro query hQuery
  obtain ⟨result, hOk, hEvents⟩ := hAlways h stored hReach hStored hRange query
    (fun s hs => by rw [hQuery] at hs; cases hs)
  have hQuiet : CallEnv.quiet.scanFault = none := rfl
  have hPage := queryEvents_eq_of_stored hQuiet hStored query
    (fun s hs => by rw [hQuery] at hs; cases hs)
  cases hPage.symm.trans hOk
  exact hEvents

end LedgerFS.EventStore
