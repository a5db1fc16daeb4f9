import LedgerFS.EventStore.AppendOrder
import LedgerFS.Library.Resumption

/-!
# Pages

`query_events` says that there is more when the page is full.  So the flag is wrong
exactly where the matches end with the page: nothing more comes, and the flag says that
something does (`hasMore_iff`).

A client that asks for one page after the other, until there is no more, then gets an
empty page at the end, and that is all: it always ends, and the pages are what the scan
meets from the beginning.  These are the matches in order of their timestamps exactly
where the counts are (`paging_iff`).
-/

namespace LedgerFS.EventStore

open LedgerFS.Core
open LedgerFS.Library

/-! ## One page -/

/-- More stored events match the query than the offset skips and the page shows. -/
def FurtherMatch (query : EventQuery) (stored page : List EventEnvelope) : Prop :=
  query.offset.getD 0 + page.length < (stored.filter (matchesQuery query)).length

theorem length_pageOf (query : EventQuery) (stored : List EventEnvelope) :
    (pageOf query stored).length = min (query.limit.getD 1000)
      ((metByScan query (fromSeek query.startTime stored)).length - query.offset.getD 0) := by
  rw [pageOf, List.length_take, List.length_drop]

/-- In time order a scan meets as many events as match. -/
theorem length_metByScan {query : EventQuery} {stored : List EventEnvelope}
    (hOrder : stored.Pairwise KeyBefore) (hIn : InKeyOrder query.startTime stored) :
    (metByScan query (fromSeek query.startTime stored)).length =
      (stored.filter (matchesQuery query)).length := by
  rw [fromSeek_eq_sortedFrom hOrder hIn, metByScan_sortedFrom]
  exact ((List.mergeSort_perm stored timeOrder).filter _).length_eq

/-- A full page leaves some matches over, and any other page is the last one. -/
def FullPageLeavesSome (limit offset met all : Nat) : Prop :=
  if limit ≤ met - offset then offset + limit < all else all ≤ max met offset

/-- **When the flag is right**, for a scan that meets `met` events while `all` match. -/
theorem flag_right_iff (limit offset met all : Nat) :
    (min limit (met - offset) = limit ↔ offset + min limit (met - offset) < all) ↔
      FullPageLeavesSome limit offset met all := by
  unfold FullPageLeavesSome
  split <;> omega

theorem fullPageLeavesSome_iff (limit offset all : Nat) :
    FullPageLeavesSome limit offset all all ↔ all - offset ≠ limit := by
  unfold FullPageLeavesSome
  split <;> omega

/-- **When `has_more` tells the truth**: where a full page leaves some matches over and
any other page is the last one; in time order, exactly unless the number of matches from
the offset on is the limit. -/
theorem hasMore_iff (C : Crates) (hTime : C.TimeTextReadsBack) (hDecodes : C.Lz4DecodesBack)
    (store : EventStore) (h : History) (hReach : Reachable C store AnyCall .empty h)
    (env : CallEnv) (hQuiet : env.scanFault = none) :
    ∃ stored, StoredEvents C store env h.db.contents stored ∧
      ((∀ e ∈ stored, e.timestamp.InNanosRange) → ∀ query : EventQuery,
        (∀ s ∈ query.startTime, s.InNanosRange) →
          ∃ result, store.queryEvents C env query h.db = .ok result ∧
            ((result.hasMore = true ↔ FurtherMatch query stored result.events) ↔
              FullPageLeavesSome (query.limit.getD 1000) (query.offset.getD 0)
                (metByScan query (fromSeek query.startTime stored)).length
                (stored.filter (matchesQuery query)).length) ∧
            (InTimeOrder query.startTime stored →
              ((result.hasMore = true ↔ FurtherMatch query stored result.events) ↔
                (stored.filter (matchesQuery query)).length - query.offset.getD 0 ≠
                  query.limit.getD 1000))) := by
  obtain ⟨stored, hStored⟩ := exists_stored hTime hDecodes env hReach
  refine ⟨stored, hStored, fun hRange query hStart => ?_⟩
  have hKeys := hStored.decodesTo_of_nonneg hTime hDecodes hReach fun e he => (hRange e he).1
  refine ⟨_, queryEvents_eq hQuiet hKeys query, ?_⟩
  simp only [FurtherMatch, length_pageOf, decide_eq_true_eq, flag_right_iff, true_and]
  intro hIn
  rw [length_metByScan hKeys.ordered ((inKeyOrder_iff_inTimeOrder hRange hStart).mpr hIn)]
  exact fullPageLeavesSome_iff ..

/-- Three events and a limit of two: the page is full, and one event is left over. -/
theorem hasMore_test :
    ∃ (h : History) (result : EventQueryResult), h.appended = [later, first, tied] ∧
      (new .default).queryEvents Crates.sample .quiet (.unfiltered none (some 2)) h.db =
        .ok result ∧
      List.Forall₂ EventEnvelope.PartialEq result.events [tied, first] ∧
      result.hasMore = true := by
  obtain ⟨h, hReach, hAppended, hAll⟩ := exists_threeEvents_in_order
  obtain ⟨stored, hStored, hFlag⟩ := hasMore_iff Crates.sample Crates.sample_timeTextReadsBack
    Crates.sample_lz4DecodesBack (new .default) h hReach .quiet rfl
  obtain ⟨⟨hs₁, hs₂, hs₃, hThree⟩, hTimes, -⟩ := hAll stored hStored
  obtain ⟨result, hOk, -, hRight⟩ := hFlag (fun e he => (hTimes e he).1)
    (.unfiltered none (some 2)) (fun s hs => by cases hs)
  have hQuiet : CallEnv.quiet.scanFault = none := rfl
  have hPage := queryEvents_eq_of_stored hQuiet hStored (.unfiltered none (some 2))
    (fun s hs => by cases hs)
  have hEvents : result.events = [tied.rehash hs₁, first.rehash hs₂] := by
    cases hPage.symm.trans hOk
    show pageOf _ stored = _
    rw [pageOf_unfiltered, hThree]
    rfl
  have hMatches : (stored.filter (matchesQuery (.unfiltered none (some 2)))).length = 3 := by
    rw [hThree]
    rfl
  refine ⟨h, result, hAppended, hOk, ?_, (hRight ?_ |>.mpr ?_).mpr ?_⟩
  · rw [hEvents]
    exact .cons (tied.rehash_partialEq hs₁) (.cons (first.rehash_partialEq hs₂) .nil)
  · exact inTimeOrder_of_nonLeap hTimes (fun s hs => by cases hs)
  · rw [hMatches]
    decide
  · rw [FurtherMatch, hMatches, hEvents]
    exact Nat.lt_succ_self 2

/-- Three events and a limit of three: nothing more comes, and the flag says that it does. -/
theorem hasMore_of_exact_fit :
    ¬ ∀ (h : History) (stored : List EventEnvelope) (query : EventQuery)
      (result : EventQueryResult),
      Reachable Crates.sample (new .default) AnyCall .empty h →
      StoredEvents Crates.sample (new .default) .quiet h.db.contents stored →
      (∀ e ∈ stored, e.timestamp.InNanosRange) → (∀ s ∈ query.startTime, s.InNanosRange) →
      (new .default).queryEvents Crates.sample .quiet query h.db = .ok result →
      (result.hasMore = true ↔ FurtherMatch query stored result.events) := by
  intro hAlways
  obtain ⟨h, hReach, -, hAll⟩ := exists_threeEvents_in_order
  obtain ⟨stored, hStored⟩ := exists_stored Crates.sample_timeTextReadsBack
    Crates.sample_lz4DecodesBack .quiet hReach
  obtain ⟨⟨hs₁, hs₂, hs₃, hThree⟩, hTimes, -⟩ := hAll stored hStored
  have hPage : (pageOf (.unfiltered none (some 3)) stored).length = 3 := by
    rw [pageOf_unfiltered, hThree]
    rfl
  have hFlag := hAlways h stored (.unfiltered none (some 3)) _ hReach hStored
    (fun e he => (hTimes e he).1) (fun s hs => by cases hs)
    (queryEvents_eq_of_stored rfl hStored _ (fun s hs => by cases hs))
  have hMore : FurtherMatch (.unfiltered none (some 3)) stored
      (pageOf (.unfiltered none (some 3)) stored) := hFlag.mp (decide_eq_true hPage)
  have hFew := List.length_filter_le (matchesQuery (.unfiltered none (some 3))) stored
  have hThreeStored : stored.length = 3 := by
    rw [hThree]
    rfl
  rw [FurtherMatch, hPage] at hMore
  omega

/-! ## All pages -/

section Pages

variable (C : Crates) (store : EventStore)

/-- One call of a client that reads in pages of one size. -/
def pageCall (envs : Nat → CallEnv) (query : EventQuery) (pageSize : Nat) (db : RocksDb)
    (i offset : Nat) (s : Unit) : Option (Portion EventEnvelope × Unit) :=
  match store.queryEvents C (envs i)
      { query with limit := some pageSize, offset := some offset } db with
  | .error _ => none
  | .ok result =>
      some (⟨result.events, if result.hasMore then some (offset + pageSize) else none⟩, s)

/-- The client asks for one page after the other until there is no more, up to a number of
calls. -/
def readPages (envs : Nat → CallEnv) (query : EventQuery) (pageSize : Nat) (db : RocksDb)
    (calls : Nat) : Option (List EventEnvelope) :=
  (readAll (pageCall C store envs query pageSize db) calls 0 0 ()).map Prod.fst

variable {C store}

/-- Decoded from one record under two seeds. -/
def Alike (f f' : EventEnvelope) : Prop :=
  ∃ (e : EventEnvelope) (hs hs' : Hashers), f = e.rehash hs ∧ f' = e.rehash hs'

theorem Alike.partialEq {f f' : EventEnvelope} (h : Alike f f') : f.PartialEq f' := by
  obtain ⟨e, hs, hs', rfl, rfl⟩ := h
  exact (e.rehash_partialEq hs).trans (e.rehash_partialEq hs').symm

/-- Two calls decode the records alike. -/
theorem alike_of_decodes (hTime : C.TimeTextReadsBack) (hDecodes : C.Lz4DecodesBack)
    {env env' : CallEnv} {records : List (Bytes × Bytes)} {es fs : List EventEnvelope}
    (hRecords : ∀ r ∈ records, ∃ e, IsRecord C store e r)
    (h : List.Forall₂ (fun record e => decodeItem C store env (.ok record) = .ok e) records es)
    (h' : DecodesTo C store env' records fs) :
    DecodesTo C store env records es ∧ List.Forall₂ Alike es fs := by
  induction h generalizing fs with
  | nil =>
      cases h'
      exact ⟨.nil, .nil⟩
  | cons hHere _ ih =>
      cases h' with
      | cons hBoth' hRest =>
          obtain ⟨⟨e, hRecord⟩, hLater⟩ := List.forall_mem_cons.mp hRecords
          obtain ⟨hEvents, hAlike⟩ := ih hLater hRest
          have hKey' := hBoth'.2
          cases (decodeItem_of_record hTime hDecodes env hRecord).symm.trans hHere
          cases (decodeItem_of_record hTime hDecodes env' hRecord).symm.trans hBoth'.1
          exact ⟨.cons ⟨hHere, hKey'⟩ hEvents, .cons ⟨e.readBack, _, _, rfl, rfl⟩ hAlike⟩

/-- A scan takes envelopes that are alike together, or leaves them out together. -/
theorem alike_metByScan (query : EventQuery) {es fs : List EventEnvelope}
    (h : List.Forall₂ Alike es fs) :
    List.Forall₂ Alike (metByScan query (fromSeek query.startTime es))
      (metByScan query (fromSeek query.startTime fs)) := by
  have hSeek : List.Forall₂ Alike (fromSeek query.startTime es) (fromSeek query.startTime fs) := by
    cases query.startTime with
    | none => exact h
    | some s =>
        refine List.rel_filter ?_ h
        rintro _ _ ⟨e, hs, hs', rfl, rfl⟩
        rfl
  unfold metByScan
  refine List.rel_filter ?_ (OrderedScan.forall₂_takeWhile ?_ (List.rel_filter ?_ hSeek))
  · rintro _ _ ⟨e, hs, hs', rfl, rfl⟩
    rfl
  · rintro _ _ ⟨e, hs, hs', rfl, rfl⟩
    rfl
  · rintro _ _ ⟨e, hs, hs', rfl, rfl⟩
    simp only [forAccount, accounts_rehash]

section Client

variable {envs : Nat → CallEnv} {db : RocksDb} {stored : List EventEnvelope}

/-- **A page is a portion** of what the scan meets. -/
theorem pages_resume (hQuiet : ∀ i, (envs i).scanFault = none)
    (hAlike : ∀ i, ∃ events, DecodesTo C store (envs i) db.contents.toList events ∧
      List.Forall₂ Alike events stored)
    (query : EventQuery) {pageSize : Nat} (hSize : 0 < pageSize) :
    Resumes Alike (fun _ => True) (metByScan query (fromSeek query.startTime stored))
      (pageCall C store envs query pageSize db) := by
  intro i offset s _ hOffset
  obtain ⟨events, hEvents, hSame⟩ := hAlike i
  let asked : EventQuery := { query with limit := some pageSize, offset := some offset }
  have hPage : List.Forall₂ Alike (pageOf asked events)
      (((metByScan query (fromSeek query.startTime stored)).drop offset).take pageSize) :=
    List.forall₂_take _ (List.forall₂_drop _ (alike_metByScan query hSame))
  have hLength := hPage.length_eq
  rw [List.length_take, List.length_drop] at hLength
  refine ⟨_, s, by rw [pageCall, queryEvents_eq (hQuiet i) hEvents asked], trivial, ?_⟩
  show Portion.Covers Alike _ offset
    ⟨pageOf asked events, if decide ((pageOf asked events).length = pageSize) = true then
      some (offset + pageSize) else none⟩
  by_cases hFull : (pageOf asked events).length = pageSize
  · rw [if_pos (decide_eq_true hFull)]
    refine ⟨by omega, by omega, ?_⟩
    rwa [Nat.add_sub_cancel_left]
  · rw [if_neg (by simpa using hFull)]
    rwa [List.take_of_length_le (by rw [List.length_drop]; omega)] at hPage

/-- **Run**: with enough calls the pages are what the scan meets. -/
theorem readPages_eq (hQuiet : ∀ i, (envs i).scanFault = none)
    (hAlike : ∀ i, ∃ events, DecodesTo C store (envs i) db.contents.toList events ∧
      List.Forall₂ Alike events stored)
    (query : EventQuery) {pageSize : Nat} (hSize : 0 < pageSize) :
    ∃ enough, ∀ calls, enough ≤ calls →
      ∃ events, readPages C store envs query pageSize db calls = some events ∧
        List.Forall₂ Alike events (metByScan query (fromSeek query.startTime stored)) := by
  refine ⟨(metByScan query (fromSeek query.startTime stored)).length + 1, fun calls hCalls => ?_⟩
  obtain ⟨events, s, hRead, -, hAll⟩ := readAll_eq (pages_resume hQuiet hAlike query hSize)
    calls 0 0 (s := ()) trivial (Nat.zero_le _) hCalls
  refine ⟨events, ?_, hAll⟩
  rw [readPages, hRead]
  rfl

/-- Stored events with the same keys are the same. -/
theorem eq_of_keys (hOrder : stored.Pairwise KeyBefore) {es fs : List EventEnvelope}
    (hes : ∀ e ∈ es, e ∈ stored) (hfs : ∀ f ∈ fs, f ∈ stored)
    (hKeys : es.map generateEventKey = fs.map generateEventKey) : es = fs := by
  induction es generalizing fs with
  | nil =>
      rw [List.map_nil] at hKeys
      exact (List.map_eq_nil_iff.mp hKeys.symm).symm
  | cons e es ih =>
      cases fs with
      | nil => cases hKeys
      | cons f fs =>
          rw [List.map_cons, List.map_cons, List.cons.injEq] at hKeys
          obtain ⟨he, hes⟩ := List.forall_mem_cons.mp hes
          obtain ⟨hf, hfs⟩ := List.forall_mem_cons.mp hfs
          rw [eq_of_key hOrder he hf hKeys.1, ih hes hfs hKeys.2]

/-- The pages are the matches in order of their timestamps. -/
def PagesAreMatches (C : Crates) (store : EventStore) (envs : Nat → CallEnv) (query : EventQuery)
    (pageSize : Nat) (db : RocksDb) (stored : List EventEnvelope) : Prop :=
  ∃ enough, ∀ calls, enough ≤ calls →
    ∃ events, readPages C store envs query pageSize db calls = some events ∧
      List.Forall₂ EventEnvelope.PartialEq events
        ((stored.mergeSort timeOrder).filter (matchesQuery query))

/-- In time order they are. -/
theorem pagesAreMatches (hQuiet : ∀ i, (envs i).scanFault = none)
    (hAlike : ∀ i, ∃ events, DecodesTo C store (envs i) db.contents.toList events ∧
      List.Forall₂ Alike events stored)
    (hOrder : stored.Pairwise KeyBefore) {query : EventQuery}
    (hIn : InKeyOrder query.startTime stored) {pageSize : Nat} (hSize : 0 < pageSize) :
    PagesAreMatches C store envs query pageSize db stored := by
  obtain ⟨enough, hEnough⟩ := readPages_eq hQuiet hAlike query hSize
  refine ⟨enough, fun calls hCalls => ?_⟩
  obtain ⟨events, hRead, hAll⟩ := hEnough calls hCalls
  rw [fromSeek_eq_sortedFrom hOrder hIn, metByScan_sortedFrom] at hAll
  exact ⟨events, hRead, hAll.imp fun _ _ => Alike.partialEq⟩

/-- If all pages together are the matches of the query without a filter, the keys are in
time order. -/
theorem inKeyOrder_of_pages (hQuiet : ∀ i, (envs i).scanFault = none)
    (hAlike : ∀ i, ∃ events, DecodesTo C store (envs i) db.contents.toList events ∧
      List.Forall₂ Alike events stored)
    (hOrder : stored.Pairwise KeyBefore) {startTime : Option DateTime}
    (h : PagesAreMatches C store envs (.unfiltered startTime none) 1 db stored) :
    InKeyOrder startTime stored := by
  apply inKeyOrder_of_fromSeek hOrder
  obtain ⟨enough, hEnough⟩ := h
  obtain ⟨enough', hEnough'⟩ := readPages_eq hQuiet hAlike (.unfiltered startTime none) Nat.one_pos
  obtain ⟨events, hRead, hScan⟩ := hEnough' _ (Nat.le_max_right enough enough')
  obtain ⟨events', hRead', hMatches⟩ := hEnough _ (Nat.le_max_left enough enough')
  cases hRead.symm.trans hRead'
  rw [← metByScan_sortedFrom, metByScan_unfiltered] at hMatches
  rw [metByScan_unfiltered] at hScan
  apply eq_of_keys hOrder
  · intro e he
    exact ((mem_fromSeek e).mp he).1
  · intro e he
    exact ((mem_sortedFrom e).mp he).1
  · exact (keys_of_partialEq (hScan.imp fun _ _ => Alike.partialEq)).symm.trans
      (keys_of_partialEq hMatches)

end Client

end Pages

/-- The calls of a client decode the store alike. -/
theorem exists_alike {C : Crates} {store : EventStore} (hTime : C.TimeTextReadsBack)
    (hDecodes : C.Lz4DecodesBack) {h : History} (hReach : Reachable C store AnyCall .empty h)
    {env : CallEnv} {stored : List EventEnvelope}
    (hStored : DecodesTo C store env h.db.contents.toList stored) (env' : CallEnv) :
    ∃ events, DecodesTo C store env' h.db.contents.toList events ∧
      List.Forall₂ Alike events stored := by
  obtain ⟨events, hEvents⟩ := exists_stored hTime hDecodes env' hReach
  refine ⟨events, alike_of_decodes hTime hDecodes ?_ hEvents hStored⟩
  intro record hMem
  obtain ⟨e, -, hRecord⟩ := hReach.acknowledged record hMem
  exact ⟨e, hRecord⟩

/-- **Reading page by page** always ends, and it visits the matches of every query, each
once and in order of their timestamps, exactly where the counts are in that order. -/
theorem paging_iff (C : Crates) (hTime : C.TimeTextReadsBack) (hDecodes : C.Lz4DecodesBack)
    (store : EventStore) (h : History) (hReach : Reachable C store AnyCall .empty h)
    (env : CallEnv) :
    ∃ stored, StoredEvents C store env h.db.contents stored ∧
      ((∀ e ∈ stored, e.timestamp.InNanosRange) →
        (∀ envs query pageSize, (∀ i, (envs i).scanFault = none) → 0 < pageSize →
          ∃ enough, ∀ calls, enough ≤ calls →
            (readPages C store envs query pageSize h.db calls).isSome) ∧
        ∀ startTime : Option DateTime, (∀ s ∈ startTime, s.InNanosRange) →
          ((∀ envs query pageSize, query.startTime = startTime →
              (∀ i, (envs i).scanFault = none) → 0 < pageSize →
              PagesAreMatches C store envs query pageSize h.db stored) ↔
            InTimeOrder startTime stored)) := by
  obtain ⟨stored, hStored⟩ := exists_stored hTime hDecodes env hReach
  refine ⟨stored, hStored, fun hRange => ?_⟩
  have hKeys := hStored.decodesTo_of_nonneg hTime hDecodes hReach fun e he => (hRange e he).1
  have hAlike := exists_alike hTime hDecodes hReach hKeys
  constructor
  · intro envs query pageSize hQuiet hSize
    obtain ⟨enough, hEnough⟩ := readPages_eq hQuiet (fun i => hAlike (envs i)) query hSize
    refine ⟨enough, fun calls hCalls => ?_⟩
    obtain ⟨events, hRead, -⟩ := hEnough calls hCalls
    rw [hRead]
    rfl
  · intro startTime hStart
    rw [← inKeyOrder_iff_inTimeOrder hRange hStart]
    constructor
    · intro hAll
      exact inKeyOrder_of_pages (fun _ => rfl) (fun _ => hAlike .quiet) hKeys.ordered
        (hAll (fun _ => .quiet) _ 1 rfl (fun _ => rfl) Nat.one_pos)
    · rintro hIn envs query pageSize rfl hQuiet hSize
      exact pagesAreMatches hQuiet (fun i => hAlike (envs i)) hKeys.ordered hIn hSize

/-- Three events, two on a page. -/
theorem paging_test :
    ∃ h : History, h.appended = [later, first, tied] ∧
      ∃ enough, ∀ calls, enough ≤ calls → ∃ events,
        readPages Crates.sample (new .default) (fun _ => .quiet) (.unfiltered none none) 2 h.db
          calls = some events ∧
        List.Forall₂ EventEnvelope.PartialEq events [tied, first, later] := by
  obtain ⟨h, hReach, hAppended, hAll⟩ := exists_threeEvents_in_order
  obtain ⟨stored, hStored, hPaging⟩ := paging_iff Crates.sample Crates.sample_timeTextReadsBack
    Crates.sample_lz4DecodesBack (new .default) h hReach .quiet
  obtain ⟨⟨hs₁, hs₂, hs₃, hThree⟩, hTimes, hSorted⟩ := hAll stored hStored
  have hIn : InTimeOrder none stored :=
    inTimeOrder_of_nonLeap hTimes (fun s hs => by cases hs)
  obtain ⟨-, hPages⟩ := hPaging fun e he => (hTimes e he).1
  obtain ⟨enough, hEnough⟩ := (hPages none fun s hs => by cases hs).mpr hIn (fun _ => .quiet)
    (.unfiltered none none) 2 rfl (fun _ => rfl) Nat.two_pos
  refine ⟨h, hAppended, enough, fun calls hCalls => ?_⟩
  obtain ⟨events, hRead, hEvents⟩ := hEnough calls hCalls
  have hMatches : (stored.mergeSort timeOrder).filter (matchesQuery (.unfiltered none none)) =
      [tied.rehash hs₁, first.rehash hs₂, later.rehash hs₃] := by
    rw [hSorted, hThree]
    rfl
  rw [hMatches] at hEvents
  obtain ⟨_, _, h₁, hTwo, rfl⟩ := List.forall₂_cons_right_iff.mp hEvents
  obtain ⟨_, _, h₂, hOne, rfl⟩ := List.forall₂_cons_right_iff.mp hTwo
  obtain ⟨_, _, h₃, hNone, rfl⟩ := List.forall₂_cons_right_iff.mp hOne
  cases hNone
  exact ⟨_, hRead, .cons (h₁.trans (tied.rehash_partialEq hs₁))
    (.cons (h₂.trans (first.rehash_partialEq hs₂))
      (.cons (h₃.trans (later.rehash_partialEq hs₃)) .nil))⟩

/-- Around a leap second the pages come in another order. -/
theorem paging_leapSecond :
    ¬ ∀ (h : History) (stored : List EventEnvelope) (query : EventQuery) (pageSize : Nat),
      Reachable Crates.sample (new .default) AnyCall .empty h →
      StoredEvents Crates.sample (new .default) .quiet h.db.contents stored →
      (∀ e ∈ stored, e.timestamp.InNanosRange) → (∀ s ∈ query.startTime, s.InNanosRange) →
      0 < pageSize →
      PagesAreMatches Crates.sample (new .default) (fun _ => .quiet) query pageSize h.db
        stored := by
  intro hAlways
  obtain ⟨h, stored, hReach, hStored, hRange, hOrder, hOut⟩ := exists_leapSecond_store
  apply hOut
  have hTime := Crates.sample_timeTextReadsBack
  have hDecodes := Crates.sample_lz4DecodesBack
  have hKeys := hStored.decodesTo_of_nonneg hTime hDecodes hReach fun e he => (hRange e he).1
  have hAlike := exists_alike hTime hDecodes hReach hKeys .quiet
  refine inKeyOrder_of_pages (fun _ => rfl) (fun _ => hAlike) hOrder ?_
  exact hAlways h stored (.unfiltered none none) 1 hReach hStored hRange
    (fun s hs => by cases hs) Nat.one_pos

end LedgerFS.EventStore
