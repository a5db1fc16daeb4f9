import LedgerFS.EventStore.Paging

/-!
# Pages of a store in use

A client names its place by an offset, and between two of its calls others may append.
Where the new keys come after all the old ones, as they do while the clock that stamps the
envelopes goes forward, the records only grow at their end (`toList_prefix`), and so do
the matches.  The client then skips no match and sees none twice: what it has read when
it comes to an end is all that the scan met at its last call (`paging_while_appending`).
-/

namespace LedgerFS.EventStore

open LedgerFS.Core
open LedgerFS.Library

/-! ## Appends at the end -/

/-- All keys of the call come after those that are there. -/
def AppendsLater : Contents → Call → Prop := fun contents call =>
  ∀ e ∈ call.envelopes, ∀ record ∈ contents.toList,
    compare record.1 (generateEventKey e) = .lt

section Growth

variable {C : Crates} {store : EventStore}

/-- Under later keys an accepted batch leaves the records at the beginning. -/
theorem toList_prefix {env : CallEnv} {contents : Contents} {envelopes : List EventEnvelope}
    {batch : WriteBatch} (hAccepts : Accepts C store env contents envelopes batch)
    (hLater : ∀ e ∈ envelopes, ∀ record ∈ contents.toList,
      compare record.1 (generateEventKey e) = .lt) :
    contents.toList <+: (applyBatch contents batch).toList := by
  let after := applyBatch contents batch
  let added := after.toList.filter fun record => contents[record.1]?.isNone
  have hOld (record : Bytes × Bytes) (hMem : record ∈ contents.toList) :
      contents[record.1]? = some record.2 ∧ record ∈ after.toList := by
    have hGet := Std.ExtTreeMap.mem_toList_iff_getElem?_eq_some.mp hMem
    exact ⟨hGet, Std.ExtTreeMap.mem_toList_iff_getElem?_eq_some.mpr
      (hAccepts.get_of_stored hGet)⟩
  have hNew {record : Bytes × Bytes} (hMem : record ∈ added) :
      ∃ e ∈ envelopes, record.1 = generateEventKey e := by
    obtain ⟨hStored, hFree⟩ := List.mem_filter.mp hMem
    rcases hAccepts.stored_cases hStored with hBefore | ⟨e, he, hRecord⟩
    · rw [(hOld record hBefore).1] at hFree
      cases hFree
    · exact ⟨e, he, hRecord.1⟩
  have hBoth : (contents.toList ++ added).Pairwise fun r s => compare r.1 s.1 = .lt := by
    refine List.pairwise_append.mpr ⟨ordered_toList contents, (ordered_toList after).filter _, ?_⟩
    intro r hr s hs
    obtain ⟨e, he, hKey⟩ := hNew hs
    rw [hKey]
    exact hLater e he r hr
  have hSame : contents.toList ++ added = after.toList := by
    apply List.Perm.eq_of_pairwise _ hBoth (ordered_toList after)
    · refine (List.perm_ext_iff_of_nodup (nodup_of_keys_lt hBoth)
        (nodup_of_keys_lt (ordered_toList after))).mpr fun record => ?_
      rw [List.mem_append]
      constructor
      · rintro (hBefore | hNow)
        · exact (hOld record hBefore).2
        · exact List.mem_of_mem_filter hNow
      · intro hMem
        cases hGet : contents[record.1]? with
        | none => exact Or.inr (List.mem_filter.mpr ⟨hMem, by rw [hGet]; rfl⟩)
        | some value =>
            have hStill := hAccepts.get_of_stored hGet
            have hHere := Std.ExtTreeMap.mem_toList_iff_getElem?_eq_some.mp hMem
            have hValue : value = record.2 := Option.some.inj (hStill.symm.trans hHere)
            refine Or.inl (Std.ExtTreeMap.mem_toList_iff_getElem?_eq_some.mpr ?_)
            rw [hGet, hValue]
    · intro r s _ _ hrs hsr
      have hSwap : compare s.1 r.1 = .gt := Std.OrientedCmp.gt_of_lt hrs
      rw [hSwap] at hsr
      cases hsr
  rw [← hSame]
  exact List.prefix_append _ _

/-- **Step**: the records grow at their end. -/
theorem Step.records_prefix {h h' : History} (hStep : Step C store AppendsLater h h') :
    h.db.contents.toList <+: h'.db.contents.toList := by
  rcases hStep.effect with ⟨env, call, batch, hLater, -, hAccepts, rfl⟩ | ⟨hSame, -⟩
  · rw [RocksDb.contents_write]
    exact toList_prefix hAccepts hLater
  · exact ⟨[], by rw [List.append_nil, hSame]⟩

/-- **Run**. -/
theorem records_prefix {h h' : History}
    (hRun : Relation.ReflTransGen (Step C store AppendsLater) h h') :
    h.db.contents.toList <+: h'.db.contents.toList := by
  induction hRun with
  | refl => exact List.prefix_refl _
  | tail _ hStep ih => exact ih.trans hStep.records_prefix

/-- The first records decode to the first events. -/
theorem decoded_prefix {env : CallEnv} {records more : List (Bytes × Bytes)}
    {events all : List EventEnvelope} (h : DecodesTo C store env records events)
    (hAll : DecodesTo C store env (records ++ more) all) : events <+: all := by
  induction h generalizing all with
  | nil => exact List.nil_prefix
  | cons hHere _ ih =>
      cases hAll with
      | cons hHere' hRest =>
          cases hHere.1.symm.trans hHere'.1
          exact List.cons_prefix_cons.mpr ⟨rfl, ih hRest⟩

end Growth

/-- A scan meets more, and what it has met stays first. -/
theorem metByScan_prefix (query : EventQuery) {events all : List EventEnvelope}
    (h : events <+: all) :
    metByScan query (fromSeek query.startTime events) <+:
      metByScan query (fromSeek query.startTime all) := by
  have hSeek : fromSeek query.startTime events <+: fromSeek query.startTime all := by
    cases query.startTime with
    | none => exact h
    | some s => exact h.filter _
  unfold metByScan
  apply List.IsPrefix.filter
  exact OrderedScan.takeWhile_prefix_of_prefix _ (hSeek.filter (forAccount query))

/-- A scan meets no more events than there are. -/
theorem length_metByScan_le (query : EventQuery) (events : List EventEnvelope) :
    (metByScan query (fromSeek query.startTime events)).length ≤ events.length := by
  have hSeek : (fromSeek query.startTime events).length ≤ events.length := by
    cases query.startTime with
    | none => exact Nat.le_refl _
    | some s => exact List.length_filter_le _ events
  calc (metByScan query (fromSeek query.startTime events)).length
      ≤ (((fromSeek query.startTime events).filter (forAccount query)).takeWhile
          (untilEnd query)).length := List.length_filter_le _ _
    _ ≤ ((fromSeek query.startTime events).filter (forAccount query)).length :=
        (List.takeWhile_prefix _).length_le
    _ ≤ (fromSeek query.startTime events).length := List.length_filter_le _ _
    _ ≤ events.length := hSeek

/-! ## The client -/

section Client

variable (C : Crates) (store : EventStore)

/-- A call of the client on the database it meets; it leaves its number. -/
def livePageCall (envs : Nat → CallEnv) (query : EventQuery) (pageSize : Nat)
    (dbs : Nat → RocksDb) (i offset : Nat) (_last : Nat) :
    Option (Portion EventEnvelope × Nat) :=
  (pageCall C store envs query pageSize (dbs i) i offset ()).map fun page => (page.1, i)

/-- The client asks for one page after the other until there is no more: the events, and
the number of its last call. -/
def readLivePages (envs : Nat → CallEnv) (query : EventQuery) (pageSize : Nat)
    (dbs : Nat → RocksDb) (calls : Nat) : Option (List EventEnvelope × Nat) :=
  readAll (livePageCall C store envs query pageSize dbs) calls 0 0 0

variable {C store}

/-- **A page is a portion** of what the scan meets at its call. -/
theorem livePages_resume {envs : Nat → CallEnv} (hQuiet : ∀ i, (envs i).scanFault = none)
    {dbs : Nat → RocksDb} {stored : Nat → List EventEnvelope}
    (hAlike : ∀ i env, ∃ events, DecodesTo C store env (dbs i).contents.toList events ∧
      List.Forall₂ Alike events (stored i))
    (query : EventQuery) {pageSize : Nat} (hSize : 0 < pageSize) :
    ResumesGrowing Alike (fun i => metByScan query (fromSeek query.startTime (stored i)))
      (livePageCall C store envs query pageSize dbs) := by
  intro i offset _ hOffset
  obtain ⟨portion, s, hCall, -, hCovers⟩ := pages_resume hQuiet
    (fun j => hAlike i (envs j)) query hSize i offset () trivial hOffset
  exact ⟨portion, by rw [livePageCall, hCall]; rfl, hCovers⟩

end Client

/-- **Paging while others append**: between two calls of the client any calls may be made
that append under later keys, or fail, or read.  Whenever the client comes to an end, it
has read what the scan met at its last call, each event once and in order; and it comes
to an end if the store stays within a bound. -/
theorem paging_while_appending (C : Crates) (hTime : C.TimeTextReadsBack)
    (hDecodes : C.Lz4DecodesBack) (store : EventStore) (moments : Nat → History)
    (hReach : Reachable C store AnyCall .empty (moments 0))
    (hRun : ∀ i, Relation.ReflTransGen (Step C store AppendsLater) (moments i) (moments (i + 1)))
    (hKept : ∀ i, ∀ e ∈ (moments i).ackedEvents, KeepsKey e) (envs : Nat → CallEnv)
    (hQuiet : ∀ i, (envs i).scanFault = none) (query : EventQuery) (pageSize : Nat)
    (hSize : 0 < pageSize) :
    ∃ stored : Nat → List EventEnvelope,
      (∀ i, StoredEvents C store .quiet (moments i).db.contents (stored i)) ∧
      (∀ calls events last,
        readLivePages C store envs query pageSize (fun i => (moments i).db) calls =
            some (events, last) →
          List.Forall₂ Alike events
            (metByScan query (fromSeek query.startTime (stored last)))) ∧
      ∀ bound, (∀ i, (moments i).db.contents.size ≤ bound) → ∀ calls, bound < calls →
        (readLivePages C store envs query pageSize (fun i => (moments i).db) calls).isSome := by
  have hReachAt (i : Nat) : Reachable C store AnyCall .empty (moments i) := by
    induction i with
    | zero => exact hReach
    | succ i ih =>
        exact ih.trans (Relation.ReflTransGen.mono (fun _ _ hStep => hStep.mono fun _ => trivial)
          _ _ (hRun i))
  have hEach (i : Nat) := exists_stored hTime hDecodes .quiet (hReachAt i)
  let stored (i : Nat) : List EventEnvelope := (hEach i).choose
  have hStored (i : Nat) : DecodesTo C store .quiet (moments i).db.contents.toList (stored i) :=
    (hEach i).choose_spec.decodesTo hTime hDecodes (hReachAt i) fun e he _ _ => hKept i e he
  have hGrows (i : Nat) : stored i <+: stored (i + 1) := by
    obtain ⟨more, hMore⟩ := records_prefix (hRun i)
    have hNext := hStored (i + 1)
    rw [← hMore] at hNext
    exact decoded_prefix (hStored i) hNext
  have hResumes := livePages_resume hQuiet
    (fun i env => exists_alike hTime hDecodes (hReachAt i) (hStored i) env) query hSize
  have hMet (i : Nat) := metByScan_prefix query (hGrows i)
  refine ⟨stored, fun i => (hStored i).storedEvents, ?_, ?_⟩
  · intro calls events last hRead
    have hAll := (readAll_growing hResumes hMet (Nat.zero_le _) hRead).2
    rwa [List.drop_zero] at hAll
  · intro bound hBound calls hCalls
    have hWithin (i : Nat) :
        (metByScan query (fromSeek query.startTime (stored i))).length ≤ bound := by
      have hFew := length_metByScan_le query (stored i)
      rw [← (hStored i).length_eq, Std.ExtTreeMap.length_toList] at hFew
      exact hFew.trans (hBound i)
    exact readAll_growing_ends hResumes hMet hWithin calls 0 0 0 (Nat.zero_le _) (by omega)

/-- One state at first, another one ever after. -/
def onceThen (first second : History) : Nat → History
  | 0 => first
  | _ + 1 => second

/-- A store of one event, and what becomes of it when a later one is appended. -/
theorem exists_later_append :
    let e := createTestEnvelope ⟨Uuid.fromU128 1⟩ ⟨Uuid.fromU128 2⟩ DateTime.epoch
    let f := createTestEnvelope ⟨Uuid.fromU128 1⟩ ⟨Uuid.fromU128 3⟩ DateTime.epoch
    ∃ before after : History, before.acked = [.appendEvent e] ∧
      after.acked = [.appendEvent f, .appendEvent e] ∧
      Reachable Crates.sample (new .default) AnyCall .empty before ∧
      Step Crates.sample (new .default) AppendsLater before after ∧
      before.db.contents.size ≤ 2 ∧ after.db.contents.size ≤ 2 := by
  intro e f
  let store := new .default
  have hStart : Reachable Crates.sample store AnyCall .empty (.started .empty) := .refl
  obtain ⟨batch, hAccepts, hReach⟩ := hStart.extend Crates.sample_lz4Encodes (.appendEvent e)
    trivial (List.cons_ne_nil e []) (fun _ _ => rfl)
  obtain ⟨record, _, hRecord, hNoMore, rfl⟩ := List.forall₂_cons_left_iff.mp hAccepts.records
  cases hNoMore
  let before : History := ⟨RocksDb.empty.write [record] false, [.appendEvent e]⟩
  have hBefore : compare record.1 (generateEventKey f) = .lt := by
    rw [hRecord.1]
    decide
  have hLater : AppendsLater before.db.contents (.appendEvent f) := by
    intro g hg r hr
    obtain rfl := List.mem_singleton.mp hg
    change r ∈ ((∅ : Contents).insert record.1 record.2).toList at hr
    obtain rfl : r = (record.1, record.2) := List.mem_singleton.mp hr
    exact hBefore
  obtain ⟨batch', hAccepts', hExec⟩ := perform_accepted Crates.sample store .quiet
    Crates.sample_lz4Encodes (.appendEvent f) before.db (List.cons_ne_nil f []) (fun g hg => by
      obtain rfl := List.mem_singleton.mp hg
      refine ⟨rfl, ?_⟩
      change ((∅ : Contents).insert record.1 record.2)[generateEventKey f]? = none
      rw [Std.ExtTreeMap.getElem?_insert, if_neg (by rw [hBefore]; decide)]
      rfl) rfl
  let after : History := ⟨before.db.write batch' false, [.appendEvent f, .appendEvent e]⟩
  have hStep : Step Crates.sample store AppendsLater before after := .acknowledged hLater hExec
  have hGrow := size_applyBatch_le before.db.contents batch'
  rw [← hAccepts'.records.length_eq, ← RocksDb.contents_write before.db batch' false] at hGrow
  exact ⟨before, after, rfl, rfl, hReach, hStep, Nat.le_succ 1, hGrow⟩

/-- One event is there, and a later one is appended after the first page of one: the client
gets both. -/
theorem paging_while_appending_test :
    let e := createTestEnvelope ⟨Uuid.fromU128 1⟩ ⟨Uuid.fromU128 2⟩ DateTime.epoch
    let f := createTestEnvelope ⟨Uuid.fromU128 1⟩ ⟨Uuid.fromU128 3⟩ DateTime.epoch
    ∃ (moments : Nat → History) (events : List EventEnvelope) (last : Nat),
      (moments 0).acked = [.appendEvent e] ∧
      (moments 1).acked = [.appendEvent f, .appendEvent e] ∧
      readLivePages Crates.sample (new .default) (fun _ => .quiet) (.unfiltered none none) 1
        (fun i => (moments i).db) 3 = some (events, last) ∧
      events.length = (moments last).db.contents.size := by
  intro e f
  obtain ⟨before, after, hAcked, hAcked', hReach, hStep, hSize, hSize'⟩ := exists_later_append
  let moments := onceThen before after
  have hRun (i : Nat) : Relation.ReflTransGen (Step Crates.sample (new .default) AppendsLater)
      (moments i) (moments (i + 1)) := by
    cases i with
    | zero => exact .single hStep
    | succ i => exact .refl
  have hKept (i : Nat) : ∀ x ∈ (moments i).ackedEvents, KeepsKey x := by
    cases i with
    | zero =>
        show ∀ x ∈ before.ackedEvents, KeepsKey x
        rw [History.ackedEvents, hAcked]
        decide
    | succ i =>
        show ∀ x ∈ after.ackedEvents, KeepsKey x
        rw [History.ackedEvents, hAcked']
        decide
  obtain ⟨stored, hStored, hRead, hEnds⟩ := paging_while_appending Crates.sample
    Crates.sample_timeTextReadsBack Crates.sample_lz4DecodesBack (new .default) moments hReach
    hRun hKept (fun _ => .quiet) (fun _ => rfl) (.unfiltered none none) 1 Nat.one_pos
  have hBound (i : Nat) : (moments i).db.contents.size ≤ 2 := by
    cases i with
    | zero => exact hSize
    | succ i => exact hSize'
  obtain ⟨⟨events, last⟩, hSome⟩ := Option.isSome_iff_exists.mp (hEnds 2 hBound 3 (by decide))
  refine ⟨moments, events, last, hAcked, hAcked', hSome, ?_⟩
  have hAll := (hRead 3 events last hSome).length_eq
  rw [metByScan_unfiltered] at hAll
  rw [hAll, ← Std.ExtTreeMap.length_toList]
  exact (hStored last).length_eq.symm

end LedgerFS.EventStore
