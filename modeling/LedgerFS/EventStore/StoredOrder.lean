import LedgerFS.EventStore.Durability
import LedgerFS.EventStore.Query

/-!
# Stored events are acknowledged events

Where the calls bring distinct event ids, every acknowledged envelope is stored under its own
key and there is no other record (`Indexed`, `exists_ordered`).  So what is decoded are the
acknowledged envelopes, reread, in the order of their keys (`exists_stored_ordered`).
-/

namespace LedgerFS.EventStore

open LedgerFS.Core
open LedgerFS.Library

/-- The acknowledged envelopes in the order in which they were appended. -/
def History.appended (h : History) : List EventEnvelope :=
  h.acked.reverse.flatMap Call.envelopes

theorem History.appended_perm (h : History) : h.appended.Perm h.ackedEvents :=
  (List.reverse_perm h.acked).flatMap_right Call.envelopes

/-! ## One record for each envelope -/

section Index

variable (C : Crates) (store : EventStore)

/-- The acknowledged envelopes have distinct keys, and each is stored. -/
structure Indexed (h : History) : Prop where
  distinct : (h.ackedEvents.map generateEventKey).Nodup
  stored : ∀ e ∈ h.ackedEvents, Holds C store h.db.contents e

variable {C store}

/-- **Step**: the keys of an accepted batch were free. -/
theorem Indexed.step {h h' : History} (hInv : Indexed C store h)
    (hStep : Step C store DistinctIds h h') : Indexed C store h' := by
  rcases hStep.effect with ⟨env, call, batch, hIds, -, hAccepts, rfl⟩ | ⟨hSame, hAcked⟩
  · have hKeys := nodup_keys_of_ids hIds
    have hEvents : (History.mk (h.db.write batch (call.sync store))
        (call :: h.acked)).ackedEvents = call.envelopes ++ h.ackedEvents := rfl
    constructor
    · rw [hEvents, List.map_append]
      apply List.Nodup.append hKeys hInv.distinct
      intro key hNow hBefore
      obtain ⟨e, he, rfl⟩ := List.mem_map.mp hNow
      obtain ⟨f, hf, hKey⟩ := List.mem_map.mp hBefore
      obtain ⟨value, -, hGet⟩ := hInv.stored f hf
      rw [hKey, (hAccepts.free e he).2] at hGet
      cases hGet
    · intro e he
      rw [hEvents, List.mem_append] at he
      rw [RocksDb.contents_write]
      rcases he with hNow | hBefore
      · exact hAccepts.holds hKeys hNow
      · exact hAccepts.keeps (hInv.stored e hBefore)
  · have hEvents := ackedEvents_eq_of_quiet hAcked
    constructor
    · rw [hEvents]
      exact hInv.distinct
    · rw [hEvents, hSame]
      exact hInv.stored

/-- **Run**. -/
theorem indexed_of_reachable {h : History}
    (hReach : Reachable C store DistinctIds .empty h) : Indexed C store h := by
  induction hReach with
  | refl => exact ⟨List.nodup_nil, fun e he => by cases he⟩
  | tail _ hStep ih => exact ih.step hStep

private theorem exists_envelopes {acked : List EventEnvelope} (records : List (Bytes × Bytes))
    (h : ∀ record ∈ records, ∃ e ∈ acked, IsRecord C store e record) :
    ∃ envelopes, envelopes ⊆ acked ∧ List.Forall₂ (IsRecord C store) envelopes records := by
  induction records with
  | nil => exact ⟨[], List.nil_subset acked, .nil⟩
  | cons record records ih =>
      obtain ⟨⟨e, he, hRecord⟩, hRest⟩ := List.forall_mem_cons.mp h
      obtain ⟨envelopes, hSub, hRecords⟩ := ih hRest
      exact ⟨e :: envelopes, List.cons_subset.mpr ⟨he, hSub⟩, .cons hRecord hRecords⟩

/-- **The records are those of the acknowledged envelopes**, one for each. -/
theorem exists_ordered {h : History} (hReach : Reachable C store DistinctIds .empty h) :
    ∃ ordered, ordered.Perm h.ackedEvents ∧
      List.Forall₂ (IsRecord C store) ordered h.db.contents.toList := by
  have hInv := indexed_of_reachable hReach
  obtain ⟨ordered, hSub, hRecords⟩ := exists_envelopes h.db.contents.toList hReach.acknowledged
  have hKeys := keys_of_records hRecords
  have hNodup : (ordered.map generateEventKey).Nodup := by
    rw [← hKeys, Std.ExtTreeMap.map_fst_toList_eq_keys]
    exact Std.ExtTreeMap.nodup_keys
  refine ⟨ordered, ?_, hRecords⟩
  apply (List.perm_ext_iff_of_nodup hNodup.of_map hInv.distinct.of_map).mpr
  intro e
  constructor
  · intro he
    exact hSub he
  · intro he
    obtain ⟨value, -, hGet⟩ := hInv.stored e he
    have hMem := Std.ExtTreeMap.mem_toList_iff_getElem?_eq_some.mpr hGet
    have hKey : generateEventKey e ∈ ordered.map generateEventKey := by
      rw [← hKeys]
      exact List.mem_map_of_mem hMem
    obtain ⟨f, hf, hSameKey⟩ := List.mem_map.mp hKey
    have hSame : f = e := List.inj_on_of_nodup_map hInv.distinct (hSub hf) he hSameKey
    exact hSame ▸ hf

/-- There are as many records as acknowledged envelopes. -/
theorem Reachable.size_eq {h : History} (hReach : Reachable C store DistinctIds .empty h) :
    h.db.contents.size = h.ackedEvents.length := by
  obtain ⟨ordered, hPerm, hRecords⟩ := exists_ordered hReach
  rw [← Std.ExtTreeMap.length_toList, ← hRecords.length_eq, hPerm.length_eq]

end Index

/-! ## In the order of the keys -/

section Ordered

variable {C : Crates} {store : EventStore}

/-- Records decode to their envelopes, reread. -/
theorem reread_of_records (hTime : C.TimeTextReadsBack) (hDecodes : C.Lz4DecodesBack)
    {env : CallEnv} {records : List (Bytes × Bytes)} {envelopes stored : List EventEnvelope}
    (hRecords : List.Forall₂ (IsRecord C store) envelopes records)
    (h : List.Forall₂ (fun record e => decodeItem C store env (.ok record) = .ok e) records
      stored) : List.Forall₂ (fun f e => ∃ hs, f = e.reread hs) stored envelopes := by
  induction hRecords generalizing stored with
  | nil =>
      cases h
      exact .nil
  | cons hRecord _ ih =>
      cases h with
      | cons hHere hRest =>
          cases (decodeItem_of_record hTime hDecodes env hRecord).symm.trans hHere
          exact .cons ⟨_, rfl⟩ (ih hRest)

/-- What is stored is what was acknowledged, in the order of the keys. -/
theorem exists_stored_ordered (hTime : C.TimeTextReadsBack) (hDecodes : C.Lz4DecodesBack)
    {h : History} (hReach : Reachable C store DistinctIds .empty h) (env : CallEnv) :
    ∃ stored ordered, StoredEvents C store env h.db.contents stored ∧
      List.Forall₂ (fun f e => ∃ hs, f = e.reread hs) stored ordered ∧
      ordered.Perm h.ackedEvents ∧ ordered.Pairwise KeyBefore := by
  obtain ⟨stored, hStored⟩ := exists_stored hTime hDecodes env hReach
  obtain ⟨ordered, hPerm, hRecords⟩ := exists_ordered hReach
  have hKeys : (ordered.map generateEventKey).Pairwise fun a b => compare a b = .lt := by
    rw [← keys_of_records hRecords, List.pairwise_map]
    exact ordered_toList h.db.contents
  rw [List.pairwise_map] at hKeys
  exact ⟨stored, ordered, hStored, reread_of_records hTime hDecodes hRecords hStored, hPerm,
    hKeys⟩

/-- There is one such order. -/
theorem exists_stored_in_order (hTime : C.TimeTextReadsBack) (hDecodes : C.Lz4DecodesBack)
    {h : History} (hReach : Reachable C store DistinctIds .empty h)
    {events : List EventEnvelope} (hPerm : h.ackedEvents.Perm events)
    (hOrder : events.Pairwise KeyBefore) (env : CallEnv) :
    ∃ stored, StoredEvents C store env h.db.contents stored ∧
      List.Forall₂ (fun f e => ∃ hs, f = e.reread hs) stored events := by
  obtain ⟨stored, ordered, hStored, hReread, hOrdered, hKeys⟩ :=
    exists_stored_ordered hTime hDecodes hReach env
  have hEq := (OrderedScan.perm_eq_iff_ordered (fun _ _ hKey => hKey.asymm)
    (hOrdered.trans hPerm) hKeys).mpr hOrder
  exact ⟨stored, hStored, hEq ▸ hReread⟩

end Ordered

/-- Envelopes under distinct keys may be appended one after the other. -/
theorem exists_history_of_appends {C : Crates} (hEncodes : C.Lz4Encodes) (store : EventStore)
    {envelopes : List EventEnvelope} (hKeys : (envelopes.map generateEventKey).Nodup) :
    ∃ h : History, Reachable C store DistinctIds .empty h ∧ h.appended = envelopes := by
  have hEach : (envelopes.map Call.appendEvent).flatMap Call.envelopes = envelopes := by
    induction envelopes with
    | nil => rfl
    | cons e envelopes ih =>
        rw [List.map_cons, List.flatMap_cons, ih hKeys.of_cons]
        rfl
  rw [← hEach] at hKeys
  obtain ⟨h, hAcked, hReach⟩ := exists_history_of_calls hEncodes store DistinctIds
    (envelopes.map Call.appendEvent)
    (fun call hCall contents => by
      obtain ⟨e, -, rfl⟩ := List.mem_map.mp hCall
      exact List.nodup_singleton _)
    (fun call hCall => by
      obtain ⟨e, -, rfl⟩ := List.mem_map.mp hCall
      exact List.cons_ne_nil _ _) hKeys
  refine ⟨h, hReach, ?_⟩
  rw [History.appended, hAcked, List.reverse_reverse, hEach]

/-! ## A small store -/

/-- Two events on one tick of a coarse clock, of two accounts, and a later one of the first. -/
def first : EventEnvelope :=
  createTestEnvelope ⟨Uuid.fromU128 1⟩ ⟨Uuid.fromU128 12⟩ DateTime.epoch

def tied : EventEnvelope :=
  createTestEnvelope ⟨Uuid.fromU128 2⟩ ⟨Uuid.fromU128 11⟩ DateTime.epoch

def later : EventEnvelope :=
  createTestEnvelope ⟨Uuid.fromU128 1⟩ ⟨Uuid.fromU128 10⟩ DateTime.oneSecond

/-- The later one is appended first, and of the two others the one with the larger id: they are
stored in the order of timestamps and ids. -/
theorem exists_threeEvents :
    ∃ h : History, Reachable Crates.sample (new .default) DistinctIds .empty h ∧
      h.appended = [later, first, tied] ∧
      ∀ stored, StoredEvents Crates.sample (new .default) .quiet h.db.contents stored →
        ∃ hs₁ hs₂ hs₃, stored = [tied.rehash hs₁, first.rehash hs₂, later.rehash hs₃] := by
  obtain ⟨h, hReach, hAppended⟩ := exists_history_of_appends Crates.sample_lz4Encodes
    (new .default) (show ([later, first, tied].map generateEventKey).Nodup by decide)
  refine ⟨h, hReach, hAppended, fun stored hStored => ?_⟩
  have hPerm : h.ackedEvents.Perm [tied, first, later] := by
    refine h.appended_perm.symm.trans ?_
    rw [hAppended]
    decide
  obtain ⟨stored', hStored', hReread⟩ := exists_stored_in_order Crates.sample_timeTextReadsBack
    Crates.sample_lz4DecodesBack hReach hPerm (by decide) .quiet
  cases hStored.unique hStored'
  obtain ⟨_, _, ⟨hs₁, rfl⟩, hTwo, rfl⟩ := List.forall₂_cons_right_iff.mp hReread
  obtain ⟨_, _, ⟨hs₂, rfl⟩, hOne, rfl⟩ := List.forall₂_cons_right_iff.mp hTwo
  obtain ⟨_, _, ⟨hs₃, rfl⟩, hNone, rfl⟩ := List.forall₂_cons_right_iff.mp hOne
  cases hNone
  have hPlain : ∀ e ∈ [tied, first, later], e.Unambiguous := by decide
  refine ⟨hs₁, hs₂, hs₃, ?_⟩
  rw [EventEnvelope.reread_of_unambiguous (hPlain tied (by simp)),
    EventEnvelope.reread_of_unambiguous (hPlain first (by simp)),
    EventEnvelope.reread_of_unambiguous (hPlain later (by simp))]

end LedgerFS.EventStore
