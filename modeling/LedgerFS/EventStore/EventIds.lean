import LedgerFS.EventStore.Runs

/-!
# Event ids

The store refuses a key that is stored, and a key is a timestamp and an event
id; `get_event` looks for the id alone.  So an id identifies a record only as
long as the callers see to it: `IdsAreFresh` is what they have to see to at
each call that gets past the check on keys.  In every run that does,
ids are unique, every acknowledged event is found under its id, and an id that
is stored is refused (`eventIds_identify`).
-/

namespace LedgerFS.EventStore

open LedgerFS.Core
open LedgerFS.Library

/-- The key shows the event id. -/
theorem eventId_eq_of_key {e f : EventEnvelope}
    (h : generateEventKey e = generateEventKey f) : e.eventId = f.eventId := by
  have hParts := (List.append_inj h (by simp)).2
  have hUuid : e.eventId.uuid = f.eventId.uuid := Uuid.ext hParts
  cases he : e.eventId
  cases hf : f.eventId
  rw [he, hf] at hUuid
  exact congrArg EventId.mk hUuid

section Ids

variable (C : Crates) (store : EventStore)

/-- The record decodes to an event with this id. -/
def Carries (record : Bytes × Bytes) (eventId : EventId) : Prop :=
  ∃ hs e, store.serializer.deserialize C hs record.2 = .ok e ∧ e.eventId = eventId

/-- Unless one of its keys is stored, the ids of the call are distinct and
none of them is stored. -/
def IdsAreFresh (contents : Contents) (call : Call) : Prop :=
  (∃ e ∈ call.envelopes, generateEventKey e ∈ contents) ∨
    (call.envelopes.map EventEnvelope.eventId).Nodup ∧
      ∀ e ∈ call.envelopes, ∀ record ∈ contents.toList, ¬ Carries C store record e.eventId

/-- The ids are fresh, and unless one of the keys is stored, all instants of the envelopes are
printed unambiguously. -/
def Identifiable (contents : Contents) (call : Call) : Prop :=
  IdsAreFresh C store contents call ∧
    ((∃ e ∈ call.envelopes, generateEventKey e ∈ contents) ∨
      ∀ e ∈ call.envelopes, e.Unambiguous)

/-- One record for an id, and every acknowledged event under its own key. -/
structure IdsIdentify (h : History) : Prop where
  unique : ∀ r₁ ∈ h.db.contents.toList, ∀ r₂ ∈ h.db.contents.toList, ∀ eventId,
    Carries C store r₁ eventId → Carries C store r₂ eventId → r₁ = r₂
  kept : ∀ e ∈ h.ackedEvents, Holds C store h.db.contents e

variable {C store}

theorem carries_iff (hTime : C.TimeTextReadsBack) (hDecodes : C.Lz4DecodesBack)
    {e : EventEnvelope} {record : Bytes × Bytes} (h : IsRecord C store e record)
    (eventId : EventId) : Carries C store record eventId ↔ e.eventId = eventId := by
  have hBack := EventSerializer.deserialize_serialize hTime hDecodes h.2
  constructor
  · rintro ⟨hs, f, hOk, hId⟩
    cases (hBack hs).symm.trans hOk
    exact hId
  · intro hId
    exact ⟨fun _ => .arrival, _, hBack _, hId⟩

theorem Holds.key_mem {contents : Contents} {e : EventEnvelope} (h : Holds C store contents e) :
    generateEventKey e ∈ contents := by
  obtain ⟨value, -, hGet⟩ := h
  rw [Std.ExtTreeMap.mem_iff_isSome_getElem?, hGet]
  rfl

theorem Holds.exists_carries (hTime : C.TimeTextReadsBack) (hDecodes : C.Lz4DecodesBack)
    {contents : Contents} {e : EventEnvelope} (h : Holds C store contents e) :
    ∃ record ∈ contents.toList, Carries C store record e.eventId := by
  obtain ⟨value, hValue, hGet⟩ := h
  have hRecord : IsRecord C store e (generateEventKey e, value) := ⟨rfl, hValue⟩
  exact ⟨_, Std.ExtTreeMap.mem_toList_iff_getElem?_eq_some.mpr hGet,
    (carries_iff hTime hDecodes hRecord _).mpr rfl⟩

/-- No key of a call that passes the check on keys is stored. -/
theorem Accepts.not_stored {env : CallEnv} {contents : Contents} {envelopes : List EventEnvelope}
    {batch : WriteBatch} (h : Accepts C store env contents envelopes batch) :
    ¬ ∃ e ∈ envelopes, generateEventKey e ∈ contents := by
  rintro ⟨e, he, hStored⟩
  rw [Std.ExtTreeMap.mem_iff_isSome_getElem?, (h.free e he).2] at hStored
  cases hStored

/-- A call that passes the check on keys has fresh ids. -/
theorem IdsAreFresh.of_accepts {env : CallEnv} {contents : Contents} {call : Call}
    {batch : WriteBatch} (hFresh : IdsAreFresh C store contents call)
    (h : Accepts C store env contents call.envelopes batch) :
    (call.envelopes.map EventEnvelope.eventId).Nodup ∧
      ∀ e ∈ call.envelopes, ∀ record ∈ contents.toList,
        ¬ Carries C store record e.eventId :=
  hFresh.resolve_left h.not_stored

/-- Distinct ids make distinct keys. -/
theorem nodup_keys_of_ids {envelopes : List EventEnvelope}
    (h : (envelopes.map EventEnvelope.eventId).Nodup) :
    (envelopes.map generateEventKey).Nodup := by
  unfold List.Nodup at h ⊢
  rw [List.pairwise_map] at h ⊢
  exact h.imp fun hIds hKeys => hIds (eventId_eq_of_key hKeys)

/-- **Step**: a call with fresh ids keeps ids identifying. -/
theorem IdsIdentify.step (hTime : C.TimeTextReadsBack) (hDecodes : C.Lz4DecodesBack)
    {h h' : History} (hInv : IdsIdentify C store h)
    (hStep : Step C store (IdsAreFresh C store) h h') : IdsIdentify C store h' := by
  rcases hStep.effect with ⟨env, call, batch, hAdmits, -, hAccepts, rfl⟩ | ⟨hSame, hAcked⟩
  · obtain ⟨hIds, hNew⟩ := hAdmits.of_accepts hAccepts
    have hCarries {e : EventEnvelope} {record : Bytes × Bytes}
        (hRecord : IsRecord C store e record) (eventId : EventId) :=
      carries_iff hTime hDecodes hRecord eventId
    constructor
    · intro r₁ h₁ r₂ h₂ eventId hId₁ hId₂
      rw [RocksDb.contents_write] at h₁ h₂
      rcases hAccepts.stored_cases h₁ with hOld₁ | ⟨e₁, he₁, hRecord₁⟩ <;>
        rcases hAccepts.stored_cases h₂ with hOld₂ | ⟨e₂, he₂, hRecord₂⟩
      · exact hInv.unique r₁ hOld₁ r₂ hOld₂ eventId hId₁ hId₂
      · have hEq := (hCarries hRecord₂ eventId).mp hId₂
        exact absurd hId₁ (hEq ▸ hNew e₂ he₂ r₁ hOld₁)
      · have hEq := (hCarries hRecord₁ eventId).mp hId₁
        exact absurd hId₂ (hEq ▸ hNew e₁ he₁ r₂ hOld₂)
      · -- two records of one batch: one id, so one envelope, so one key
        have hSameId : e₁.eventId = e₂.eventId := by
          rw [(hCarries hRecord₁ eventId).mp hId₁, (hCarries hRecord₂ eventId).mp hId₂]
        have hSame : e₁ = e₂ := List.inj_on_of_nodup_map hIds he₁ he₂ hSameId
        have hKey : r₁.1 = r₂.1 := by rw [hRecord₁.1, hRecord₂.1, hSame]
        have hValue : r₁.2 = r₂.2 := by
          have h₁' := hRecord₁.2
          rw [hSame, hRecord₂.2] at h₁'
          exact (Except.ok.inj h₁').symm
        exact Prod.ext hKey hValue
    · intro e he
      rw [History.ackedEvents, List.flatMap_cons, List.mem_append] at he
      rw [RocksDb.contents_write]
      rcases he with hNow | hBefore
      · exact hAccepts.holds (nodup_keys_of_ids hIds) hNow
      · exact hAccepts.keeps (hInv.kept e hBefore)
  · constructor
    · rw [hSame]
      exact hInv.unique
    · rw [hSame, ackedEvents_eq_of_quiet hAcked]
      exact hInv.kept

/-- **Run**: in a run with fresh ids, ids identify. -/
theorem idsIdentify_of_reachable (hTime : C.TimeTextReadsBack)
    (hDecodes : C.Lz4DecodesBack) {h : History}
    (hReach : Reachable C store (IdsAreFresh C store) .empty h) : IdsIdentify C store h := by
  induction hReach with
  | refl =>
      constructor
      · intro r₁ h₁
        rw [Std.ExtTreeMap.mem_toList_iff_getElem?_eq_some] at h₁
        simp [History.started, RocksDb.empty] at h₁
      · intro e he
        cases he
  | tail _ hStep ih => exact ih.step hTime hDecodes hStep

/-- Nothing but what is read back as it is was acknowledged. -/
theorem unambiguous_of_reachable {h : History}
    (hReach : Reachable C store (Identifiable C store) .empty h) :
    ∀ e ∈ h.ackedEvents, e.Unambiguous := by
  induction hReach with
  | refl =>
      intro e he
      cases he
  | tail _ hStep ih =>
      rcases hStep.effect with ⟨env, call, batch, hAdmits, -, hAccepts, rfl⟩ | ⟨-, hAcked⟩
      · intro e he
        rw [History.ackedEvents, List.flatMap_cons, List.mem_append] at he
        rcases he with hNow | hBefore
        · exact hAdmits.2.resolve_left hAccepts.not_stored e hNow
        · exact ih e hBefore
      · rw [ackedEvents_eq_of_quiet hAcked]
        exact ih

/-- New ids of a call are fresh in a run. -/
theorem IdsAreFresh.of_acked (hTime : C.TimeTextReadsBack) (hDecodes : C.Lz4DecodesBack)
    {admits : Contents → Call → Prop} {h : History} (hReach : Reachable C store admits .empty h)
    {call : Call} (hIds : (call.envelopes.map EventEnvelope.eventId).Nodup)
    (hNew : ∀ e ∈ call.envelopes, e.eventId ∉ h.ackedEvents.map EventEnvelope.eventId) :
    IdsAreFresh C store h.db.contents call := by
  refine Or.inr ⟨hIds, fun e he record hMem hCarries => hNew e he ?_⟩
  obtain ⟨f, hf, hRecord⟩ := hReach.acknowledged record hMem
  rw [← (carries_iff hTime hDecodes hRecord e.eventId).mp hCarries]
  exact List.mem_map_of_mem hf

end Ids

/-! ## Looking an event up -/

section Lookup

variable {C : Crates} {store : EventStore}

/-- The scan stops at the only record that carries the id. -/
theorem findEvent_of_unique (hTime : C.TimeTextReadsBack) (hDecodes : C.Lz4DecodesBack)
    (env : CallEnv) {e : EventEnvelope} {record : Bytes × Bytes}
    (hRecord : IsRecord C store e record) (records : List (Bytes × Bytes))
    (hAll : ∀ r ∈ records, ∃ f, IsRecord C store f r ∧ (f.eventId = e.eventId → r = record))
    (hMem : record ∈ records) :
    findEvent C store env e.eventId (records.map .ok) =
      .ok (some (e.reread (env.seeds record.2))) := by
  induction records with
  | nil => cases hMem
  | cons r records ih =>
      obtain ⟨⟨f, hf, hOnly⟩, hRest⟩ := List.forall_mem_cons.mp hAll
      rw [List.map_cons, findEvent]
      by_cases hHere : r = record
      · rw [hHere, decodeItem_of_record hTime hDecodes env hRecord]
        show (if (e.reread _).eventId = e.eventId then Except.ok (some _) else _) = _
        rw [if_pos (EventEnvelope.reread_eventId _ e)]
      · have hOther : ¬ f.eventId = e.eventId := fun hId => hHere (hOnly hId)
        have hLater : record ∈ records := by
          rcases List.mem_cons.mp hMem with hEq | hTail
          · exact absurd hEq.symm hHere
          · exact hTail
        rw [decodeItem_of_record hTime hDecodes env hf]
        show (if (f.reread _).eventId = e.eventId then Except.ok (some _) else _) = _
        rw [EventEnvelope.reread_eventId, if_neg hOther]
        exact ih hRest hLater

/-- Where ids identify, a stored event is found under its id. -/
theorem getEvent_of_stored (hTime : C.TimeTextReadsBack) (hDecodes : C.Lz4DecodesBack)
    {h : History} (hInv : IdsIdentify C store h) {admits : Contents → Call → Prop}
    (hReach : Reachable C store admits .empty h)
    {env : CallEnv} (hQuiet : env.scanFault = none) {e : EventEnvelope}
    (hHolds : Holds C store h.db.contents e) :
    ∃ hs, store.getEvent C env e.eventId h.db = .ok (some (e.reread hs)) := by
  obtain ⟨v, hValue, hStored⟩ := hHolds
  have hRecord : IsRecord C store e (generateEventKey e, v) := ⟨rfl, hValue⟩
  refine ⟨env.seeds v, ?_⟩
  have hItems : h.db.iterator env .start = h.db.contents.toList.map .ok := by
    rw [RocksDb.iterator, hQuiet]
  have hMem : (generateEventKey e, v) ∈ h.db.contents.toList :=
    Std.ExtTreeMap.mem_toList_iff_getElem?_eq_some.mpr hStored
  rw [getEvent, hItems]
  apply findEvent_of_unique hTime hDecodes env hRecord _ _ hMem
  intro r hr
  obtain ⟨f, -, hf⟩ := hReach.acknowledged r hr
  refine ⟨f, hf, fun hId => ?_⟩
  apply hInv.unique _ hr _ hMem e.eventId
  · exact (carries_iff hTime hDecodes hf _).mpr hId
  · exact (carries_iff hTime hDecodes hRecord _).mpr rfl

end Lookup

/-- **Event ids identify events**, in every run whose calls bring fresh ids and instants that
are printed unambiguously. -/
theorem eventIds_identify (C : Crates) (hTime : C.TimeTextReadsBack)
    (hDecodes : C.Lz4DecodesBack) (store : EventStore) (h : History)
    (hReach : Reachable C store (Identifiable C store) .empty h) :
    (∀ r₁ ∈ h.db.contents.toList, ∀ r₂ ∈ h.db.contents.toList, ∀ eventId,
      Carries C store r₁ eventId → Carries C store r₂ eventId → r₁ = r₂) ∧
    (∀ e ∈ h.ackedEvents, ∀ env : CallEnv, env.scanFault = none →
      ∃ e', store.getEvent C env e.eventId h.db = .ok (some e') ∧ e'.PartialEq e) ∧
    ∀ (env : CallEnv) (call : Call), Identifiable C store h.db.contents call →
      (∃ e ∈ call.envelopes, ∃ record ∈ h.db.contents.toList,
        Carries C store record e.eventId) →
      ∃ error, (call.perform C store env).exec h.db = (.error error, h.db) := by
  have hInv := idsIdentify_of_reachable hTime hDecodes
    (hReach.mono fun hIdentifiable => hIdentifiable.1)
  refine ⟨hInv.unique, ?_, ?_⟩
  · intro e he env hQuiet
    obtain ⟨hs, hFound⟩ := getEvent_of_stored hTime hDecodes hInv hReach hQuiet
      (hInv.kept e he)
    exact ⟨e.reread hs, hFound,
      (e.reread_partialEq_iff hs).mpr (unambiguous_of_reachable hReach e he)⟩
  · rintro env call hFresh ⟨e, he, record, hMem, hCarries⟩
    rcases perform_cases C store env call h.db
      with ⟨batch, -, hAccepts, -⟩ | ⟨hNil, -⟩ | ⟨-, hError⟩
    · exact absurd hCarries ((hFresh.1.of_accepts hAccepts).2 e he record hMem)
    · rw [hNil] at he
      cases he
    · exact hError

/-- Two events of one tick appended together, and a third one later: each is found under its
own id, and the first is refused when it comes again. -/
theorem eventIds_identify_test :
    let a : AccountId := ⟨Uuid.fromU128 1⟩
    let e := createTestEnvelope a ⟨Uuid.fromU128 2⟩ DateTime.epoch
    let f := createTestEnvelope a ⟨Uuid.fromU128 3⟩ DateTime.epoch
    let g := createTestEnvelope a ⟨Uuid.fromU128 1⟩ DateTime.oneSecond
    ∃ h : History, h.acked = [.appendEvent g, .appendEvents [e, f]] ∧
      (∀ x ∈ [e, f, g], ∃ x',
        (new .default).getEvent Crates.sample .quiet x.eventId h.db = .ok (some x') ∧
          x'.PartialEq x) ∧
      ∃ error, ((Call.appendEvent e).perform Crates.sample (new .default) .quiet).exec h.db =
        (.error error, h.db) := by
  intro a e f g
  have hTime := Crates.sample_timeTextReadsBack
  have hDecodes := Crates.sample_lz4DecodesBack
  have hStart : Reachable Crates.sample (new .default)
    (Identifiable Crates.sample (new .default)) .empty (.started .empty) := .refl
  have hPlain : ∀ x ∈ [e, f, g], x.Unambiguous := by decide
  obtain ⟨batch, hAccepts, hFirst⟩ := hStart.extend Crates.sample_lz4Encodes (.appendEvents [e, f])
    ⟨.of_acked hTime hDecodes hStart (show [e.eventId, f.eventId].Nodup by decide)
      (fun _ _ hOld => by cases hOld), Or.inr fun x hx => hPlain x (List.mem_append_left [g] hx)⟩
    (List.cons_ne_nil _ _) (fun _ _ => rfl)
  have hKeys : ∀ x ∈ [g], generateEventKey x ∉ [e, f].map generateEventKey := by decide
  obtain ⟨batch', -, hReach⟩ := hFirst.extend Crates.sample_lz4Encodes (.appendEvent g)
    ⟨.of_acked hTime hDecodes hFirst (List.nodup_singleton _)
      (show ∀ x ∈ [g], x.eventId ∉ [e, f].map EventEnvelope.eventId by decide),
      Or.inr fun x hx => hPlain x (List.mem_append_right [e, f] hx)⟩
    (List.cons_ne_nil _ _) (fun x hx => hFirst.free (hKeys x hx))
  obtain ⟨-, hFound, hRefused⟩ := eventIds_identify Crates.sample hTime hDecodes (new .default) _
    hReach
  have hOrder : ∀ x ∈ [e, f, g], x ∈ [g, e, f] := by decide
  refine ⟨_, rfl, fun x hx => hFound x (hOrder x hx) .quiet rfl, ?_⟩
  have hKept := (idsIdentify_of_reachable hTime hDecodes
    (hReach.mono fun hIdentifiable => hIdentifiable.1)).kept e (hOrder e List.mem_cons_self)
  exact hRefused .quiet (.appendEvent e)
    ⟨Or.inl ⟨e, List.mem_cons_self, hKept.key_mem⟩, Or.inl ⟨e, List.mem_cons_self, hKept.key_mem⟩⟩
    ⟨e, List.mem_cons_self, hKept.exists_carries hTime hDecodes⟩

/-- The same event under a later timestamp is appended next to the first. -/
theorem eventIds_resubmitted :
    ¬ ∀ h : History, Reachable Crates.sample (new .default) AnyCall .empty h →
      (∀ r₁ ∈ h.db.contents.toList, ∀ r₂ ∈ h.db.contents.toList, ∀ eventId,
        Carries Crates.sample (new .default) r₁ eventId →
          Carries Crates.sample (new .default) r₂ eventId → r₁ = r₂) ∧
      (∀ e ∈ h.ackedEvents, ∃ e',
        (new .default).getEvent Crates.sample .quiet e.eventId h.db = .ok (some e') ∧
          e'.PartialEq e) ∧
      ∀ call : Call,
        (∃ e ∈ call.envelopes, ∃ record ∈ h.db.contents.toList,
          Carries Crates.sample (new .default) record e.eventId) →
        ∃ error, (call.perform Crates.sample (new .default) .quiet).exec h.db =
          (.error error, h.db) := by
  intro hAlways
  let e := createTestEnvelope ⟨Uuid.fromU128 1⟩ ⟨Uuid.fromU128 2⟩ DateTime.epoch
  let f : EventEnvelope := { e with timestamp := DateTime.oneSecond }
  obtain ⟨h, hAcked, hReach, hHolds⟩ := exists_history Crates.sample_lz4Encodes (new .default)
    AnyCall (.appendEvent e) trivial (List.cons_ne_nil e []) (List.nodup_singleton _)
  have hCarries : ∃ record ∈ h.db.contents.toList,
      Carries Crates.sample (new .default) record f.eventId :=
    (hHolds e List.mem_cons_self).exists_carries Crates.sample_timeTextReadsBack
      Crates.sample_lz4DecodesBack
  -- the other timestamp makes another key, which is free
  have hFree : KeyIsFree .quiet h.db.contents f := by
    refine ⟨rfl, hReach.free ?_⟩
    rw [History.ackedEvents, hAcked]
    show generateEventKey f ∉ [generateEventKey e]
    decide
  obtain ⟨error, hRefused⟩ := (hAlways h hReach).2.2 (.appendEvent f)
    ⟨f, List.mem_cons_self, hCarries⟩
  obtain ⟨batch, -, hAgain⟩ := perform_accepted Crates.sample (new .default) .quiet
    Crates.sample_lz4Encodes (.appendEvent f) h.db (List.cons_ne_nil f [])
    (fun _ hf => by rw [List.mem_singleton.mp hf]; exact hFree) rfl
  cases (Prod.mk.inj (hRefused.symm.trans hAgain)).1

end LedgerFS.EventStore
