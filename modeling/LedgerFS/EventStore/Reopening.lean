import LedgerFS.EventStore.AppendOrder

/-!
# Reopening under another setting

`EventStore::new` opens a database that may hold records written under other
settings, and every read decodes with the present one.  An LZ4 frame starts
with the magic number, an uncompressed record with the length of the event id,
so neither is read as the other (`decodeItem_of_other`): one record of the
other kind and the scans that come to it fail.

`SerializedEventEnvelope`, the wrapper with a format version and a compression
flag that `serialization.rs` declares, is not written and not read.
-/

namespace LedgerFS.EventStore

open LedgerFS.Core
open LedgerFS.Library
open LedgerFS.Library.ByteOrder
open LedgerFS.Library.WireFormat

/-! ## Records of the other kind -/

section Kinds

variable {C : Crates}

/-- The stored bytes of an envelope start with the length of its id. -/
theorem encode_envelope_starts (C : Crates) (e : EventEnvelope) :
    toLE 8 16 <+: (Bincode.eventEnvelope C).encode e := by
  have hId : Bincode.eventId.encode e.eventId = toLE 8 16 ++ e.eventId.uuid.bytes := by
    show toLE 8 e.eventId.uuid.bytes.length ++ e.eventId.uuid.bytes = _
    rw [e.eventId.uuid.size]
  show toLE 8 16 <+: Bincode.eventId.encode e.eventId ++ _
  rw [hId, List.append_assoc]
  exact List.prefix_append _ _

/-- Bytes that start with the magic number announce another length than an id has. -/
theorem uuid_decode_of_magic {frame : Bytes} (h : Crates.lz4Magic <+: frame) :
    ∃ kind, Bincode.uuid.decode.run frame = .error kind := by
  have hLength : ofLE (frame.take 8) % 256 = 4 := by
    obtain ⟨rest, rfl⟩ := h
    rw [Crates.lz4Magic, List.cons_append, List.take_succ_cons, ofLE]
    simp
  cases hRun : Bincode.uuid.decode.run frame with
  | error kind => exact ⟨kind, rfl⟩
  | ok read =>
      obtain ⟨bytes, rest, hBuf, hAccept⟩ := bind_eq_ok hRun
      obtain ⟨n, rest', hWord, hTake⟩ := bind_eq_ok hBuf
      have hSize : ¬ bytes.length = 16 := by
        rw [takeBytes_eq_ok hTake, word_eq_ok hWord]
        omega
      simp only [dif_neg hSize] at hAccept
      cases hAccept

/-- A frame is not an uncompressed record. -/
theorem deserialize_of_frame {frame : Bytes} (h : Crates.lz4Magic <+: frame) (hs : Hashers) :
    ∃ error, (EventSerializer.mk false).deserialize C hs frame = .error error := by
  obtain ⟨kind, hKind⟩ := uuid_decode_of_magic h
  have hEnvelope : (Bincode.eventEnvelope C).decode.run frame = .error kind := by
    show (Bincode.uuid.decode >>= _ >>= _ : Decoder _ _).run frame = _
    rw [bind_assoc, StateT.run_bind, hKind]
    rfl
  refine ⟨.serializationFailed kind, ?_⟩
  show ((Bincode.deserialize C frame).mapError SerializationError.serializationFailed >>= _) = _
  rw [Bincode.deserialize, hEnvelope]
  rfl

/-- An uncompressed record is not a frame. -/
theorem deserialize_of_plain (hRejects : C.Lz4RejectsOthers) (e : EventEnvelope) (hs : Hashers) :
    ∃ error, (EventSerializer.mk true).deserialize C hs ((Bincode.eventEnvelope C).encode e) =
      .error error := by
  obtain ⟨rest, hRest⟩ := encode_envelope_starts C e
  obtain ⟨message, hMessage⟩ := hRejects ((Bincode.eventEnvelope C).encode e)
    (by rw [← hRest]; simp [toLE]) (by
      rintro ⟨tail, hTail⟩
      rw [← hRest] at hTail
      have hHead := congrArg List.head? hTail
      revert hHead
      simp [Crates.lz4Magic, toLE])
  refine ⟨.decompressionFailed message, ?_⟩
  show (EventSerializer.decompress C _ >>= _) = _
  rw [EventSerializer.decompress, hMessage]
  rfl

/-- **No record is read under the other setting.** -/
theorem decodeItem_of_other (hStart : C.Lz4FramesStart) (hRejects : C.Lz4RejectsOthers)
    {store store' : EventStore}
    (hOther : store.serializer.useCompression ≠ store'.serializer.useCompression)
    {e : EventEnvelope} {record : Bytes × Bytes} (h : IsRecord C store e record)
    (env : CallEnv) : ∃ error, decodeItem C store' env (.ok record) = .error error := by
  have hError : ∃ error,
      store'.serializer.deserialize C (env.seeds record.2) record.2 = .error error := by
    have hValue := h.2
    rw [EventSerializer.serialize_eq] at hValue
    cases hOld : store.serializer with
    | mk old =>
      cases hNew : store'.serializer with
      | mk now =>
        rw [hOld, hNew] at hOther
        rw [hOld] at hValue
        cases old with
        | true =>
            have hNow : now = false := by simpa using hOther.symm
            subst hNow
            have hFrame : C.lz4Compress ((Bincode.eventEnvelope C).encode e) =
                .ok record.2 := by
              rw [if_pos rfl, EventSerializer.compress] at hValue
              cases hLz4 : C.lz4Compress ((Bincode.eventEnvelope C).encode e) with
              | error message =>
                  rw [hLz4] at hValue
                  cases hValue
              | ok frame =>
                  rw [hLz4] at hValue
                  cases hValue
                  rfl
            exact deserialize_of_frame (hStart _ _ hFrame) _
        | false =>
            have hNow : now = true := by simpa using hOther.symm
            subst hNow
            have hPlain : (Bincode.eventEnvelope C).encode e = record.2 := Except.ok.inj hValue
            rw [← hPlain]
            exact deserialize_of_plain hRejects e _
  obtain ⟨error, hError⟩ := hError
  refine ⟨.serializationError error, ?_⟩
  show (store'.serializer.deserialize C (env.seeds record.2) record.2).mapError
    EventStoreError.serializationError = _
  rw [hError]
  rfl

end Kinds

/-! ## Histories of one database -/

/-- A database, the settings it is open under, and the calls acknowledged so
far with the settings they were made under, latest first. -/
structure ReopenHistory where
  db : RocksDb
  config : EventStoreConfig
  acked : List (EventStoreConfig × Call)

namespace ReopenHistory

def store (h : ReopenHistory) : EventStore := new h.config

/-- The envelopes whose append was acknowledged. -/
def ackedEvents (h : ReopenHistory) : List (EventStoreConfig × EventEnvelope) :=
  h.acked.flatMap fun ack => ack.2.envelopes.map fun e => (ack.1, e)

/-- A new database. -/
def created (config : EventStoreConfig) : ReopenHistory := ⟨.empty, config, []⟩

end ReopenHistory

section Histories

variable (C : Crates)

/-- The database is closed and opened again, or is called. -/
inductive ReopenStep : ReopenHistory → ReopenHistory → Prop
  | reopened (h : ReopenHistory) (config : EventStoreConfig) :
      ReopenStep h ⟨.opened h.db.contents, config, h.acked⟩
  | called {h : ReopenHistory} {after : History}
      (hStep : Step C h.store AnyCall (.started h.db) after) :
      ReopenStep h
        ⟨after.db, h.config, after.acked.map (fun call => (h.config, call)) ++ h.acked⟩

/-- Histories of a database from its creation on. -/
def Reopens (h : ReopenHistory) : Prop :=
  ∃ config, Relation.ReflTransGen (ReopenStep C) (.created config) h

/-- Every record was written for an acknowledged event, and every acknowledged
event has a record under its key, written with it. -/
structure Archived (h : ReopenHistory) : Prop where
  source : ∀ record ∈ h.db.contents.toList,
    ∃ config e, (config, e) ∈ h.ackedEvents ∧ IsRecord C (new config) e record
  kept : ∀ config e, (config, e) ∈ h.ackedEvents →
    ∃ f record, (config, f) ∈ h.ackedEvents ∧ record ∈ h.db.contents.toList ∧
      IsRecord C (new config) f record ∧ generateEventKey f = generateEventKey e

variable {C}

theorem Archived.congr {h h' : ReopenHistory} (hInv : Archived C h)
    (hContents : h'.db.contents = h.db.contents) (hEvents : h'.ackedEvents = h.ackedEvents) :
    Archived C h' := by
  constructor
  · rw [hContents, hEvents]
    exact hInv.source
  · rw [hContents, hEvents]
    exact hInv.kept

/-- An accepted batch brings its records. -/
theorem Archived.append {h h' : ReopenHistory} (hInv : Archived C h)
    {config : EventStoreConfig} {env : CallEnv} {envelopes : List EventEnvelope}
    {batch : WriteBatch}
    (hAccepts : Accepts C (new config) env h.db.contents envelopes batch)
    (hContents : h'.db.contents = applyBatch h.db.contents batch)
    (hEvents : h'.ackedEvents = envelopes.map (fun e => (config, e)) ++ h.ackedEvents) :
    Archived C h' := by
  constructor
  · intro record hMem
    rw [hContents] at hMem
    rw [hEvents]
    rcases hAccepts.stored_cases hMem with hOld | ⟨e, he, hRecord⟩
    · obtain ⟨config, e, he, hRecord⟩ := hInv.source record hOld
      exact ⟨config, e, List.mem_append_right _ he, hRecord⟩
    · exact ⟨config, e, List.mem_append_left _ (List.mem_map_of_mem he), hRecord⟩
  · intro config' e he
    rw [hEvents] at he ⊢
    rw [hContents]
    rcases List.mem_append.mp he with hNew | hOld
    · obtain ⟨e, heNow, hEq⟩ := List.mem_map.mp hNew
      cases hEq
      have hKey : generateEventKey e ∈ batch.map Prod.fst := by
        rw [keys_of_records hAccepts.records]
        exact List.mem_map_of_mem heNow
      obtain ⟨value, hMem, hGet⟩ := applyBatch_get_of_mem h.db.contents batch _ hKey
      obtain ⟨f, hf, hRecord⟩ := exists_envelope_of_mem hAccepts.records hMem
      exact ⟨f, _, List.mem_append_left _ (List.mem_map_of_mem hf),
        Std.ExtTreeMap.mem_toList_iff_getElem?_eq_some.mpr hGet, hRecord, hRecord.1.symm⟩
    · obtain ⟨f, record, hf, hMem, hRecord, hKey⟩ := hInv.kept config' e hOld
      refine ⟨f, record, List.mem_append_right _ hf, ?_, hRecord, hKey⟩
      rw [Std.ExtTreeMap.mem_toList_iff_getElem?_eq_some] at hMem ⊢
      exact hAccepts.get_of_stored hMem

/-- **Step**: opening again and calling keep the records. -/
theorem Archived.step {h h' : ReopenHistory} (hInv : Archived C h)
    (hStep : ReopenStep C h h') : Archived C h' := by
  cases hStep with
  | reopened config => exact hInv.congr (RocksDb.contents_opened _) rfl
  | @called after hStep =>
      rcases hStep.effect with ⟨env, call, batch, -, -, hAccepts, rfl⟩ | ⟨hSame, hAcked⟩
      · exact hInv.append hAccepts (RocksDb.contents_write ..) rfl
      · refine hInv.congr (congrArg RocksDb.contents hSame) ?_
        rcases hAcked with hNone | ⟨call, hNil, hOne⟩
        · rw [ReopenHistory.ackedEvents, hNone]
          rfl
        · rw [ReopenHistory.ackedEvents, hOne]
          show call.envelopes.map _ ++ h.ackedEvents = _
          rw [hNil, List.map_nil, List.nil_append]

/-- **Run**: the records of every history. -/
theorem Reopens.archived {h : ReopenHistory} (hReach : Reopens C h) : Archived C h := by
  obtain ⟨config, hSteps⟩ := hReach
  induction hSteps with
  | refl =>
      constructor
      · intro record hMem
        cases hMem
      · intro config e he
        cases he
  | tail _ hStep ih => exact ih.step hStep

end Histories

/-! ## What the reads return -/

section Reads

variable {C : Crates} {store : EventStore} {env : CallEnv}

/-- Every decoded event has its record. -/
theorem DecodesTo.exists_record {records : List (Bytes × Bytes)} {events : List EventEnvelope}
    (h : DecodesTo C store env records events) {x : EventEnvelope} (hx : x ∈ events) :
    ∃ record ∈ records, decodeItem C store env (.ok record) = .ok x := by
  induction h with
  | nil => cases hx
  | @cons record e _ _ hBoth _ ih =>
      rcases List.mem_cons.mp hx with rfl | hTail
      · exact ⟨record, List.mem_cons_self, hBoth.1⟩
      · obtain ⟨record, hMem, hDecode⟩ := ih hTail
        exact ⟨record, List.mem_cons_of_mem _ hMem, hDecode⟩

/-- Every record has its decoded event. -/
theorem DecodesTo.exists_event {records : List (Bytes × Bytes)} {events : List EventEnvelope}
    (h : DecodesTo C store env records events) {record : Bytes × Bytes}
    (hMem : record ∈ records) : ∃ x ∈ events, decodeItem C store env (.ok record) = .ok x := by
  induction h with
  | nil => cases hMem
  | @cons _ e _ _ hBoth _ ih =>
      rcases List.mem_cons.mp hMem with rfl | hTail
      · exact ⟨e, List.mem_cons_self, hBoth.1⟩
      · obtain ⟨x, hx, hDecode⟩ := ih hTail
        exact ⟨x, List.mem_cons_of_mem _ hx, hDecode⟩

/-- What `get_event` finds was decoded from a record. -/
theorem exists_record_of_findEvent {eventId : EventId} {records : List (Bytes × Bytes)}
    {x : EventEnvelope}
    (h : findEvent C store env eventId (records.map .ok) = .ok (some x)) :
    ∃ record ∈ records, decodeItem C store env (.ok record) = .ok x := by
  induction records with
  | nil => cases h
  | cons record records ih =>
      rw [List.map_cons, findEvent] at h
      cases hDecode : decodeItem C store env (.ok record) with
      | error error =>
          rw [hDecode] at h
          cases h
      | ok e =>
          rw [hDecode] at h
          change (if e.eventId = eventId then .ok (some e)
            else findEvent C store env eventId (records.map .ok) : Except _ _) = _ at h
          by_cases hId : e.eventId = eventId
          · rw [if_pos hId] at h
            cases h
            exact ⟨record, List.mem_cons_self, hDecode⟩
          · rw [if_neg hId] at h
            obtain ⟨record', hMem, hFound⟩ := ih h
            exact ⟨record', List.mem_cons_of_mem _ hMem, hFound⟩

/-- Where all records decode, `get_event` finds the first event of the id. -/
theorem findEvent_eq {records : List (Bytes × Bytes)} {events : List EventEnvelope}
    (h : DecodesTo C store env records events) (eventId : EventId) :
    findEvent C store env eventId (records.map .ok) =
      .ok (events.find? fun e => e.eventId = eventId) := by
  induction h with
  | nil => rfl
  | @cons record e _ _ hBoth _ ih =>
      rw [List.map_cons, findEvent, hBoth.1]
      show (if e.eventId = eventId then .ok (some e) else _ : Except _ _) = _
      by_cases hId : e.eventId = eventId
      · rw [if_pos hId, List.find?_cons_of_pos (by simpa using hId)]
      · rw [if_neg hId, ih, List.find?_cons_of_neg (by simpa using hId)]

end Reads

section Exact

variable {C : Crates} {h : ReopenHistory} {env : CallEnv}

/-- Every acknowledged event is returned, equal to what was appended. -/
def ReturnsAll (C : Crates) (h : ReopenHistory) (env : CallEnv) (limit : Option Nat) : Prop :=
  ∀ config e, (config, e) ∈ h.ackedEvents →
    (∃ e', h.store.getEvent C env e.eventId h.db = .ok (some e') ∧ e'.PartialEq e) ∧
    ∃ result, h.store.queryEvents C env (.unfiltered none limit) h.db = .ok result ∧
      ∃ e' ∈ result.events, e'.PartialEq e

/-- All acknowledged events were appended under the present setting. -/
def OneSetting (h : ReopenHistory) : Prop :=
  ∀ config e, (config, e) ∈ h.ackedEvents →
    config.enableCompression = h.config.enableCompression

/-- Acknowledged events of one id are equal. -/
def IdsAgree (h : ReopenHistory) : Prop :=
  ∀ config e config' e', (config, e) ∈ h.ackedEvents → (config', e') ∈ h.ackedEvents →
    e.eventId = e'.eventId → e.PartialEq e'

/-- All instants of the acknowledged events are printed unambiguously. -/
def AllUnambiguous (h : ReopenHistory) : Prop :=
  ∀ config e, (config, e) ∈ h.ackedEvents → e.Unambiguous

/-- Under one setting a record is one of the present store. -/
theorem isRecord_of_setting {config : EventStoreConfig}
    (hSame : config.enableCompression = h.config.enableCompression) {e : EventEnvelope}
    {record : Bytes × Bytes} (hRecord : IsRecord C (new config) e record) :
    IsRecord C h.store e record := by
  have hSerializer : (new config).serializer = h.store.serializer := by
    show EventSerializer.mk config.enableCompression = ⟨h.config.enableCompression⟩
    rw [hSame]
  rw [IsRecord, hSerializer] at hRecord
  exact hRecord

/-- A record that decodes was written under the present setting. -/
theorem setting_of_decodes (hStart : C.Lz4FramesStart) (hRejects : C.Lz4RejectsOthers)
    {config : EventStoreConfig} {e : EventEnvelope} {record : Bytes × Bytes}
    (hRecord : IsRecord C (new config) e record) {x : EventEnvelope}
    (hDecode : decodeItem C h.store env (.ok record) = .ok x) :
    config.enableCompression = h.config.enableCompression := by
  by_contra hOther
  obtain ⟨error, hError⟩ := decodeItem_of_other hStart hRejects
    (show (new config).serializer.useCompression ≠ h.store.serializer.useCompression
      from hOther) hRecord env
  rw [hError] at hDecode
  cases hDecode

/-- What a record decodes to is the envelope it was written for, reread. -/
theorem decoded_reread (hTime : C.TimeTextReadsBack) (hDecodes : C.Lz4DecodesBack)
    {e x : EventEnvelope} {record : Bytes × Bytes} (hRecord : IsRecord C h.store e record)
    (hDecode : decodeItem C h.store env (.ok record) = .ok x) : ∃ hs, x = e.reread hs := by
  cases (decodeItem_of_record hTime hDecodes env hRecord).symm.trans hDecode
  exact ⟨_, rfl⟩

theorem decoded_partialEq (hTime : C.TimeTextReadsBack) (hDecodes : C.Lz4DecodesBack)
    {e x : EventEnvelope} {record : Bytes × Bytes} (hRecord : IsRecord C h.store e record)
    (hPlain : e.Unambiguous) (hDecode : decodeItem C h.store env (.ok record) = .ok x) :
    x.PartialEq e := by
  obtain ⟨hs, rfl⟩ := decoded_reread hTime hDecodes hRecord hDecode
  exact (e.reread_partialEq_iff hs).mpr hPlain

/-- A key has one record. -/
theorem record_unique {contents : Contents} {r s : Bytes × Bytes} (hr : r ∈ contents.toList)
    (hs : s ∈ contents.toList) (hKey : r.1 = s.1) : r = s := by
  rw [Std.ExtTreeMap.mem_toList_iff_getElem?_eq_some] at hr hs
  rw [hKey, hs] at hr
  exact Prod.ext hKey (Option.some.inj hr).symm

/-- What `get_event` finds was decoded from a record of the present setting. -/
theorem exists_source_of_getEvent (hStart : C.Lz4FramesStart) (hRejects : C.Lz4RejectsOthers)
    (hInv : Archived C h) (hQuiet : env.scanFault = none) {eventId : EventId} {x : EventEnvelope}
    (hFound : h.store.getEvent C env eventId h.db = .ok (some x)) :
    ∃ config g record, (config, g) ∈ h.ackedEvents ∧ record ∈ h.db.contents.toList ∧
      IsRecord C h.store g record ∧ decodeItem C h.store env (.ok record) = .ok x := by
  have hItems : h.db.iterator env .start = h.db.contents.toList.map .ok := by
    rw [RocksDb.iterator, hQuiet]
  rw [getEvent, hItems] at hFound
  obtain ⟨record, hMem, hDecode⟩ := exists_record_of_findEvent hFound
  obtain ⟨config, g, hg, hRecord⟩ := hInv.source record hMem
  exact ⟨config, g, record, hg, hMem,
    isRecord_of_setting (setting_of_decodes hStart hRejects hRecord hDecode) hRecord, hDecode⟩

/-- **Unambiguous instants**: where every acknowledged event is found as it was appended, its
instants were read back as themselves. -/
theorem allUnambiguous_of_returnsAll (hTime : C.TimeTextReadsBack) (hDecodes : C.Lz4DecodesBack)
    (hStart : C.Lz4FramesStart) (hRejects : C.Lz4RejectsOthers) (hInv : Archived C h)
    (hQuiet : env.scanFault = none) {limit : Option Nat}
    (hAll : ReturnsAll C h env limit) : AllUnambiguous h := by
  intro config e he
  obtain ⟨⟨x, hFound, hEq⟩, -⟩ := hAll config e he
  obtain ⟨_, g, record, -, -, hRecord, hDecode⟩ :=
    exists_source_of_getEvent hStart hRejects hInv hQuiet hFound
  obtain ⟨hs, rfl⟩ := decoded_reread hTime hDecodes hRecord hDecode
  exact hEq.symm.unambiguous (g.reread_unambiguous hs)

/-- **One setting**: where every acknowledged event is found, all of them were
appended under the present setting. -/
theorem oneSetting_of_returnsAll (hTime : C.TimeTextReadsBack) (hDecodes : C.Lz4DecodesBack)
    (hStart : C.Lz4FramesStart) (hRejects : C.Lz4RejectsOthers) (hInv : Archived C h)
    (hQuiet : env.scanFault = none) {limit : Option Nat}
    (hAll : ReturnsAll C h env limit) : OneSetting h := by
  have hPlain := allUnambiguous_of_returnsAll hTime hDecodes hStart hRejects hInv hQuiet hAll
  intro config e he
  obtain ⟨f, record, -, hMem, hRecord, hKey⟩ := hInv.kept config e he
  obtain ⟨⟨x, hFound, hEq⟩, -⟩ := hAll config e he
  obtain ⟨config', g, r, hg, hr, hRecord', hDecode⟩ :=
    exists_source_of_getEvent hStart hRejects hInv hQuiet hFound
  -- the record that decodes to the event is the one under its key
  have hx : x.PartialEq g := decoded_partialEq hTime hDecodes hRecord' (hPlain config' g hg) hDecode
  have hSame : r = record := by
    apply record_unique hr hMem
    rw [hRecord'.1, hRecord.1, hKey, ← key_eq_of_partialEq hx, key_eq_of_partialEq hEq]
  rw [hSame] at hDecode
  exact setting_of_decodes hStart hRejects hRecord hDecode

section Readable

variable (hTime : C.TimeTextReadsBack) (hDecodes : C.Lz4DecodesBack) (hInv : Archived C h)
  (hSetting : OneSetting h) (hPlain : AllUnambiguous h)

include hTime hDecodes hInv hSetting hPlain

/-- Under one setting everything decodes. -/
theorem exists_decoded (env : CallEnv) :
    ∃ stored, DecodesTo C h.store env h.db.contents.toList stored := by
  have hAll : ∀ record ∈ h.db.contents.toList, ∃ e, IsRecord C h.store e record ∧
      KeepsKey e := by
    intro record hMem
    obtain ⟨config, e, he, hRecord⟩ := hInv.source record hMem
    exact ⟨e, isRecord_of_setting (hSetting config e he) hRecord,
      keepsKey_of_unambiguous (hPlain config e he)⟩
  generalize h.db.contents.toList = records at hAll
  induction records with
  | nil => exact ⟨[], .nil⟩
  | cons record records ih =>
      obtain ⟨⟨e, hRecord, hKept⟩, hRest⟩ := List.forall_mem_cons.mp hAll
      obtain ⟨stored, hStored⟩ := ih hRest
      exact ⟨_, .cons ⟨decodeItem_of_record hTime hDecodes env hRecord,
        hKept.trans hRecord.1.symm⟩ hStored⟩

/-- A decoded event is an acknowledged one. -/
theorem exists_acked_of_decoded {stored : List EventEnvelope}
    (hStored : DecodesTo C h.store env h.db.contents.toList stored) {x : EventEnvelope}
    (hx : x ∈ stored) : ∃ config e, (config, e) ∈ h.ackedEvents ∧ x.PartialEq e := by
  obtain ⟨record, hMem, hDecode⟩ := hStored.exists_record hx
  obtain ⟨config, e, he, hRecord⟩ := hInv.source record hMem
  exact ⟨config, e, he, decoded_partialEq hTime hDecodes
    (isRecord_of_setting (hSetting config e he) hRecord) (hPlain config e he) hDecode⟩

/-- Under an acknowledged event's key an event of its id is stored. -/
theorem exists_decoded_of_acked {stored : List EventEnvelope}
    (hStored : DecodesTo C h.store env h.db.contents.toList stored)
    {config : EventStoreConfig} {e : EventEnvelope} (he : (config, e) ∈ h.ackedEvents) :
    ∃ x ∈ stored, ∃ f, (config, f) ∈ h.ackedEvents ∧ x.PartialEq f ∧
      f.eventId = e.eventId := by
  obtain ⟨f, record, hf, hMem, hRecord, hKey⟩ := hInv.kept config e he
  obtain ⟨x, hx, hDecode⟩ := hStored.exists_event hMem
  exact ⟨x, hx, f, hf, decoded_partialEq hTime hDecodes
    (isRecord_of_setting (hSetting config f hf) hRecord) (hPlain config f hf) hDecode,
      eventId_eq_of_key hKey⟩

/-- Under one setting, with agreeing ids and room for every record, every event is
returned. -/
theorem returnsAll_of_oneSetting (hQuiet : env.scanFault = none) {limit : Option Nat}
    (hIds : IdsAgree h) (hRoom : h.db.contents.size ≤ limit.getD 1000) :
    ReturnsAll C h env limit := by
  obtain ⟨stored, hStored⟩ := exists_decoded hTime hDecodes hInv hSetting hPlain env
  intro config e he
  obtain ⟨x, hx, f, hf, hEq, hId⟩ :=
    exists_decoded_of_acked hTime hDecodes hInv hSetting hPlain hStored he
  have hFirst : (stored.find? fun e' => e'.eventId = e.eventId).isSome := by
    rw [List.find?_isSome]
    refine ⟨x, hx, ?_⟩
    rw [decide_eq_true_eq, ← hId, eventId_eq_of_key (key_eq_of_partialEq hEq)]
  constructor
  · obtain ⟨y, hy⟩ := Option.isSome_iff_exists.mp hFirst
    have hyId : y.eventId = e.eventId := by simpa using List.find?_some hy
    obtain ⟨config', g, hg, hyEq⟩ := exists_acked_of_decoded hTime hDecodes hInv hSetting hPlain
      hStored (List.mem_of_find?_eq_some hy)
    refine ⟨y, ?_, hyEq.trans (hIds config' g config e hg he ?_)⟩
    · rw [getEvent, RocksDb.iterator, hQuiet]
      exact (findEvent_eq hStored e.eventId).trans (congrArg Except.ok hy)
    · rw [← eventId_eq_of_key (key_eq_of_partialEq hyEq), hyId]
  · refine ⟨_, queryEvents_eq hQuiet hStored _, x, ?_,
      hEq.trans (hIds config f config e hf he hId)⟩
    show x ∈ pageOf (.unfiltered none limit) stored
    rw [pageOf_unfiltered, List.take_of_length_le]
    · exact hx
    · rw [← hStored.length_eq, Std.ExtTreeMap.length_toList]
      exact hRoom

/-- What lies beyond the limit of the query is not returned. -/
theorem room_of_returnsAll (hQuiet : env.scanFault = none) {limit : Option Nat}
    (hAll : ReturnsAll C h env limit) : h.db.contents.size ≤ limit.getD 1000 := by
  obtain ⟨stored, hStored⟩ := exists_decoded hTime hDecodes hInv hSetting hPlain env
  have hOrder := hStored.ordered
  rw [← Std.ExtTreeMap.length_toList, hStored.length_eq,
    ← OrderedScan.forall_mem_take_iff (nodup_of_ordered hOrder)]
  intro x hx
  obtain ⟨config, e, he, hEq⟩ :=
    exists_acked_of_decoded hTime hDecodes hInv hSetting hPlain hStored hx
  obtain ⟨-, result, hOk, y, hy, hyEq⟩ := hAll config e he
  cases (queryEvents_eq hQuiet hStored _).symm.trans hOk
  change y ∈ pageOf (.unfiltered none limit) stored at hy
  rw [pageOf_unfiltered] at hy
  have hSame : y = x := eq_of_key hOrder (List.mem_of_mem_take hy) hx
    (key_eq_of_partialEq (hyEq.trans hEq.symm))
  exact hSame ▸ hy

end Readable

end Exact

/-- **When reopening keeps the history readable**: every acknowledged event is
returned, by its id and by the unfiltered query, exactly when all of them were
appended under the present compression setting, no two different ones share an
id, all their instants are printed unambiguously, and the limit of the query leaves
room for every record. -/
theorem reopening_readable_iff (C : Crates) (hTime : C.TimeTextReadsBack)
    (hDecodes : C.Lz4DecodesBack) (hStart : C.Lz4FramesStart) (hRejects : C.Lz4RejectsOthers)
    (h : ReopenHistory) (hReach : Reopens C h) (env : CallEnv) (hQuiet : env.scanFault = none)
    (limit : Option Nat) :
    ReturnsAll C h env limit ↔ OneSetting h ∧ IdsAgree h ∧ AllUnambiguous h ∧
      h.db.contents.size ≤ limit.getD 1000 := by
  have hInv := hReach.archived
  constructor
  · intro hAll
    have hSetting := oneSetting_of_returnsAll hTime hDecodes hStart hRejects hInv hQuiet hAll
    have hPlain := allUnambiguous_of_returnsAll hTime hDecodes hStart hRejects hInv hQuiet hAll
    refine ⟨hSetting, ?_, hPlain,
      room_of_returnsAll hTime hDecodes hInv hSetting hPlain hQuiet hAll⟩
    intro config e config' e' he he' hId
    obtain ⟨⟨x, hx, hEq⟩, -⟩ := hAll config e he
    obtain ⟨⟨x', hx', hEq'⟩, -⟩ := hAll config' e' he'
    rw [← hId, hx] at hx'
    cases hx'
    exact hEq.symm.trans hEq'
  · rintro ⟨hSetting, hIds, hPlain, hRoom⟩
    exact returnsAll_of_oneSetting hTime hDecodes hInv hSetting hPlain hQuiet hIds hRoom

/-- A history of openings with one append each, and a last opening. -/
theorem exists_openings (openings : List (EventStoreConfig × EventEnvelope))
    (hKeys : (openings.map fun opening => generateEventKey opening.2).Nodup)
    (config : EventStoreConfig) :
    ∃ h : ReopenHistory, Reopens Crates.sample h ∧ h.config = config ∧
      h.ackedEvents = openings.reverse ∧ h.db.contents.size ≤ openings.length := by
  induction openings using List.reverseRecOn generalizing config with
  | nil => exact ⟨.created config, ⟨config, .refl⟩, rfl, rfl, Nat.le_refl 0⟩
  | append_singleton openings opening ih =>
      obtain ⟨opened, e⟩ := opening
      rw [List.map_append] at hKeys
      obtain ⟨h, hReach, hPresent, hAcked, hSize⟩ := ih hKeys.of_append_left opened
      obtain ⟨db, present, acked⟩ := h
      dsimp only at hPresent
      subst hPresent
      -- the records so far have the keys of other openings
      have hFree : db.contents[generateEventKey e]? = none := by
        by_contra hTaken
        obtain ⟨value, hValue⟩ := Option.ne_none_iff_exists'.mp hTaken
        obtain ⟨config', f, hf, hRecord⟩ := hReach.archived.source (generateEventKey e, value)
          (Std.ExtTreeMap.mem_toList_iff_getElem?_eq_some.mpr hValue)
        rw [hAcked, List.mem_reverse] at hf
        exact List.disjoint_of_nodup_append hKeys
          (List.mem_map.mpr ⟨_, hf, hRecord.1.symm⟩) List.mem_cons_self
      obtain ⟨batch, hAccepts, hExec⟩ := perform_accepted Crates.sample (new present) .quiet
        Crates.sample_lz4Encodes (.appendEvent e) db (List.cons_ne_nil e [])
        (fun x hx => by rw [List.mem_singleton.mp hx]; exact ⟨rfl, hFree⟩) rfl
      obtain ⟨first, hFirst⟩ := hReach
      have hCalled := hFirst.tail (.called (.acknowledged trivial hExec))
      refine ⟨_, ⟨first, hCalled.tail (.reopened _ config)⟩, rfl, ?_, ?_⟩
      · rw [List.reverse_append]
        show (present, e) :: (ReopenHistory.mk db present acked).ackedEvents = _
        rw [hAcked]
        rfl
      · have hGrown := size_applyBatch_le db.contents batch
        rw [← hAccepts.records.length_eq] at hGrown
        rw [RocksDb.contents_opened, RocksDb.contents_write, List.length_append]
        exact Nat.le_trans hGrown (Nat.add_le_add_right hSize 1)

/-- Two openings under different settings that both compress, and a third one that reads what
was appended under them. -/
theorem reopening_readable_test :
    ∃ h : ReopenHistory, Reopens Crates.sample h ∧ h.config = .default ∧
      h.ackedEvents =
        [(EventStoreConfig.default.highDurability, later),
          (EventStoreConfig.default.highThroughput, first)] ∧
      ReturnsAll Crates.sample h .quiet none := by
  obtain ⟨h, hReach, hConfig, hAcked, hSize⟩ := exists_openings
    [(EventStoreConfig.default.highThroughput, first),
      (EventStoreConfig.default.highDurability, later)] (by decide) .default
  have hIff := reopening_readable_iff Crates.sample Crates.sample_timeTextReadsBack
    Crates.sample_lz4DecodesBack Crates.sample_lz4FramesStart Crates.sample_lz4RejectsOthers
    h hReach .quiet rfl none
  have hEvents : ∀ config e, (config, e) ∈ h.ackedEvents →
      config.enableCompression = true ∧ e ∈ [first, later] := by
    intro config e he
    rw [hAcked] at he
    rcases List.mem_pair.mp he with hEq | hEq
    · cases hEq
      exact ⟨rfl, List.mem_cons_of_mem _ List.mem_cons_self⟩
    · cases hEq
      exact ⟨rfl, List.mem_cons_self⟩
  refine ⟨h, hReach, hConfig, hAcked, hIff.mpr ⟨?_, ?_, ?_, ?_⟩⟩
  · intro config e he
    rw [hConfig, (hEvents config e he).1]
    rfl
  · intro config e config' e' he he' hId
    have hIds : ([first, later].map EventEnvelope.eventId).Nodup := by decide
    rw [List.inj_on_of_nodup_map hIds (hEvents config e he).2 (hEvents config' e' he').2 hId]
    exact (e'.rehash_partialEq fun _ => .arrival).symm.trans (e'.rehash_partialEq _)
  · intro config e he
    have hPlain : ∀ x ∈ [first, later], x.Unambiguous := by decide
    exact hPlain e (hEvents config e he).2
  · exact Nat.le_trans hSize (by decide)

/-- One event, appended under the development settings and looked for under the
default ones. -/
theorem reopening_unreadable :
    ¬ ∀ h : ReopenHistory, Reopens Crates.sample h →
      ReturnsAll Crates.sample h .quiet none := by
  intro hAlways
  obtain ⟨h, hReach, hConfig, hAcked, -⟩ := exists_openings
    [(EventStoreConfig.default.development, first)] (List.nodup_singleton _) .default
  have hSetting := oneSetting_of_returnsAll Crates.sample_timeTextReadsBack
    Crates.sample_lz4DecodesBack Crates.sample_lz4FramesStart Crates.sample_lz4RejectsOthers
    hReach.archived rfl (hAlways h hReach)
  have hSame := hSetting _ first (by rw [hAcked]; exact List.mem_cons_self)
  rw [hConfig] at hSame
  cases hSame

end LedgerFS.EventStore
