import LedgerFS.Core.Hash
import LedgerFS.EventStore.Bincode

/-!
# Event serialization (`serialization.rs`)

`EventSerializer` writes an envelope with bincode and, when configured to,
wraps the bytes in an LZ4 frame.  Reading back yields an equal envelope for
either setting (`storageFormat_lossless`), as far as the texts of instants keep
these apart; what it need not keep is the order in which tag maps iterate, since
every decoded map is a new `HashMap` instance with its own seed.  With chrono's
texts a reader gets the envelope `reread` (`deserialize_serialize`).

The record keys are eight big-endian bytes of the timestamp's nanosecond count
followed by the sixteen bytes of the event id.
-/

namespace LedgerFS.EventStore

open LedgerFS.Core
open LedgerFS.Library.ByteOrder

/-- Byte strings: the keys and values of the database. -/
abbrev Bytes : Type := List UInt8

/-- Errors that can occur during serialization/deserialization. -/
inductive SerializationError
  | serializationFailed (kind : Bincode.ErrorKind)
  | compressionFailed (message : String)
  | decompressionFailed (message : String)
  | invalidFormatVersion (expected actual : UInt8)
deriving DecidableEq

/-- `to_string`, given the texts of bincode's errors. -/
def SerializationError.toText (kindText : Bincode.ErrorKind → String) :
    SerializationError → String
  | .serializationFailed kind => "Serialization failed: " ++ kindText kind
  | .compressionFailed message => "Compression failed: " ++ message
  | .decompressionFailed message => "Decompression failed: " ++ message
  | .invalidFormatVersion expected actual =>
      "Invalid format version: expected " ++ toString expected.toNat ++ ", got " ++
        toString actual.toNat

/-- Event serializer with configurable compression. -/
structure EventSerializer where
  useCompression : Bool
deriving DecidableEq

namespace EventSerializer

variable (C : Crates)

def compress (data : Bytes) : Except SerializationError Bytes :=
  (C.lz4Compress data).mapError .compressionFailed

def decompress (data : Bytes) : Except SerializationError Bytes :=
  (C.lz4Decompress data).mapError .decompressionFailed

def serialize (s : EventSerializer) (envelope : EventEnvelope) :
    Except SerializationError Bytes := do
  let envelopeBytes ← (Bincode.serialize C envelope).mapError .serializationFailed
  if s.useCompression then compress C envelopeBytes else .ok envelopeBytes

/-- `hs` seeds the tag maps the decoder builds. -/
def deserialize (s : EventSerializer) (hs : Hashers) (data : Bytes) :
    Except SerializationError EventEnvelope := do
  let envelopeBytes ← if s.useCompression then decompress C data else .ok data
  let envelope ← (Bincode.deserialize C envelopeBytes).mapError .serializationFailed
  pure (envelope.rehash hs)

variable {C}

theorem serialize_eq (s : EventSerializer) (e : EventEnvelope) :
    s.serialize C e =
      if s.useCompression then compress C ((Bincode.eventEnvelope C).encode e)
      else .ok ((Bincode.eventEnvelope C).encode e) := rfl

/-- Without a failing compressor nothing fails. -/
theorem serialize_ok (hEncodes : C.Lz4Encodes) (s : EventSerializer)
    (e : EventEnvelope) : ∃ data, s.serialize C e = .ok data := by
  rw [serialize_eq]
  split
  · obtain ⟨frame, hFrame⟩ := hEncodes ((Bincode.eventEnvelope C).encode e)
    exact ⟨frame, by rw [compress, hFrame]; rfl⟩
  · exact ⟨_, rfl⟩

/-- Only the tag maps depend on the reader's seeds. -/
theorem deserialize_eq_map (s : EventSerializer) (data : Bytes) :
    ∃ decoded : Except SerializationError EventEnvelope, ∀ hs,
      s.deserialize C hs data = decoded.map (EventEnvelope.rehash hs) := by
  let bytes := if s.useCompression then decompress C data else .ok data
  have hBytes (hs : Hashers) : s.deserialize C hs data =
      bytes >>= fun b => (Bincode.deserialize C b).mapError .serializationFailed >>= fun e =>
        pure (e.rehash hs) := by
    simp only [deserialize, bytes]
    split <;> rfl
  cases hRead : bytes with
  | error error => exact ⟨.error error, fun hs => by rw [hBytes, hRead]; rfl⟩
  | ok b =>
      cases hDecode : Bincode.deserialize C b with
      | error kind =>
          refine ⟨.error (.serializationFailed kind), fun hs => ?_⟩
          rw [hBytes, hRead]
          show (Bincode.deserialize C b).mapError _ >>= _ = _
          rw [hDecode]
          rfl
      | ok e =>
          refine ⟨.ok e, fun hs => ?_⟩
          rw [hBytes, hRead]
          show (Bincode.deserialize C b).mapError _ >>= _ = _
          rw [hDecode]
          rfl

/-- **Round trip**: what was written decodes to the envelope, its instants as
their texts are read and its tag maps built under the reader's seeds. -/
theorem deserialize_serialize_as {back : DateTime → DateTime} (hTime : C.TimeTextReadsAs back)
    (hDecodes : C.Lz4DecodesBack) {s : EventSerializer} {e : EventEnvelope}
    {data : Bytes} (h : s.serialize C e = .ok data) (hs : Hashers) :
    s.deserialize C hs data = .ok ((e.mapInstants back).rehash hs) := by
  have hBack := Bincode.deserialize_encode hTime e
  rw [serialize_eq] at h
  by_cases hComp : s.useCompression = true
  · rw [if_pos hComp] at h
    have hFrame : C.lz4Compress ((Bincode.eventEnvelope C).encode e) = .ok data := by
      unfold compress at h
      cases hLz4 : C.lz4Compress ((Bincode.eventEnvelope C).encode e) with
      | error m =>
          rw [hLz4] at h
          cases h
      | ok frame =>
          rw [hLz4] at h
          cases h
          rfl
    simp only [deserialize, if_pos hComp, decompress, hDecodes _ _ hFrame, Except.mapError,
      bind, Except.bind, hBack]
    rfl
  · rw [if_neg hComp] at h
    cases h
    simp only [deserialize, if_neg hComp, Except.mapError, bind, Except.bind, hBack]
    rfl

/-- With chrono's texts a reader gets the envelope reread. -/
theorem deserialize_serialize (hTime : C.TimeTextReadsBack) (hDecodes : C.Lz4DecodesBack)
    {s : EventSerializer} {e : EventEnvelope} {data : Bytes} (h : s.serialize C e = .ok data)
    (hs : Hashers) : s.deserialize C hs data = .ok (e.reread hs) :=
  deserialize_serialize_as hTime.parses hDecodes h hs

end EventSerializer

/-- **Lossless storage format**: for either compression setting an envelope is
written without error and read back equal in every field. -/
theorem storageFormat_lossless (C : Crates) (hTime : C.TimeTextParsesBack)
    (hEncodes : C.Lz4Encodes) (hDecodes : C.Lz4DecodesBack) (useCompression : Bool)
    (e : EventEnvelope) (hs : Hashers) :
    ∃ data e', (EventSerializer.mk useCompression).serialize C e = .ok data ∧
      (EventSerializer.mk useCompression).deserialize C hs data = .ok e' ∧
        e'.PartialEq e := by
  obtain ⟨data, hData⟩ := EventSerializer.serialize_ok hEncodes ⟨useCompression⟩ e
  have hParses : C.TimeTextReadsAs id := hTime
  have hRead := EventSerializer.deserialize_serialize_as hParses hDecodes hData hs
  rw [EventEnvelope.mapInstants_id] at hRead
  exact ⟨data, e.rehash hs, hData, hRead, e.rehash_partialEq hs⟩

/-- A test envelope through the compressed format. -/
theorem storageFormat_lossless_test :
    let e := createTestEnvelope ⟨Uuid.fromU128 1⟩ ⟨Uuid.fromU128 2⟩ DateTime.epoch
    ∃ data e', (EventSerializer.mk true).serialize Crates.exact e = .ok data ∧
      (EventSerializer.mk true).deserialize Crates.exact (fun _ => .arrival) data = .ok e' ∧
        e'.PartialEq e :=
  storageFormat_lossless Crates.exact Crates.exact_timeTextParsesBack
    Crates.exact_lz4Encodes Crates.exact_lz4DecodesBack true _ _

/-! ## Hashes of stored envelopes -/

/-- **When the hash is canonical**: equal envelopes have one hash exactly when
their tag maps iterate alike, and an envelope has the hash of all its equals,
or of all its reads from the store, exactly when no tag map has two entries. -/
theorem calculateHash_canonical_iff (C : Crates) (hTime : C.TimeTextReadsBack)
    (hDecodes : C.Lz4DecodesBack) :
    (∀ e f : EventEnvelope, e.PartialEq f →
      (EventEnvelope.SameHash C e f ↔ e.tagMaps = f.tagMaps)) ∧
    (∀ e : EventEnvelope,
      (∀ f, f.PartialEq e → EventEnvelope.SameHash C f e) ↔ e.AtMostOneTagEach) ∧
    ∀ (s : EventSerializer) (e : EventEnvelope) (data : Bytes),
      s.serialize C e = .ok data →
        (∀ hs e', s.deserialize C hs data = .ok e' →
          (EventEnvelope.SameHash C e' e ↔ e'.tagMaps = e.tagMaps)) ∧
        ((∀ hs e', s.deserialize C hs data = .ok e' → EventEnvelope.SameHash C e' e) ↔
          e.AtMostOneTagEach) := by
  have hPair : ∀ e f : EventEnvelope, e.PartialEq f →
      (EventEnvelope.SameHash C e f ↔ e.tagMaps = f.tagMaps) := fun e f h =>
    EventEnvelope.sameHash_iff_tagMaps C h
  refine ⟨hPair, ?_, ?_⟩
  · intro e
    constructor
    · intro hAll
      -- the instance that iterates backwards is one of the equals
      apply EventEnvelope.atMostOneTagEach_of_reversed C e
      exact hAll _ (e.rehash_partialEq _)
    · intro hTags f hEq
      exact (hPair f e hEq).mpr (hTags.tagMaps_eq hEq)
  · intro s e data hData
    have hRead : ∀ hs, s.deserialize C hs data = .ok (e.reread hs) :=
      EventSerializer.deserialize_serialize hTime hDecodes hData
    have hReread (hs : Hashers) : EventEnvelope.SameHash C (e.reread hs) e ↔
        (e.rehash hs).tagMaps = e.tagMaps := by
      rw [EventEnvelope.sameHash_reread_iff hTime]
      exact hPair _ _ (e.rehash_partialEq hs)
    refine ⟨?_, ?_, ?_⟩
    · intro hs e' hOk
      cases (hRead hs).symm.trans hOk
      rw [hReread, EventEnvelope.tagMaps_reread]
    · intro hAll
      apply EventEnvelope.atMostOneTagEach_of_reversed C e
      exact (EventEnvelope.sameHash_reread_iff hTime _ e).mp (hAll _ _ (hRead _))
    · intro hTags hs e' hOk
      cases (hRead hs).symm.trans hOk
      exact (hReread hs).mpr (hTags.tagMaps_eq (e.rehash_partialEq hs))

/-- A payment with tags. -/
def taggedPayment (tags : Tags) : EventEnvelope :=
  let e := createTestEnvelope ⟨Uuid.fromU128 1⟩ ⟨Uuid.fromU128 2⟩ DateTime.epoch
  { e with
    eventData := .transactionProcessed
      { transactionId := ⟨Uuid.fromU128 3⟩
        transactionType := .credit
        fromAccount := none
        toAccount := some ⟨Uuid.fromU128 1⟩
        amount := ⟨1000⟩
        currency := Currency.usd
        metadata :=
          { reference := none
            description := none
            tags := tags
            regulatoryFlags := RustVec.empty }
        processedAt := DateTime.epoch } }

def oneTag : Tags := ⟨[(⟨"region", by decide⟩, ⟨"EU", by decide⟩)], by decide, by decide⟩

def twoTags : Tags :=
  ⟨[(⟨"region", by decide⟩, ⟨"EU", by decide⟩), (⟨"channel", by decide⟩, ⟨"web", by decide⟩)],
    by decide, by decide⟩

/-- The payment has another text when its map iterates the other way. -/
theorem calculateHash_two_tags :
    ¬ ∀ e f : EventEnvelope, e.PartialEq f →
      EventEnvelope.SameHash Crates.sample e f := by
  intro hAlways
  have hEq : ((taggedPayment twoTags).rehash fun _ => .reversed).PartialEq
      (taggedPayment twoTags) := EventEnvelope.rehash_partialEq _ _
  have hFew := EventEnvelope.atMostOneTagEach_of_reversed Crates.sample (taggedPayment twoTags)
    (hAlways _ _ hEq)
  exact absurd (hFew _ List.mem_cons_self) (by decide)

/-- With one tag all equals have one hash; with two a reader may get another one. -/
theorem calculateHash_canonical_test :
    (∀ f : EventEnvelope, f.PartialEq (taggedPayment oneTag) →
      EventEnvelope.SameHash Crates.sample f (taggedPayment oneTag)) ∧
    ∃ data, (EventSerializer.mk true).serialize Crates.sample (taggedPayment twoTags) = .ok data ∧
      ∃ hs e', (EventSerializer.mk true).deserialize Crates.sample hs data = .ok e' ∧
        ¬ EventEnvelope.SameHash Crates.sample e' (taggedPayment twoTags) := by
  obtain ⟨-, hEquals, hStored⟩ := calculateHash_canonical_iff Crates.sample
    Crates.sample_timeTextReadsBack Crates.sample_lz4DecodesBack
  constructor
  · rw [hEquals]
    exact List.forall_mem_singleton.mpr (show oneTag.len ≤ 1 by decide)
  · obtain ⟨data, hData⟩ := EventSerializer.serialize_ok Crates.sample_lz4Encodes ⟨true⟩
      (taggedPayment twoTags)
    have hMany : ¬ (taggedPayment twoTags).AtMostOneTagEach := by
      intro hFew
      exact absurd (hFew _ List.mem_cons_self) (by decide)
    rw [← (hStored ⟨true⟩ _ data hData).2] at hMany
    push Not at hMany
    obtain ⟨hs, e', hRead, hOther⟩ := hMany
    exact ⟨data, hData, hs, e', hRead, hOther⟩

/-! ## Record keys -/

/-- `timestamp_nanos_opt().unwrap_or(0) as u64`. -/
def timestampNanos (t : DateTime) : Nat :=
  (t.timestampNanosOpt.getD 0 % 2 ^ 64).toNat

/-- Timestamp (8 bytes, big-endian) and event id (16 bytes). -/
def generateEventKey (envelope : EventEnvelope) : Bytes :=
  toBE 8 (timestampNanos envelope.timestamp) ++ envelope.eventId.uuid.bytes

/-- Where a scan from an instant starts. -/
def generateTimeKeyPrefix (timestamp : DateTime) : Bytes :=
  toBE 8 (timestampNanos timestamp)

theorem timestampNanos_lt (t : DateTime) : timestampNanos t < 2 ^ 64 := by
  unfold timestampNanos
  omega

end LedgerFS.EventStore
