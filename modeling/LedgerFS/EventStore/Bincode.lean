import LedgerFS.Core.Crates
import LedgerFS.Core.Events
import LedgerFS.Library.WireFormat

/-!
# The stored form of an envelope

`bincode` 1.3 with its default rules, applied to the derived field order:
little-endian fixed-width integers, eight-byte length prefixes before strings,
sequences and maps, a one-byte option tag, a four-byte variant index, structure
fields one after the other.  A `Uuid` is a byte string of its own, an instant
is its text.  Decoding starts at the front and ignores what follows.

Every definition is one format of `Library.WireFormat`, and its `_lawful`
theorem is the chain of the theorems of its fields.  What holds an instant has a
`_readsAs` theorem instead, since the instant is read back from its text.
-/

namespace LedgerFS.EventStore.Bincode

open LedgerFS.Core
open LedgerFS.Library.ByteOrder
open LedgerFS.Library.WireFormat

/-- `bincode::ErrorKind`, the kinds decoding an envelope meets. -/
inductive ErrorKind
  | io
  | invalidUtf8Encoding
  | invalidTagEncoding
  | custom
deriving DecidableEq

abbrev Fmt (α : Type) : Type := Format ErrorKind α

/-! ## Primitive types -/

def u64 : Fmt UInt64 where
  encode n := toLE 8 n.toNat
  decode := word .io 8 >>= fun n => pure (UInt64.ofNat n)

theorem u64_lawful : u64.Lawful := by
  intro n
  have h := (word_reads ErrorKind.io 8 n.toNat n.toNat_lt).map (f := UInt64.ofNat)
  rwa [UInt64.ofNat_toNat] at h

def i64 : Fmt Int64 := u64.wrap UInt64.toInt64 Int64.toUInt64

theorem i64_lawful : i64.Lawful := u64_lawful.wrap fun _ => rfl

/-- A counted byte string: the length and the bytes themselves. -/
def byteBuf : Decoder ErrorKind (List UInt8) :=
  word .io 8 >>= fun n => takeBytes .io n

theorem byteBuf_reads (bytes : List UInt8) (h : bytes.length < 2 ^ 64) :
    Reads byteBuf (toLE 8 bytes.length ++ bytes) bytes :=
  (word_reads _ 8 _ h).bind (takeBytes_reads _ bytes)

/-- The bytes of a string. -/
def utf8 (s : RustString) : List UInt8 := s.text.toByteArray.data.toList

/-- `String::from_utf8`. -/
def fromUtf8 (bytes : List UInt8) : Option RustString :=
  (String.fromUTF8? ⟨bytes.toArray⟩).bind fun text =>
    if h : text.utf8ByteSize < 2 ^ 63 then some ⟨text, h⟩ else none

@[simp] theorem length_utf8 (s : RustString) : (utf8 s).length = s.text.utf8ByteSize := rfl

@[simp] theorem fromUtf8_utf8 (s : RustString) : fromUtf8 (utf8 s) = some s := by
  have hText : String.fromUTF8? ⟨(utf8 s).toArray⟩ = some s.text := by
    rw [utf8, Array.toArray_toList]
    simp [String.fromUTF8?, String.fromUTF8, s.text.isValidUTF8]
  rw [fromUtf8, hText, Option.bind_some, dif_pos s.fits]

def string : Fmt RustString where
  encode s := toLE 8 (utf8 s).length ++ utf8 s
  decode := checked byteBuf fromUtf8 .invalidUtf8Encoding

theorem string_lawful : string.Lawful := by
  intro s
  have hFits : (utf8 s).length < 2 ^ 64 := by
    have := s.fits
    rw [length_utf8]
    omega
  exact (byteBuf_reads (utf8 s) hFits).checked (fromUtf8_utf8 s)

/-- `Option<T>`. -/
def opt {α : Type} (fmt : Fmt α) : Fmt (Option α) :=
  option .io .invalidTagEncoding fmt

theorem opt_lawful {α : Type} {fmt : Fmt α} (h : fmt.Lawful) : (opt fmt).Lawful :=
  option_lawful _ _ h

/-- A counted sequence. -/
def items {α : Type} (fmt : Fmt α) : Decoder ErrorKind (List α) :=
  word .io 8 >>= fun n => replicateM fmt.decode n

theorem items_reads {α : Type} {fmt : Fmt α} (h : fmt.Lawful) (as : List α)
    (hFits : as.length < 2 ^ 63) :
    Reads (items fmt) (toLE 8 as.length ++ as.flatMap fmt.encode) as :=
  (word_reads _ 8 _ (by omega)).bind (h.replicateM_reads as)

/-- `Vec<T>`. -/
def vec {α : Type} (fmt : Fmt α) : Fmt (RustVec α) where
  encode v := toLE 8 v.items.length ++ v.items.flatMap fmt.encode
  decode := checked (items fmt)
    (fun as => if h : as.length < 2 ^ 63 then some ⟨as, h⟩ else none) .custom

theorem vec_lawful {α : Type} {fmt : Fmt α} (h : fmt.Lawful) : (vec fmt).Lawful :=
  fun v => (items_reads h v.items v.fits).checked (dif_pos v.fits)

/-- `HashMap<K, V>`: written in iteration order, read back entry by entry. -/
def hashMap {κ υ : Type} [DecidableEq κ] (key : Fmt κ) (value : Fmt υ) :
    Fmt (HashMap κ υ) where
  encode m := toLE 8 m.entries.length ++ m.entries.flatMap (pair key value).encode
  decode := checked (items (pair key value))
    (fun es => if h : es.length < 2 ^ 63 then some (HashMap.ofEntries es h) else none)
    .custom

theorem hashMap_lawful {κ υ : Type} [DecidableEq κ] {key : Fmt κ} {value : Fmt υ}
    (hKey : key.Lawful) (hValue : value.Lawful) : (hashMap key value).Lawful := by
  intro m
  refine (items_reads (pair_lawful hKey hValue) m.entries m.fits).checked ?_
  rw [dif_pos m.fits, HashMap.ofEntries_entries]

/-- `Uuid` in a binary format: a byte string of sixteen bytes. -/
def uuid : Fmt Uuid where
  encode u := toLE 8 u.bytes.length ++ u.bytes
  decode := checked byteBuf
    (fun bytes => if h : bytes.length = 16 then some ⟨bytes, h⟩ else none) .custom

theorem uuid_lawful : uuid.Lawful := fun u =>
  (byteBuf_reads u.bytes (by rw [u.size]; decide)).checked (dif_pos u.size)

section Instants

variable (C : Crates)

/-- `DateTime<Utc>`: its text. -/
def dateTime : Fmt DateTime where
  encode t := string.encode (C.formatDateTime t)
  decode := checked string.decode C.parseDateTime .custom

variable {C} in
theorem dateTime_readsAs {back : DateTime → DateTime} (hTime : C.TimeTextReadsAs back) :
    (dateTime C).ReadsAs back :=
  fun t => (string_lawful (C.formatDateTime t)).checked (hTime t)

end Instants

/-! ## Types (`types.rs`) -/

def accountId : Fmt AccountId := uuid.wrap AccountId.mk AccountId.uuid

def transactionId : Fmt TransactionId := uuid.wrap TransactionId.mk TransactionId.uuid

def eventId : Fmt EventId := uuid.wrap EventId.mk EventId.uuid

def amount : Fmt Amount := i64.wrap Amount.mk Amount.value

def currency : Fmt Currency := string.wrap Currency.mk Currency.code

theorem accountId_lawful : accountId.Lawful := uuid_lawful.wrap fun _ => rfl

theorem transactionId_lawful : transactionId.Lawful := uuid_lawful.wrap fun _ => rfl

theorem eventId_lawful : eventId.Lawful := uuid_lawful.wrap fun _ => rfl

theorem amount_lawful : amount.Lawful := i64_lawful.wrap fun _ => rfl

theorem currency_lawful : currency.Lawful := string_lawful.wrap fun _ => rfl

/-- A unit-variant enumeration: the four-byte index of the variant. -/
def variant {α : Type} (index : α → Nat) (ofIndex : Nat → Option α) : Fmt α :=
  enumeration .io .custom 4 index ofIndex

def accountStatus : Fmt AccountStatus :=
  variant
    (fun | .active => 0 | .suspended => 1 | .closed => 2)
    (fun | 0 => some .active | 1 => some .suspended | 2 => some .closed | _ => none)

theorem accountStatus_lawful : accountStatus.Lawful :=
  enumeration_lawful _ _ 4 (fun a => by cases a <;> decide) (fun a => by cases a <;> rfl)

def accountType : Fmt AccountType :=
  variant
    (fun | .customer => 0 | .operational => 1 | .safeguarding => 2 | .nostro => 3
         | .vostro => 4)
    (fun | 0 => some .customer | 1 => some .operational | 2 => some .safeguarding
         | 3 => some .nostro | 4 => some .vostro | _ => none)

theorem accountType_lawful : accountType.Lawful :=
  enumeration_lawful _ _ 4 (fun a => by cases a <;> decide) (fun a => by cases a <;> rfl)

def transactionType : Fmt TransactionType :=
  variant
    (fun | .debit => 0 | .credit => 1 | .transfer => 2)
    (fun | 0 => some .debit | 1 => some .credit | 2 => some .transfer | _ => none)

theorem transactionType_lawful : transactionType.Lawful :=
  enumeration_lawful _ _ 4 (fun a => by cases a <;> decide) (fun a => by cases a <;> rfl)

def tags : Fmt Tags := hashMap string string

theorem tags_lawful : tags.Lawful := hashMap_lawful string_lawful string_lawful

def accountMetadata : Fmt AccountMetadata where
  encode m :=
    accountType.encode m.accountType ++ (currency.encode m.currency ++
      (tags.encode m.tags ++ (vec string).encode m.regulatoryFlags))
  decode := do
    let accountType ← accountType.decode
    let currency ← currency.decode
    let tags ← tags.decode
    let regulatoryFlags ← (vec string).decode
    pure { accountType, currency, tags, regulatoryFlags }

theorem accountMetadata_lawful : accountMetadata.Lawful := fun m =>
  (accountType_lawful m.accountType).bind <|
    (currency_lawful m.currency).bind <|
      (tags_lawful m.tags).bind (vec_lawful string_lawful m.regulatoryFlags).map

def transactionMetadata : Fmt TransactionMetadata where
  encode m :=
    (opt string).encode m.reference ++ ((opt string).encode m.description ++
      (tags.encode m.tags ++ (vec string).encode m.regulatoryFlags))
  decode := do
    let reference ← (opt string).decode
    let description ← (opt string).decode
    let tags ← tags.decode
    let regulatoryFlags ← (vec string).decode
    pure { reference, description, tags, regulatoryFlags }

theorem transactionMetadata_lawful : transactionMetadata.Lawful := fun m =>
  (opt_lawful string_lawful m.reference).bind <|
    (opt_lawful string_lawful m.description).bind <|
      (tags_lawful m.tags).bind (vec_lawful string_lawful m.regulatoryFlags).map

/-! ## Events (`events.rs`) -/

section Events

variable (C : Crates)

def ledgerDigest : Fmt LedgerDigest where
  encode d :=
    string.encode d.rootHash ++ (u64.encode d.blockHeight ++
      ((dateTime C).encode d.timestamp ++ u64.encode d.transactionCount))
  decode := do
    let rootHash ← string.decode
    let blockHeight ← u64.decode
    let timestamp ← (dateTime C).decode
    let transactionCount ← u64.decode
    pure { rootHash, blockHeight, timestamp, transactionCount }

def accountCreatedEvent : Fmt AccountCreatedEvent where
  encode e :=
    accountId.encode e.accountId ++ (accountType.encode e.accountType ++
      (currency.encode e.currency ++ (amount.encode e.initialBalance ++
        (accountMetadata.encode e.metadata ++ (dateTime C).encode e.createdAt))))
  decode := do
    let accountId ← accountId.decode
    let accountType ← accountType.decode
    let currency ← currency.decode
    let initialBalance ← amount.decode
    let metadata ← accountMetadata.decode
    let createdAt ← (dateTime C).decode
    pure { accountId, accountType, currency, initialBalance, metadata, createdAt }

def accountStatusChangedEvent : Fmt AccountStatusChangedEvent where
  encode e :=
    accountId.encode e.accountId ++ (accountStatus.encode e.oldStatus ++
      (accountStatus.encode e.newStatus ++ ((opt string).encode e.reason ++
        (dateTime C).encode e.changedAt)))
  decode := do
    let accountId ← accountId.decode
    let oldStatus ← accountStatus.decode
    let newStatus ← accountStatus.decode
    let reason ← (opt string).decode
    let changedAt ← (dateTime C).decode
    pure { accountId, oldStatus, newStatus, reason, changedAt }

def accountMetadataUpdatedEvent : Fmt AccountMetadataUpdatedEvent where
  encode e :=
    accountId.encode e.accountId ++ (accountMetadata.encode e.oldMetadata ++
      (accountMetadata.encode e.newMetadata ++ (dateTime C).encode e.updatedAt))
  decode := do
    let accountId ← accountId.decode
    let oldMetadata ← accountMetadata.decode
    let newMetadata ← accountMetadata.decode
    let updatedAt ← (dateTime C).decode
    pure { accountId, oldMetadata, newMetadata, updatedAt }

def transactionProcessedEvent : Fmt TransactionProcessedEvent where
  encode e :=
    transactionId.encode e.transactionId ++ (transactionType.encode e.transactionType ++
      ((opt accountId).encode e.fromAccount ++ ((opt accountId).encode e.toAccount ++
        (amount.encode e.amount ++ (currency.encode e.currency ++
          (transactionMetadata.encode e.metadata ++ (dateTime C).encode e.processedAt))))))
  decode := do
    let transactionId ← transactionId.decode
    let transactionType ← transactionType.decode
    let fromAccount ← (opt accountId).decode
    let toAccount ← (opt accountId).decode
    let amount ← amount.decode
    let currency ← currency.decode
    let metadata ← transactionMetadata.decode
    let processedAt ← (dateTime C).decode
    pure
      { transactionId, transactionType, fromAccount, toAccount, amount, currency,
        metadata, processedAt }

def balanceUpdatedEvent : Fmt BalanceUpdatedEvent where
  encode e :=
    accountId.encode e.accountId ++ (amount.encode e.oldBalance ++
      (amount.encode e.newBalance ++ (currency.encode e.currency ++
        ((opt transactionId).encode e.transactionId ++ (dateTime C).encode e.updatedAt))))
  decode := do
    let accountId ← accountId.decode
    let oldBalance ← amount.decode
    let newBalance ← amount.decode
    let currency ← currency.decode
    let transactionId ← (opt transactionId).decode
    let updatedAt ← (dateTime C).decode
    pure { accountId, oldBalance, newBalance, currency, transactionId, updatedAt }

def merkleRootGeneratedEvent : Fmt MerkleRootGeneratedEvent where
  encode e :=
    u64.encode e.blockHeight ++ (string.encode e.rootHash ++
      (u64.encode e.transactionCount ++ ((opt string).encode e.previousRootHash ++
        (dateTime C).encode e.generatedAt)))
  decode := do
    let blockHeight ← u64.decode
    let rootHash ← string.decode
    let transactionCount ← u64.decode
    let previousRootHash ← (opt string).decode
    let generatedAt ← (dateTime C).decode
    pure { blockHeight, rootHash, transactionCount, previousRootHash, generatedAt }

def digestPublishedEvent : Fmt DigestPublishedEvent where
  encode e :=
    (ledgerDigest C).encode e.digest ++ (string.encode e.storageLocation ++
      (dateTime C).encode e.publishedAt)
  decode := do
    let digest ← (ledgerDigest C).decode
    let storageLocation ← string.decode
    let publishedAt ← (dateTime C).decode
    pure { digest, storageLocation, publishedAt }

/-- The variant index in declaration order, then the variant. -/
def ledgerEvent : Fmt LedgerEvent where
  encode
    | .accountCreated e => toLE 4 0 ++ (accountCreatedEvent C).encode e
    | .accountStatusChanged e => toLE 4 1 ++ (accountStatusChangedEvent C).encode e
    | .accountMetadataUpdated e => toLE 4 2 ++ (accountMetadataUpdatedEvent C).encode e
    | .transactionProcessed e => toLE 4 3 ++ (transactionProcessedEvent C).encode e
    | .balanceUpdated e => toLE 4 4 ++ (balanceUpdatedEvent C).encode e
    | .merkleRootGenerated e => toLE 4 5 ++ (merkleRootGeneratedEvent C).encode e
    | .digestPublished e => toLE 4 6 ++ (digestPublishedEvent C).encode e
  decode := word .io 4 >>= fun tag =>
    match tag with
    | 0 => (accountCreatedEvent C).decode >>= fun e => pure (.accountCreated e)
    | 1 => (accountStatusChangedEvent C).decode >>= fun e => pure (.accountStatusChanged e)
    | 2 =>
        (accountMetadataUpdatedEvent C).decode >>= fun e => pure (.accountMetadataUpdated e)
    | 3 => (transactionProcessedEvent C).decode >>= fun e => pure (.transactionProcessed e)
    | 4 => (balanceUpdatedEvent C).decode >>= fun e => pure (.balanceUpdated e)
    | 5 => (merkleRootGeneratedEvent C).decode >>= fun e => pure (.merkleRootGenerated e)
    | 6 => (digestPublishedEvent C).decode >>= fun e => pure (.digestPublished e)
    | _ => throw .custom

def eventMetadata : Fmt EventMetadata where
  encode m :=
    (opt string).encode m.correlationId ++ ((opt string).encode m.causationId ++
      ((opt string).encode m.userId ++ string.encode m.source))
  decode := do
    let correlationId ← (opt string).decode
    let causationId ← (opt string).decode
    let userId ← (opt string).decode
    let source ← string.decode
    pure { correlationId, causationId, userId, source }

def eventEnvelope : Fmt EventEnvelope where
  encode e :=
    eventId.encode e.eventId ++ (string.encode e.eventType ++
      (string.encode e.aggregateId ++ (u64.encode e.aggregateVersion ++
        ((dateTime C).encode e.timestamp ++ ((ledgerEvent C).encode e.eventData ++
          eventMetadata.encode e.metadata)))))
  decode := do
    let eventId ← eventId.decode
    let eventType ← string.decode
    let aggregateId ← string.decode
    let aggregateVersion ← u64.decode
    let timestamp ← (dateTime C).decode
    let eventData ← (ledgerEvent C).decode
    let metadata ← eventMetadata.decode
    pure
      { eventId, eventType, aggregateId, aggregateVersion, timestamp, eventData, metadata }

end Events

section ReadsAs

variable {C : Crates} {back : DateTime → DateTime} (hTime : C.TimeTextReadsAs back)

include hTime

theorem ledgerDigest_readsAs : (ledgerDigest C).ReadsAs
    (fun d => { d with timestamp := back d.timestamp }) := fun d =>
  (string_lawful d.rootHash).bind <|
    (u64_lawful d.blockHeight).bind <|
      (dateTime_readsAs hTime d.timestamp).bind (u64_lawful d.transactionCount).map

theorem accountCreatedEvent_readsAs : (accountCreatedEvent C).ReadsAs
    (fun e => { e with createdAt := back e.createdAt }) := fun e =>
  (accountId_lawful e.accountId).bind <|
    (accountType_lawful e.accountType).bind <|
      (currency_lawful e.currency).bind <|
        (amount_lawful e.initialBalance).bind <|
          (accountMetadata_lawful e.metadata).bind (dateTime_readsAs hTime e.createdAt).map

theorem accountStatusChangedEvent_readsAs : (accountStatusChangedEvent C).ReadsAs
    (fun e => { e with changedAt := back e.changedAt }) := fun e =>
  (accountId_lawful e.accountId).bind <|
    (accountStatus_lawful e.oldStatus).bind <|
      (accountStatus_lawful e.newStatus).bind <|
        (opt_lawful string_lawful e.reason).bind (dateTime_readsAs hTime e.changedAt).map

theorem accountMetadataUpdatedEvent_readsAs : (accountMetadataUpdatedEvent C).ReadsAs
    (fun e => { e with updatedAt := back e.updatedAt }) :=
  fun e =>
  (accountId_lawful e.accountId).bind <|
    (accountMetadata_lawful e.oldMetadata).bind <|
      (accountMetadata_lawful e.newMetadata).bind (dateTime_readsAs hTime e.updatedAt).map

theorem transactionProcessedEvent_readsAs : (transactionProcessedEvent C).ReadsAs
    (fun e => { e with processedAt := back e.processedAt }) := fun e =>
  (transactionId_lawful e.transactionId).bind <|
    (transactionType_lawful e.transactionType).bind <|
      (opt_lawful accountId_lawful e.fromAccount).bind <|
        (opt_lawful accountId_lawful e.toAccount).bind <|
          (amount_lawful e.amount).bind <|
            (currency_lawful e.currency).bind <|
              (transactionMetadata_lawful e.metadata).bind
                (dateTime_readsAs hTime e.processedAt).map

theorem balanceUpdatedEvent_readsAs : (balanceUpdatedEvent C).ReadsAs
    (fun e => { e with updatedAt := back e.updatedAt }) := fun e =>
  (accountId_lawful e.accountId).bind <|
    (amount_lawful e.oldBalance).bind <|
      (amount_lawful e.newBalance).bind <|
        (currency_lawful e.currency).bind <|
          (opt_lawful transactionId_lawful e.transactionId).bind
            (dateTime_readsAs hTime e.updatedAt).map

theorem merkleRootGeneratedEvent_readsAs : (merkleRootGeneratedEvent C).ReadsAs
    (fun e => { e with generatedAt := back e.generatedAt }) := fun e =>
  (u64_lawful e.blockHeight).bind <|
    (string_lawful e.rootHash).bind <|
      (u64_lawful e.transactionCount).bind <|
        (opt_lawful string_lawful e.previousRootHash).bind
          (dateTime_readsAs hTime e.generatedAt).map

theorem digestPublishedEvent_readsAs : (digestPublishedEvent C).ReadsAs
    (fun e =>
      { e with
        digest := { e.digest with timestamp := back e.digest.timestamp }
        publishedAt := back e.publishedAt }) := fun e =>
  (ledgerDigest_readsAs hTime e.digest).bind <|
    (string_lawful e.storageLocation).bind (dateTime_readsAs hTime e.publishedAt).map

/-- Every variant is read back by the branch its index selects. -/
theorem ledgerEvent_readsAs : (ledgerEvent C).ReadsAs (LedgerEvent.mapInstants back) := by
  intro e
  cases e with
  | accountCreated e =>
      exact tagged_reads _ 4 0 (by decide) (accountCreatedEvent_readsAs hTime e).map
  | accountStatusChanged e =>
      exact tagged_reads _ 4 1 (by decide) (accountStatusChangedEvent_readsAs hTime e).map
  | accountMetadataUpdated e =>
      exact tagged_reads _ 4 2 (by decide) (accountMetadataUpdatedEvent_readsAs hTime e).map
  | transactionProcessed e =>
      exact tagged_reads _ 4 3 (by decide) (transactionProcessedEvent_readsAs hTime e).map
  | balanceUpdated e =>
      exact tagged_reads _ 4 4 (by decide) (balanceUpdatedEvent_readsAs hTime e).map
  | merkleRootGenerated e =>
      exact tagged_reads _ 4 5 (by decide) (merkleRootGeneratedEvent_readsAs hTime e).map
  | digestPublished e =>
      exact tagged_reads _ 4 6 (by decide) (digestPublishedEvent_readsAs hTime e).map

omit hTime in
theorem eventMetadata_lawful : eventMetadata.Lawful := fun m =>
  (opt_lawful string_lawful m.correlationId).bind <|
    (opt_lawful string_lawful m.causationId).bind <|
      (opt_lawful string_lawful m.userId).bind (string_lawful m.source).map

/-- **The stored bytes of an envelope are read back as that envelope**, its
instants as their texts are read, whatever follows the bytes. -/
theorem eventEnvelope_readsAs : (eventEnvelope C).ReadsAs (EventEnvelope.mapInstants back) :=
  fun e => (eventId_lawful e.eventId).bind <|
    (string_lawful e.eventType).bind <|
      (string_lawful e.aggregateId).bind <|
        (u64_lawful e.aggregateVersion).bind <|
          (dateTime_readsAs hTime e.timestamp).bind <|
            (ledgerEvent_readsAs hTime e.eventData).bind (eventMetadata_lawful e.metadata).map

end ReadsAs

/-- `bincode::serialize`; writing to memory without a size limit cannot fail. -/
def serialize (C : Crates) (e : EventEnvelope) : Except ErrorKind (List UInt8) :=
  .ok ((eventEnvelope C).encode e)

/-- `bincode::deserialize`: trailing bytes are ignored. -/
def deserialize (C : Crates) (data : List UInt8) : Except ErrorKind EventEnvelope :=
  ((eventEnvelope C).decode.run data).map Prod.fst

theorem deserialize_encode {C : Crates} {back : DateTime → DateTime}
    (hTime : C.TimeTextReadsAs back) (e : EventEnvelope) :
    deserialize C ((eventEnvelope C).encode e) = .ok (e.mapInstants back) := by
  have h := eventEnvelope_readsAs hTime e []
  rw [List.append_nil] at h
  rw [deserialize, h]
  rfl

end LedgerFS.EventStore.Bincode
