import LedgerFS.Core.Crates
import LedgerFS.Core.Events
import LedgerFS.Library.CompactJson

/-!
# The event hash

`calculate_hash` hashes the `serde_json` text of the envelope.  Each type is
rendered by the rules of its derive: a structure is an object with its fields
in order, a newtype is its content, a variant with a payload is an object of
one field, a variant without one is its name, a map is an object in the
iteration order of the instance.

Every rendering is injective, so the text binds every field of the envelope
(`hashedText_binds`).  It also shows the iteration order of every tag map:
equal envelopes have one text exactly when their tag maps iterate alike
(`sameHash_iff_tagMaps`).
-/

namespace LedgerFS.Core

open LedgerFS.Library.CompactJson

/-! ## Rendering the value types -/

def RustString.toJson (s : RustString) : Json := .str s.text

@[simp] theorem RustString.toJson_inj (s t : RustString) :
    s.toJson = t.toJson ↔ s = t := by
  simp [toJson, RustString.ext_iff]

/-- `None` is `null`. -/
def optionToJson {α : Type} (f : α → Json) : Option α → Json
  | none => .null
  | some a => f a

/-- An option is bound by its text when its content is, and is no `null`. -/
theorem optionToJson_inj {α : Type} {f : α → Json} (hNull : ∀ a, f a ≠ .null)
    (hInj : ∀ a b, f a = f b ↔ a = b) (x y : Option α) :
    optionToJson f x = optionToJson f y ↔ x = y := by
  cases x <;> cases y <;> simp [optionToJson, hInj, hNull, (hNull _).symm]

@[simp] theorem optionString_inj (x y : Option RustString) :
    optionToJson RustString.toJson x = optionToJson RustString.toJson y ↔ x = y :=
  optionToJson_inj (by simp [RustString.toJson]) RustString.toJson_inj x y

def Uuid.toJson (u : Uuid) : Json := .str (String.ofList u.hyphenated)

@[simp] theorem Uuid.toJson_inj (u v : Uuid) : u.toJson = v.toJson ↔ u = v := by
  simp [toJson, String.ofList_inj, Uuid.hyphenated_injective.eq_iff]

def AccountId.toJson (id : AccountId) : Json := id.uuid.toJson

@[simp] theorem AccountId.toJson_inj (a b : AccountId) :
    a.toJson = b.toJson ↔ a = b := by
  cases a
  cases b
  simp [toJson]

@[simp] theorem optionAccountId_inj (x y : Option AccountId) :
    optionToJson AccountId.toJson x = optionToJson AccountId.toJson y ↔ x = y :=
  optionToJson_inj (by simp [AccountId.toJson, Uuid.toJson]) AccountId.toJson_inj x y

def TransactionId.toJson (id : TransactionId) : Json := id.uuid.toJson

@[simp] theorem TransactionId.toJson_inj (a b : TransactionId) :
    a.toJson = b.toJson ↔ a = b := by
  cases a
  cases b
  simp [toJson]

@[simp] theorem optionTransactionId_inj (x y : Option TransactionId) :
    optionToJson TransactionId.toJson x = optionToJson TransactionId.toJson y ↔ x = y :=
  optionToJson_inj (by simp [TransactionId.toJson, Uuid.toJson])
    TransactionId.toJson_inj x y

def EventId.toJson (id : EventId) : Json := id.uuid.toJson

@[simp] theorem EventId.toJson_inj (a b : EventId) : a.toJson = b.toJson ↔ a = b := by
  cases a
  cases b
  simp [toJson]

def uint64ToJson (n : UInt64) : Json := .num n.toNat

@[simp] theorem uint64ToJson_inj (m n : UInt64) :
    uint64ToJson m = uint64ToJson n ↔ m = n := by
  rw [uint64ToJson, uint64ToJson, Json.num.injEq, Int.ofNat_inj, UInt64.toNat_inj]

def Amount.toJson (a : Amount) : Json := .obj [("value", .num a.value.toInt)]

@[simp] theorem Amount.toJson_inj (a b : Amount) : a.toJson = b.toJson ↔ a = b := by
  cases a
  cases b
  simp [toJson, Int64.toInt_inj]

def Currency.toJson (c : Currency) : Json := c.code.toJson

@[simp] theorem Currency.toJson_inj (c d : Currency) : c.toJson = d.toJson ↔ c = d := by
  cases c
  cases d
  simp [toJson]

def AccountStatus.toJson : AccountStatus → Json
  | .active => .str "Active"
  | .suspended => .str "Suspended"
  | .closed => .str "Closed"

@[simp] theorem AccountStatus.toJson_inj (a b : AccountStatus) :
    a.toJson = b.toJson ↔ a = b := by
  cases a <;> cases b <;> simp [toJson]

def AccountType.toJson : AccountType → Json
  | .customer => .str "Customer"
  | .operational => .str "Operational"
  | .safeguarding => .str "Safeguarding"
  | .nostro => .str "Nostro"
  | .vostro => .str "Vostro"

@[simp] theorem AccountType.toJson_inj (a b : AccountType) :
    a.toJson = b.toJson ↔ a = b := by
  cases a <;> cases b <;> simp [toJson]

def TransactionType.toJson : TransactionType → Json
  | .debit => .str "Debit"
  | .credit => .str "Credit"
  | .transfer => .str "Transfer"

@[simp] theorem TransactionType.toJson_inj (a b : TransactionType) :
    a.toJson = b.toJson ↔ a = b := by
  cases a <;> cases b <;> simp [toJson]

/-- The entries as the instance iterates them. -/
def Tags.toJson (m : Tags) : Json :=
  .obj (m.entries.map fun entry => (entry.1.text, entry.2.toJson))

@[simp] theorem Tags.toJson_inj (m n : Tags) : Tags.toJson m = Tags.toJson n ↔ m = n := by
  have hEntry : Function.Injective
      fun entry : RustString × RustString => (entry.1.text, entry.2.toJson) := by
    rintro ⟨k, v⟩ ⟨l, w⟩ h
    simpa [RustString.ext_iff] using h
  simp [toJson, hEntry.list_map.eq_iff, HashMap.ext_iff]

/-- `Vec<String>`. -/
def stringsToJson (v : RustVec RustString) : Json := .arr (v.items.map RustString.toJson)

@[simp] theorem stringsToJson_inj (v w : RustVec RustString) :
    stringsToJson v = stringsToJson w ↔ v = w := by
  have hItem : Function.Injective RustString.toJson := fun s t =>
    (RustString.toJson_inj s t).mp
  simp [stringsToJson, hItem.list_map.eq_iff, RustVec.ext_iff]

def AccountMetadata.toJson (m : AccountMetadata) : Json :=
  .obj [("account_type", m.accountType.toJson), ("currency", m.currency.toJson),
    ("tags", Tags.toJson m.tags), ("regulatory_flags", stringsToJson m.regulatoryFlags)]

@[simp] theorem AccountMetadata.toJson_inj (m n : AccountMetadata) :
    m.toJson = n.toJson ↔ m = n := by
  cases m
  cases n
  simp [toJson]

def TransactionMetadata.toJson (m : TransactionMetadata) : Json :=
  .obj [("reference", optionToJson RustString.toJson m.reference),
    ("description", optionToJson RustString.toJson m.description),
    ("tags", Tags.toJson m.tags), ("regulatory_flags", stringsToJson m.regulatoryFlags)]

@[simp] theorem TransactionMetadata.toJson_inj (m n : TransactionMetadata) :
    m.toJson = n.toJson ↔ m = n := by
  cases m
  cases n
  simp [toJson]

/-! ## Rendering events

From here on values carry instants, whose text `chrono` supplies.
-/

section Events

variable (C : Crates)

def DateTime.toJson (t : DateTime) : Json := (C.formatDateTime t).toJson

def LedgerDigest.toJson (d : LedgerDigest) : Json :=
  .obj [("root_hash", d.rootHash.toJson), ("block_height", uint64ToJson d.blockHeight),
    ("timestamp", d.timestamp.toJson C),
    ("transaction_count", uint64ToJson d.transactionCount)]

def AccountCreatedEvent.toJson (e : AccountCreatedEvent) : Json :=
  .obj [("account_id", e.accountId.toJson), ("account_type", e.accountType.toJson),
    ("currency", e.currency.toJson), ("initial_balance", e.initialBalance.toJson),
    ("metadata", e.metadata.toJson), ("created_at", e.createdAt.toJson C)]

def AccountStatusChangedEvent.toJson (e : AccountStatusChangedEvent) : Json :=
  .obj [("account_id", e.accountId.toJson), ("old_status", e.oldStatus.toJson),
    ("new_status", e.newStatus.toJson), ("reason", optionToJson RustString.toJson e.reason),
    ("changed_at", e.changedAt.toJson C)]

def AccountMetadataUpdatedEvent.toJson (e : AccountMetadataUpdatedEvent) : Json :=
  .obj [("account_id", e.accountId.toJson), ("old_metadata", e.oldMetadata.toJson),
    ("new_metadata", e.newMetadata.toJson), ("updated_at", e.updatedAt.toJson C)]

def TransactionProcessedEvent.toJson (e : TransactionProcessedEvent) : Json :=
  .obj [("transaction_id", e.transactionId.toJson),
    ("transaction_type", e.transactionType.toJson),
    ("from_account", optionToJson AccountId.toJson e.fromAccount),
    ("to_account", optionToJson AccountId.toJson e.toAccount),
    ("amount", e.amount.toJson), ("currency", e.currency.toJson),
    ("metadata", e.metadata.toJson), ("processed_at", e.processedAt.toJson C)]

def BalanceUpdatedEvent.toJson (e : BalanceUpdatedEvent) : Json :=
  .obj [("account_id", e.accountId.toJson), ("old_balance", e.oldBalance.toJson),
    ("new_balance", e.newBalance.toJson), ("currency", e.currency.toJson),
    ("transaction_id", optionToJson TransactionId.toJson e.transactionId),
    ("updated_at", e.updatedAt.toJson C)]

def MerkleRootGeneratedEvent.toJson (e : MerkleRootGeneratedEvent) : Json :=
  .obj [("block_height", uint64ToJson e.blockHeight), ("root_hash", e.rootHash.toJson),
    ("transaction_count", uint64ToJson e.transactionCount),
    ("previous_root_hash", optionToJson RustString.toJson e.previousRootHash),
    ("generated_at", e.generatedAt.toJson C)]

def DigestPublishedEvent.toJson (e : DigestPublishedEvent) : Json :=
  .obj [("digest", e.digest.toJson C), ("storage_location", e.storageLocation.toJson),
    ("published_at", e.publishedAt.toJson C)]

def LedgerEvent.toJson : LedgerEvent → Json
  | .accountCreated e => .obj [("AccountCreated", e.toJson C)]
  | .accountStatusChanged e => .obj [("AccountStatusChanged", e.toJson C)]
  | .accountMetadataUpdated e => .obj [("AccountMetadataUpdated", e.toJson C)]
  | .transactionProcessed e => .obj [("TransactionProcessed", e.toJson C)]
  | .balanceUpdated e => .obj [("BalanceUpdated", e.toJson C)]
  | .merkleRootGenerated e => .obj [("MerkleRootGenerated", e.toJson C)]
  | .digestPublished e => .obj [("DigestPublished", e.toJson C)]

def EventMetadata.toJson (m : EventMetadata) : Json :=
  .obj [("correlation_id", optionToJson RustString.toJson m.correlationId),
    ("causation_id", optionToJson RustString.toJson m.causationId),
    ("user_id", optionToJson RustString.toJson m.userId), ("source", m.source.toJson)]

def EventEnvelope.toJson (e : EventEnvelope) : Json :=
  .obj [("event_id", e.eventId.toJson), ("event_type", e.eventType.toJson),
    ("aggregate_id", e.aggregateId.toJson),
    ("aggregate_version", uint64ToJson e.aggregateVersion),
    ("timestamp", e.timestamp.toJson C), ("event_data", e.eventData.toJson C),
    ("metadata", e.metadata.toJson)]

namespace EventEnvelope

/-- What `serde_json::to_string` writes. -/
def hashedText (e : EventEnvelope) : String := String.ofList (render (e.toJson C))

/-- `calculate_hash`: the SHA-256 digest of the text, in hexadecimal. -/
def calculateHash (e : EventEnvelope) : String :=
  String.ofList (Uuid.hex (C.sha256 (e.hashedText C).toByteArray.data.toList))

end EventEnvelope

end Events

/-! ## The text binds every field -/

@[simp] theorem EventMetadata.toJson_inj (m n : EventMetadata) :
    m.toJson = n.toJson ↔ m = n := by
  cases m
  cases n
  simp [toJson]

section Binding

variable {C : Crates} (hTime : C.TimeTextInjective)

include hTime

theorem DateTime.toJson_inj (s t : DateTime) : s.toJson C = t.toJson C ↔ s = t := by
  simp [toJson, hTime.eq_iff]

theorem LedgerDigest.toJson_inj (d d' : LedgerDigest) :
    d.toJson C = d'.toJson C ↔ d = d' := by
  cases d
  cases d'
  simp [toJson, DateTime.toJson_inj hTime]

/-- Variants differ in name, events of one variant field by field. -/
theorem LedgerEvent.toJson_inj (a b : LedgerEvent) :
    a.toJson C = b.toJson C ↔ a = b := by
  cases a <;> cases b <;> simp only [LedgerEvent.toJson, Json.obj.injEq, List.cons.injEq,
    Prod.mk.injEq, and_true, String.reduceEq, false_and, reduceCtorEq, true_and]
  case accountCreated.accountCreated a b =>
    cases a
    cases b
    simp [AccountCreatedEvent.toJson, DateTime.toJson_inj hTime]
  case accountStatusChanged.accountStatusChanged a b =>
    cases a
    cases b
    simp [AccountStatusChangedEvent.toJson, DateTime.toJson_inj hTime]
  case accountMetadataUpdated.accountMetadataUpdated a b =>
    cases a
    cases b
    simp [AccountMetadataUpdatedEvent.toJson, DateTime.toJson_inj hTime]
  case transactionProcessed.transactionProcessed a b =>
    cases a
    cases b
    simp [TransactionProcessedEvent.toJson, DateTime.toJson_inj hTime]
  case balanceUpdated.balanceUpdated a b =>
    cases a
    cases b
    simp [BalanceUpdatedEvent.toJson, DateTime.toJson_inj hTime]
  case merkleRootGenerated.merkleRootGenerated a b =>
    cases a
    cases b
    simp [MerkleRootGeneratedEvent.toJson, DateTime.toJson_inj hTime]
  case digestPublished.digestPublished a b =>
    cases a
    cases b
    simp [DigestPublishedEvent.toJson, DateTime.toJson_inj hTime,
      LedgerDigest.toJson_inj hTime]

theorem EventEnvelope.toJson_inj (e f : EventEnvelope) :
    e.toJson C = f.toJson C ↔ e = f := by
  cases e
  cases f
  simp [toJson, DateTime.toJson_inj hTime, LedgerEvent.toJson_inj hTime]

end Binding

namespace EventEnvelope

/-- One text is one value. -/
theorem hashedText_eq_iff (C : Crates) (e f : EventEnvelope) :
    e.hashedText C = f.hashedText C ↔ e.toJson C = f.toJson C := by
  rw [hashedText, hashedText, String.ofList_inj, render_injective.eq_iff]

/-- **The hash binds every field**: envelopes with the same hashed text are
the same. -/
theorem hashedText_binds (C : Crates) (hTime : C.TimeTextInjective)
    (e f : EventEnvelope) (h : e.hashedText C = f.hashedText C) : e = f :=
  (toJson_inj hTime e f).mp ((hashedText_eq_iff C e f).mp h)

/-- A test envelope and the same fields put together again. -/
theorem hashedText_binds_test :
    let e := createTestEnvelope ⟨Uuid.fromU128 1⟩ ⟨Uuid.fromU128 2⟩ DateTime.epoch
    { e with metadata := EventMetadata.default } = e :=
  hashedText_binds Crates.exact Crates.exact_timeTextParsesBack.injective _ _ rfl

end EventEnvelope

/-! ## Reading back -/

section ReadBack

variable {C : Crates} (hTime : C.TimeTextReadsBack)

include hTime

theorem DateTime.toJson_eq_iff (s t : DateTime) :
    s.toJson C = t.toJson C ↔ s.readBack = t.readBack := by
  rw [toJson, toJson, RustString.toJson_inj, hTime.text_eq_iff]

theorem DateTime.toJson_readBack (t : DateTime) : t.readBack.toJson C = t.toJson C := by
  rw [DateTime.toJson_eq_iff hTime, readBack_readBack]

/-- The instants of an event are shown by their texts only. -/
theorem LedgerEvent.toJson_readBack (e : LedgerEvent) :
    (e.mapInstants DateTime.readBack).toJson C = e.toJson C := by
  cases e <;>
    simp only [mapInstants, LedgerEvent.toJson, AccountCreatedEvent.toJson,
      AccountStatusChangedEvent.toJson, AccountMetadataUpdatedEvent.toJson,
      TransactionProcessedEvent.toJson, BalanceUpdatedEvent.toJson,
      MerkleRootGeneratedEvent.toJson, DigestPublishedEvent.toJson, LedgerDigest.toJson,
      DateTime.toJson_readBack hTime]

theorem EventEnvelope.toJson_readBack (e : EventEnvelope) :
    e.readBack.toJson C = e.toJson C := by
  simp only [EventEnvelope.readBack, mapInstants, EventEnvelope.toJson,
    DateTime.toJson_readBack hTime, LedgerEvent.toJson_readBack hTime]

/-- What is read back hashes to the same text. -/
theorem EventEnvelope.hashedText_readBack (e : EventEnvelope) :
    e.readBack.hashedText C = e.hashedText C := by
  rw [hashedText, EventEnvelope.toJson_readBack hTime, hashedText]

end ReadBack

/-! ## Equal envelopes with different texts -/

/-- Without any knowledge of the instants: the text shows the tag maps as they
iterate. -/
theorem LedgerEvent.tagMaps_eq_of_toJson {C : Crates} {a b : LedgerEvent}
    (h : a.toJson C = b.toJson C) : a.tagMaps = b.tagMaps := by
  cases a <;> cases b <;> simp only [LedgerEvent.toJson, Json.obj.injEq, List.cons.injEq,
    Prod.mk.injEq, and_true, String.reduceEq, false_and, true_and] at h <;>
    try rfl
  case accountCreated.accountCreated a b =>
    simp only [AccountCreatedEvent.toJson, Json.obj.injEq, List.cons.injEq, Prod.mk.injEq,
      true_and, AccountMetadata.toJson_inj] at h
    simp [tagMaps, h]
  case accountMetadataUpdated.accountMetadataUpdated a b =>
    simp only [AccountMetadataUpdatedEvent.toJson, Json.obj.injEq, List.cons.injEq,
      Prod.mk.injEq, true_and, AccountMetadata.toJson_inj] at h
    simp [tagMaps, h]
  case transactionProcessed.transactionProcessed a b =>
    simp only [TransactionProcessedEvent.toJson, Json.obj.injEq, List.cons.injEq,
      Prod.mk.injEq, true_and, TransactionMetadata.toJson_inj] at h
    simp [tagMaps, h]

/-- Entries iterated backwards. -/
def HashMap.RandomState.reversed {κ υ : Type} : HashMap.RandomState κ υ :=
  ⟨List.reverse, List.reverse_perm⟩

/-- Only a map of at most one entry iterates the same backwards. -/
theorem HashMap.len_le_one_of_rehash_reversed {κ υ : Type} {m : HashMap κ υ}
    (h : m.rehash .reversed = m) : m.len ≤ 1 := by
  have hNodup : m.entries.Nodup := List.Nodup.of_map Prod.fst m.nodup
  have hReverse : m.entries.reverse = m.entries := congrArg HashMap.entries h
  by_contra hLong
  have hFirst : 0 < m.entries.length := by
    unfold len at hLong
    omega
  have hLast : m.entries.length - 1 - 0 < m.entries.length := by omega
  have hSame : m.entries[m.entries.length - 1 - 0] = m.entries[0] := by
    rw [← List.getElem_reverse (by simpa using hFirst)]
    simp only [hReverse]
  have hIndex := (hNodup.getElem_inj_iff).mp hSame
  unfold len at hLong
  omega

theorem LedgerEvent.tagMaps_rehash (rs : HashMap.RandomState RustString RustString)
    (e : LedgerEvent) :
    (e.rehash fun _ => rs).tagMaps = e.tagMaps.map (HashMap.rehash rs) := by
  cases e <;> rfl

/-- Maps of equal events are equal as maps. -/
theorem LedgerEvent.PartialEq.forall₂_tagMaps {a b : LedgerEvent} (h : a.PartialEq b) :
    List.Forall₂ HashMap.PartialEq a.tagMaps b.tagMaps := by
  cases a <;> cases b <;> simp only [LedgerEvent.PartialEq] at h <;>
    try exact List.Forall₂.nil
  case accountCreated.accountCreated a b =>
    exact .cons h.1.2.2.1 .nil
  case accountMetadataUpdated.accountMetadataUpdated a b =>
    exact .cons h.1.2.2.1 (.cons h.2.1.2.2.1 .nil)
  case transactionProcessed.transactionProcessed a b =>
    exact .cons h.1.2.2.1 .nil

namespace EventEnvelope

/-- The texts agree, and with them the hashes. -/
def SameHash (C : Crates) (e f : EventEnvelope) : Prop :=
  e.hashedText C = f.hashedText C ∧ e.calculateHash C = f.calculateHash C

/-- No tag map has two entries to put in order. -/
def AtMostOneTagEach (e : EventEnvelope) : Prop := ∀ m ∈ e.tagMaps, m.len ≤ 1

theorem sameHash_iff_text (C : Crates) (e f : EventEnvelope) :
    SameHash C e f ↔ e.hashedText C = f.hashedText C := by
  constructor
  · exact And.left
  · intro hText
    exact ⟨hText, by rw [calculateHash, calculateHash, hText]⟩

/-- Equal envelopes have one text exactly when their tag maps iterate alike. -/
theorem sameHash_iff_tagMaps (C : Crates) {e f : EventEnvelope} (h : e.PartialEq f) :
    SameHash C e f ↔ e.tagMaps = f.tagMaps := by
  rw [sameHash_iff_text]
  constructor
  · intro hText
    have hJson := (hashedText_eq_iff C e f).mp hText
    simp only [toJson, Json.obj.injEq, List.cons.injEq, Prod.mk.injEq, true_and] at hJson
    exact LedgerEvent.tagMaps_eq_of_toJson hJson.2.2.2.2.2.1
  · intro hTags
    rw [h.eq_iff_tagMaps.mpr hTags]

theorem tagMaps_reread (hs : Hashers) (e : EventEnvelope) :
    (e.reread hs).tagMaps = (e.rehash hs).tagMaps := by
  rw [reread, tagMaps, rehash, readBack, mapInstants, LedgerEvent.rehash_mapInstants,
    LedgerEvent.tagMaps_mapInstants]
  rfl

/-- A reread envelope hashes as one whose maps only are built anew. -/
theorem sameHash_reread_iff {C : Crates} (hTime : C.TimeTextReadsBack) (hs : Hashers)
    (e : EventEnvelope) : SameHash C (e.reread hs) e ↔ SameHash C (e.rehash hs) e := by
  have hReread : e.reread hs = (e.rehash hs).readBack := by
    rw [reread, rehash, readBack, mapInstants, LedgerEvent.rehash_mapInstants]
    rfl
  rw [sameHash_iff_text, sameHash_iff_text, hReread, hashedText_readBack hTime]

/-- With at most one tag in each map there is nothing to iterate differently. -/
theorem AtMostOneTagEach.tagMaps_eq {e f : EventEnvelope} (hTags : f.AtMostOneTagEach)
    (h : e.PartialEq f) : e.tagMaps = f.tagMaps := by
  have hMaps := h.1.forall₂_tagMaps
  unfold AtMostOneTagEach at hTags
  unfold tagMaps at hTags ⊢
  generalize f.eventData.tagMaps = ns at hMaps hTags
  generalize e.eventData.tagMaps = ms at hMaps
  induction hMaps with
  | nil => rfl
  | cons hHead _ ih =>
      simp only [List.mem_cons, forall_eq_or_imp] at hTags
      rw [hHead.symm.eq_of_len_le_one hTags.1, ih hTags.2]

/-- Built backwards, an envelope with two tags in one map has another text. -/
theorem atMostOneTagEach_of_reversed (C : Crates) (e : EventEnvelope)
    (h : SameHash C (e.rehash fun _ => .reversed) e) : e.AtMostOneTagEach := by
  have hMaps := (sameHash_iff_tagMaps C (e.rehash_partialEq _)).mp h
  rw [tagMaps, rehash, LedgerEvent.tagMaps_rehash] at hMaps
  intro m hm
  have hSame : HashMap.rehash .reversed m = m :=
    List.map_inj_left.mp (hMaps.trans (List.map_id _).symm) m hm
  exact HashMap.len_le_one_of_rehash_reversed hSame

end EventEnvelope

end LedgerFS.Core
