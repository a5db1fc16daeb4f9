import LedgerFS.Core.Types

/-!
# Events (`events.rs`)

The seven ledger events and the envelope they are stored in.  `PartialEq` is
the derived `==` of the source: field by field, tag maps as maps.  Two equal
envelopes can differ only in the order in which their tag maps iterate;
`tagMaps` lists those maps and `PartialEq.eq_iff_tagMaps` says that nothing
else is left to differ.
-/

namespace LedgerFS.Core

/-- Metadata for events. -/
structure EventMetadata where
  correlationId : Option RustString
  causationId : Option RustString
  userId : Option RustString
  source : RustString
deriving DecidableEq

structure AccountCreatedEvent where
  accountId : AccountId
  accountType : AccountType
  currency : Currency
  initialBalance : Amount
  metadata : AccountMetadata
  createdAt : DateTime
deriving DecidableEq

structure AccountStatusChangedEvent where
  accountId : AccountId
  oldStatus : AccountStatus
  newStatus : AccountStatus
  reason : Option RustString
  changedAt : DateTime
deriving DecidableEq

structure AccountMetadataUpdatedEvent where
  accountId : AccountId
  oldMetadata : AccountMetadata
  newMetadata : AccountMetadata
  updatedAt : DateTime
deriving DecidableEq

structure TransactionProcessedEvent where
  transactionId : TransactionId
  transactionType : TransactionType
  fromAccount : Option AccountId
  toAccount : Option AccountId
  amount : Amount
  currency : Currency
  metadata : TransactionMetadata
  processedAt : DateTime
deriving DecidableEq

structure BalanceUpdatedEvent where
  accountId : AccountId
  oldBalance : Amount
  newBalance : Amount
  currency : Currency
  transactionId : Option TransactionId
  updatedAt : DateTime
deriving DecidableEq

structure MerkleRootGeneratedEvent where
  blockHeight : UInt64
  rootHash : RustString
  transactionCount : UInt64
  previousRootHash : Option RustString
  generatedAt : DateTime
deriving DecidableEq

structure DigestPublishedEvent where
  digest : LedgerDigest
  storageLocation : RustString
  publishedAt : DateTime
deriving DecidableEq

/-- All possible ledger events. -/
inductive LedgerEvent
  | accountCreated (event : AccountCreatedEvent)
  | accountStatusChanged (event : AccountStatusChangedEvent)
  | accountMetadataUpdated (event : AccountMetadataUpdatedEvent)
  | transactionProcessed (event : TransactionProcessedEvent)
  | balanceUpdated (event : BalanceUpdatedEvent)
  | merkleRootGenerated (event : MerkleRootGeneratedEvent)
  | digestPublished (event : DigestPublishedEvent)
deriving DecidableEq

/-- The envelope an event is stored in. -/
structure EventEnvelope where
  eventId : EventId
  eventType : RustString
  aggregateId : RustString
  aggregateVersion : UInt64
  timestamp : DateTime
  eventData : LedgerEvent
  metadata : EventMetadata
deriving DecidableEq

/-- The type name `EventEnvelope::new` records. -/
def LedgerEvent.typeName : LedgerEvent → RustString
  | .accountCreated _ => ⟨"AccountCreated", by decide⟩
  | .accountStatusChanged _ => ⟨"AccountStatusChanged", by decide⟩
  | .accountMetadataUpdated _ => ⟨"AccountMetadataUpdated", by decide⟩
  | .transactionProcessed _ => ⟨"TransactionProcessed", by decide⟩
  | .balanceUpdated _ => ⟨"BalanceUpdated", by decide⟩
  | .merkleRootGenerated _ => ⟨"MerkleRootGenerated", by decide⟩
  | .digestPublished _ => ⟨"DigestPublished", by decide⟩

/-- `EventEnvelope::new`, given the fresh id and the clock reading it takes. -/
def EventEnvelope.new (eventId : EventId) (now : DateTime)
    (aggregateId : RustString) (aggregateVersion : UInt64)
    (eventData : LedgerEvent) (metadata : EventMetadata) : EventEnvelope where
  eventId := eventId
  eventType := eventData.typeName
  aggregateId := aggregateId
  aggregateVersion := aggregateVersion
  timestamp := now
  eventData := eventData
  metadata := metadata

/-- `EventMetadata::default`. -/
def EventMetadata.default : EventMetadata where
  correlationId := none
  causationId := none
  userId := none
  source := ⟨"ledgerfs", by decide⟩

/-- `create_test_envelope` of the serialization tests: a freshly created
customer account, stamped with the given instant. -/
def createTestEnvelope (accountId : AccountId) (eventId : EventId)
    (timestamp : DateTime) : EventEnvelope :=
  EventEnvelope.new eventId timestamp accountId.uuid.toText 1
    (.accountCreated
      { accountId := accountId
        accountType := .customer
        currency := Currency.usd
        initialBalance := ⟨1000⟩
        metadata :=
          { accountType := .customer
            currency := Currency.usd
            tags := HashMap.empty
            regulatoryFlags := RustVec.empty }
        createdAt := timestamp })
    EventMetadata.default

/-- So many test envelopes of one account at one instant, with event ids
counted up from zero. -/
def createTestEnvelopes (accountId : AccountId) (timestamp : DateTime) (n : Nat) :
    List EventEnvelope :=
  (List.range n).map fun i => createTestEnvelope accountId ⟨Uuid.fromU128 i⟩ timestamp

@[simp] theorem length_createTestEnvelopes (accountId : AccountId) (timestamp : DateTime)
    (n : Nat) : (createTestEnvelopes accountId timestamp n).length = n := by
  simp [createTestEnvelopes]

theorem nodup_ids_createTestEnvelopes (accountId : AccountId) (timestamp : DateTime)
    {n : Nat} (h : n ≤ 2 ^ 128) :
    ((createTestEnvelopes accountId timestamp n).map EventEnvelope.eventId).Nodup := by
  rw [createTestEnvelopes, List.map_map]
  apply List.Nodup.map_on _ List.nodup_range
  intro i hi j hj hIds
  rw [List.mem_range] at hi hj
  exact Uuid.fromU128_inj (by omega) (by omega) (congrArg EventId.uuid hIds)

/-- There are any number of test envelopes, under distinct ids. -/
theorem exists_testEnvelopes (accountId : AccountId) (timestamp : DateTime) {n : Nat}
    (h : n ≤ 2 ^ 128) :
    ∃ envelopes : List EventEnvelope, envelopes.length = n ∧
      (envelopes.map EventEnvelope.eventId).Nodup ∧
      ∀ e ∈ envelopes, ∃ eventId, e = createTestEnvelope accountId eventId timestamp := by
  refine ⟨createTestEnvelopes accountId timestamp n, length_createTestEnvelopes _ _ n,
    nodup_ids_createTestEnvelopes accountId timestamp h, ?_⟩
  intro e he
  obtain ⟨i, -, rfl⟩ := List.mem_map.mp he
  exact ⟨_, rfl⟩

/-- The seeds of the tag maps of one envelope, in the order in which the maps
are built. -/
abbrev Hashers : Type := Nat → HashMap.RandomState RustString RustString

/-! ## Equality -/

namespace LedgerEvent

/-- The derived `==`.  Events without tag maps are compared as they are. -/
def PartialEq : LedgerEvent → LedgerEvent → Prop
  | .accountCreated a, .accountCreated b =>
      a.metadata.PartialEq b.metadata ∧ { a with metadata := b.metadata } = b
  | .accountMetadataUpdated a, .accountMetadataUpdated b =>
      a.oldMetadata.PartialEq b.oldMetadata ∧
        a.newMetadata.PartialEq b.newMetadata ∧
        { a with oldMetadata := b.oldMetadata, newMetadata := b.newMetadata } = b
  | .transactionProcessed a, .transactionProcessed b =>
      a.metadata.PartialEq b.metadata ∧ { a with metadata := b.metadata } = b
  | .accountStatusChanged a, .accountStatusChanged b => a = b
  | .balanceUpdated a, .balanceUpdated b => a = b
  | .merkleRootGenerated a, .merkleRootGenerated b => a = b
  | .digestPublished a, .digestPublished b => a = b
  | _, _ => False

instance (a b : LedgerEvent) : Decidable (a.PartialEq b) := by
  cases a <;> cases b <;> unfold PartialEq <;> infer_instance

/-- The tag maps of an event, in field order. -/
def tagMaps : LedgerEvent → List Tags
  | .accountCreated e => [e.metadata.tags]
  | .accountMetadataUpdated e => [e.oldMetadata.tags, e.newMetadata.tags]
  | .transactionProcessed e => [e.metadata.tags]
  | _ => []

/-- The same event with every tag map built under its own seed. -/
def rehash (hs : Hashers) : LedgerEvent → LedgerEvent
  | .accountCreated e =>
      .accountCreated { e with metadata := e.metadata.rehash (hs 0) }
  | .accountMetadataUpdated e =>
      .accountMetadataUpdated
        { e with
          oldMetadata := e.oldMetadata.rehash (hs 0)
          newMetadata := e.newMetadata.rehash (hs 1) }
  | .transactionProcessed e =>
      .transactionProcessed { e with metadata := e.metadata.rehash (hs 0) }
  | e => e

theorem rehash_partialEq (hs : Hashers) (e : LedgerEvent) :
    (e.rehash hs).PartialEq e := by
  cases e with
  | accountCreated e => exact ⟨e.metadata.rehash_partialEq (hs 0), rfl⟩
  | accountMetadataUpdated e =>
      exact ⟨e.oldMetadata.rehash_partialEq (hs 0),
        e.newMetadata.rehash_partialEq (hs 1), rfl⟩
  | transactionProcessed e => exact ⟨e.metadata.rehash_partialEq (hs 0), rfl⟩
  | accountStatusChanged e => rfl
  | balanceUpdated e => rfl
  | merkleRootGenerated e => rfl
  | digestPublished e => rfl

end LedgerEvent

/-! ## Instants -/

namespace LedgerEvent

/-- The instants of an event, in field order. -/
def instants : LedgerEvent → List DateTime
  | .accountCreated e => [e.createdAt]
  | .accountStatusChanged e => [e.changedAt]
  | .accountMetadataUpdated e => [e.updatedAt]
  | .transactionProcessed e => [e.processedAt]
  | .balanceUpdated e => [e.updatedAt]
  | .merkleRootGenerated e => [e.generatedAt]
  | .digestPublished e => [e.digest.timestamp, e.publishedAt]

/-- The event with another reading for each instant. -/
def mapInstants (f : DateTime → DateTime) : LedgerEvent → LedgerEvent
  | .accountCreated e => .accountCreated { e with createdAt := f e.createdAt }
  | .accountStatusChanged e => .accountStatusChanged { e with changedAt := f e.changedAt }
  | .accountMetadataUpdated e => .accountMetadataUpdated { e with updatedAt := f e.updatedAt }
  | .transactionProcessed e => .transactionProcessed { e with processedAt := f e.processedAt }
  | .balanceUpdated e => .balanceUpdated { e with updatedAt := f e.updatedAt }
  | .merkleRootGenerated e => .merkleRootGenerated { e with generatedAt := f e.generatedAt }
  | .digestPublished e =>
      .digestPublished
        { e with
          digest := { e.digest with timestamp := f e.digest.timestamp }
          publishedAt := f e.publishedAt }

theorem instants_mapInstants (f : DateTime → DateTime) (e : LedgerEvent) :
    (e.mapInstants f).instants = e.instants.map f := by
  cases e <;> rfl

theorem mapInstants_eq_self {f : DateTime → DateTime} {e : LedgerEvent}
    (h : ∀ t ∈ e.instants, f t = t) : e.mapInstants f = e := by
  cases e <;> simp_all [instants, mapInstants]

theorem tagMaps_mapInstants (f : DateTime → DateTime) (e : LedgerEvent) :
    (e.mapInstants f).tagMaps = e.tagMaps := by
  cases e <;> rfl

theorem rehash_mapInstants (f : DateTime → DateTime) (hs : Hashers) (e : LedgerEvent) :
    (e.mapInstants f).rehash hs = (e.rehash hs).mapInstants f := by
  cases e <;> rfl

/-- Equal events have the same instants. -/
theorem PartialEq.instants_eq {a b : LedgerEvent} (h : a.PartialEq b) :
    a.instants = b.instants := by
  cases a <;> cases b <;> simp only [LedgerEvent.PartialEq] at h
  case accountCreated.accountCreated => rw [← h.2]; rfl
  case accountMetadataUpdated.accountMetadataUpdated => rw [← h.2.2]; rfl
  case transactionProcessed.transactionProcessed => rw [← h.2]; rfl
  all_goals rw [h]

theorem PartialEq.mapInstants {a b : LedgerEvent} (h : a.PartialEq b)
    (f : DateTime → DateTime) : (a.mapInstants f).PartialEq (b.mapInstants f) := by
  cases a <;> cases b <;> simp only [LedgerEvent.PartialEq] at h
  case accountCreated.accountCreated a b =>
    obtain ⟨hMeta, hRest⟩ := h
    cases a
    cases b
    cases hRest
    exact ⟨hMeta, rfl⟩
  case accountMetadataUpdated.accountMetadataUpdated a b =>
    obtain ⟨hOld, hNew, hRest⟩ := h
    cases a
    cases b
    cases hRest
    exact ⟨hOld, hNew, rfl⟩
  case transactionProcessed.transactionProcessed a b =>
    obtain ⟨hMeta, hRest⟩ := h
    cases a
    cases b
    cases hRest
    exact ⟨hMeta, rfl⟩
  all_goals
    subst h
    rfl

end LedgerEvent

/-- Equal metadata whose tags iterate alike is one metadata. -/
private theorem AccountMetadata.PartialEq.eq_of_tags {m n : AccountMetadata}
    (h : m.PartialEq n) (hTags : m.tags = n.tags) : m = n := by
  obtain ⟨hType, hCurrency, -, hFlags⟩ := h
  cases m
  cases n
  simp_all

private theorem TransactionMetadata.PartialEq.eq_of_tags {m n : TransactionMetadata}
    (h : m.PartialEq n) (hTags : m.tags = n.tags) : m = n := by
  obtain ⟨hReference, hDescription, -, hFlags⟩ := h
  cases m
  cases n
  simp_all

/-- Equal events whose tag maps iterate alike are one event. -/
theorem LedgerEvent.PartialEq.eq_of_tagMaps {a b : LedgerEvent}
    (h : a.PartialEq b) (hTags : a.tagMaps = b.tagMaps) : a = b := by
  cases a <;> cases b <;> simp only [LedgerEvent.PartialEq] at h
  case accountCreated.accountCreated a b =>
    obtain ⟨hMeta, hRest⟩ := h
    simp only [tagMaps, List.cons.injEq, and_true] at hTags
    rw [← hMeta.eq_of_tags hTags] at hRest
    exact congrArg _ hRest
  case accountMetadataUpdated.accountMetadataUpdated a b =>
    obtain ⟨hOld, hNew, hRest⟩ := h
    simp only [tagMaps, List.cons.injEq, and_true] at hTags
    rw [← hOld.eq_of_tags hTags.1, ← hNew.eq_of_tags hTags.2] at hRest
    exact congrArg _ hRest
  case transactionProcessed.transactionProcessed a b =>
    obtain ⟨hMeta, hRest⟩ := h
    simp only [tagMaps, List.cons.injEq, and_true] at hTags
    rw [← hMeta.eq_of_tags hTags] at hRest
    exact congrArg _ hRest
  all_goals exact congrArg _ h

theorem LedgerEvent.PartialEq.symm {a b : LedgerEvent} (h : a.PartialEq b) :
    b.PartialEq a := by
  cases a <;> cases b <;> simp only [LedgerEvent.PartialEq] at h ⊢
  case accountCreated.accountCreated a b =>
    obtain ⟨hMeta, hRest⟩ := h
    cases a
    cases b
    cases hRest
    exact ⟨hMeta.symm, rfl⟩
  case accountMetadataUpdated.accountMetadataUpdated a b =>
    obtain ⟨hOld, hNew, hRest⟩ := h
    cases a
    cases b
    cases hRest
    exact ⟨hOld.symm, hNew.symm, rfl⟩
  case transactionProcessed.transactionProcessed a b =>
    obtain ⟨hMeta, hRest⟩ := h
    cases a
    cases b
    cases hRest
    exact ⟨hMeta.symm, rfl⟩
  all_goals exact h.symm

theorem LedgerEvent.PartialEq.trans {a b c : LedgerEvent} (h : a.PartialEq b)
    (h' : b.PartialEq c) : a.PartialEq c := by
  cases a <;> cases b <;> simp only [LedgerEvent.PartialEq] at h <;>
    cases c <;> simp only [LedgerEvent.PartialEq] at h' ⊢
  case accountCreated.accountCreated.accountCreated a b c =>
    obtain ⟨hMeta, hRest⟩ := h
    cases a
    cases b
    cases hRest
    exact ⟨hMeta.trans h'.1, h'.2⟩
  case accountMetadataUpdated.accountMetadataUpdated.accountMetadataUpdated a b c =>
    obtain ⟨hOld, hNew, hRest⟩ := h
    cases a
    cases b
    cases hRest
    exact ⟨hOld.trans h'.1, hNew.trans h'.2.1, h'.2.2⟩
  case transactionProcessed.transactionProcessed.transactionProcessed a b c =>
    obtain ⟨hMeta, hRest⟩ := h
    cases a
    cases b
    cases hRest
    exact ⟨hMeta.trans h'.1, h'.2⟩
  all_goals exact h.trans h'

namespace EventEnvelope

/-- The derived `==`. -/
def PartialEq (e f : EventEnvelope) : Prop :=
  e.eventData.PartialEq f.eventData ∧ { e with eventData := f.eventData } = f

instance (e f : EventEnvelope) : Decidable (e.PartialEq f) :=
  inferInstanceAs (Decidable (_ ∧ _))

def tagMaps (e : EventEnvelope) : List Tags := e.eventData.tagMaps

def rehash (hs : Hashers) (e : EventEnvelope) : EventEnvelope :=
  { e with eventData := e.eventData.rehash hs }

@[simp] theorem rehash_eventId (hs : Hashers) (e : EventEnvelope) :
    (e.rehash hs).eventId = e.eventId := rfl

@[simp] theorem rehash_timestamp (hs : Hashers) (e : EventEnvelope) :
    (e.rehash hs).timestamp = e.timestamp := rfl

/-- Building the maps anew gives an equal envelope. -/
theorem rehash_partialEq (hs : Hashers) (e : EventEnvelope) :
    (e.rehash hs).PartialEq e :=
  ⟨e.eventData.rehash_partialEq hs, rfl⟩

theorem PartialEq.symm {e f : EventEnvelope} (h : e.PartialEq f) : f.PartialEq e := by
  obtain ⟨hData, hRest⟩ := h
  refine ⟨hData.symm, ?_⟩
  rw [← hRest]

theorem PartialEq.trans {e f g : EventEnvelope} (h : e.PartialEq f) (h' : f.PartialEq g) :
    e.PartialEq g := by
  obtain ⟨hData, hRest⟩ := h
  refine ⟨hData.trans h'.1, ?_⟩
  rw [← h'.2, ← hRest]

/-- Equal envelopes are one envelope exactly when their tag maps iterate
alike. -/
theorem PartialEq.eq_iff_tagMaps {e f : EventEnvelope} (h : e.PartialEq f) :
    e = f ↔ e.tagMaps = f.tagMaps := by
  constructor
  · intro hEq
    rw [hEq]
  · intro hTags
    obtain ⟨hData, hRest⟩ := h
    rw [← hRest, ← hData.eq_of_tagMaps hTags]

/-! ### Reading back -/

def instants (e : EventEnvelope) : List DateTime := e.timestamp :: e.eventData.instants

/-- The envelope with another reading for each instant. -/
def mapInstants (f : DateTime → DateTime) (e : EventEnvelope) : EventEnvelope :=
  { e with
    timestamp := f e.timestamp
    eventData := e.eventData.mapInstants f }

theorem instants_mapInstants (f : DateTime → DateTime) (e : EventEnvelope) :
    (e.mapInstants f).instants = e.instants.map f :=
  congrArg (f e.timestamp :: ·) (e.eventData.instants_mapInstants f)

theorem mapInstants_eq_self {f : DateTime → DateTime} {e : EventEnvelope}
    (h : ∀ t ∈ e.instants, f t = t) : e.mapInstants f = e := by
  obtain ⟨hTimestamp, hData⟩ := List.forall_mem_cons.mp h
  rw [mapInstants, hTimestamp, LedgerEvent.mapInstants_eq_self hData]

@[simp] theorem mapInstants_id (e : EventEnvelope) : e.mapInstants id = e :=
  mapInstants_eq_self fun _ _ => rfl

theorem PartialEq.instants_eq {e f : EventEnvelope} (h : e.PartialEq f) :
    e.instants = f.instants := by
  rw [instants, h.1.instants_eq, ← h.2, instants]

theorem PartialEq.mapInstants {e f : EventEnvelope} (h : e.PartialEq f)
    (g : DateTime → DateTime) : (e.mapInstants g).PartialEq (f.mapInstants g) := by
  obtain ⟨hData, hRest⟩ := h
  refine ⟨hData.mapInstants g, ?_⟩
  rw [← hRest]
  rfl

/-- The envelope that the texts of an envelope are read back to. -/
def readBack (e : EventEnvelope) : EventEnvelope := e.mapInstants DateTime.readBack

/-- No instant of the envelope shares its text with another one. -/
def Unambiguous (e : EventEnvelope) : Prop := ∀ t ∈ e.instants, t.Unambiguous

instance (e : EventEnvelope) : Decidable e.Unambiguous :=
  inferInstanceAs (Decidable (∀ t ∈ e.instants, t.Unambiguous))

theorem readBack_of_unambiguous {e : EventEnvelope} (h : e.Unambiguous) : e.readBack = e :=
  mapInstants_eq_self fun t ht => DateTime.readBack_of_unambiguous (h t ht)

theorem readBack_unambiguous (e : EventEnvelope) : e.readBack.Unambiguous := by
  intro t ht
  rw [readBack, instants_mapInstants] at ht
  obtain ⟨s, -, rfl⟩ := List.mem_map.mp ht
  exact s.readBack_unambiguous

@[simp] theorem readBack_readBack (e : EventEnvelope) : e.readBack.readBack = e.readBack :=
  readBack_of_unambiguous e.readBack_unambiguous

theorem PartialEq.readBack {e f : EventEnvelope} (h : e.PartialEq f) :
    e.readBack.PartialEq f.readBack :=
  h.mapInstants _

theorem PartialEq.unambiguous {e f : EventEnvelope} (h : e.PartialEq f) (hf : f.Unambiguous) :
    e.Unambiguous := by
  rwa [Unambiguous, h.instants_eq]

/-- Only unambiguous envelopes are read back equal. -/
theorem readBack_partialEq_iff (e : EventEnvelope) : e.readBack.PartialEq e ↔ e.Unambiguous := by
  constructor
  · intro h
    exact h.symm.unambiguous e.readBack_unambiguous
  · intro h
    rw [readBack_of_unambiguous h]
    exact (e.rehash_partialEq fun _ => .arrival).symm.trans (e.rehash_partialEq _)

/-- What a reader makes of a stored envelope: the instants as their texts are read back, and
every tag map built under the reader's own seed. -/
def reread (hs : Hashers) (e : EventEnvelope) : EventEnvelope := e.readBack.rehash hs

@[simp] theorem reread_eventId (hs : Hashers) (e : EventEnvelope) :
    (e.reread hs).eventId = e.eventId := rfl

@[simp] theorem reread_eventType (hs : Hashers) (e : EventEnvelope) :
    (e.reread hs).eventType = e.eventType := rfl

@[simp] theorem reread_timestamp (hs : Hashers) (e : EventEnvelope) :
    (e.reread hs).timestamp = e.timestamp.readBack := rfl

theorem reread_of_unambiguous {e : EventEnvelope} (h : e.Unambiguous) (hs : Hashers) :
    e.reread hs = e.rehash hs := by
  rw [reread, readBack_of_unambiguous h]

theorem reread_partialEq (hs : Hashers) (e : EventEnvelope) : (e.reread hs).PartialEq e.readBack :=
  e.readBack.rehash_partialEq hs

/-- Rereading changes nothing more. -/
theorem reread_unambiguous (hs : Hashers) (e : EventEnvelope) : (e.reread hs).Unambiguous :=
  (e.reread_partialEq hs).unambiguous e.readBack_unambiguous

theorem reread_partialEq_iff (hs : Hashers) (e : EventEnvelope) :
    (e.reread hs).PartialEq e ↔ e.Unambiguous := by
  rw [← readBack_partialEq_iff]
  exact ⟨(e.reread_partialEq hs).symm.trans, (e.reread_partialEq hs).trans⟩

end EventEnvelope

end LedgerFS.Core
