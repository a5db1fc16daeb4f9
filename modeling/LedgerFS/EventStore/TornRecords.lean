import LedgerFS.EventStore.Query
import LedgerFS.Library.Truncation

/-!
# Torn records

Values that have lost bytes at their end, in a store that does not compress.  The reader of
envelopes reads every stored form and is incremental, so every proper beginning of a
record is refused as too short and none is read as another event.

The scans decode before they do anything else with an item.  So on a store with torn
records every read answers as on the whole one, or fails with that one error
(`failStop_of_torn`).
-/

namespace LedgerFS.EventStore

open LedgerFS.Core
open LedgerFS.Library
open LedgerFS.Library.WireFormat

/-! ## The readers are incremental -/

namespace Bincode

theorem byteBuf_incremental : Incremental ErrorKind.io byteBuf :=
  (Incremental.word ErrorKind.io 8).bind fun n => Incremental.takeBytes ErrorKind.io n

theorem u64_incremental : Incremental ErrorKind.io u64.decode :=
  (Incremental.word ErrorKind.io 8).map _

theorem string_incremental : Incremental ErrorKind.io string.decode :=
  byteBuf_incremental.checked _ _

theorem uuid_incremental : Incremental ErrorKind.io uuid.decode := byteBuf_incremental.checked _ _

theorem opt_incremental {α : Type} {fmt : Fmt α} (h : Incremental ErrorKind.io fmt.decode) :
    Incremental ErrorKind.io (opt fmt).decode :=
  Incremental.option _ _ h

theorem items_incremental {α : Type} {fmt : Fmt α} (h : Incremental ErrorKind.io fmt.decode) :
    Incremental ErrorKind.io (items fmt) :=
  (Incremental.word ErrorKind.io 8).bind fun n => h.replicateM n

theorem vec_incremental {α : Type} {fmt : Fmt α} (h : Incremental ErrorKind.io fmt.decode) :
    Incremental ErrorKind.io (vec fmt).decode :=
  (items_incremental h).checked _ _

theorem tags_incremental : Incremental ErrorKind.io tags.decode :=
  (items_incremental (string_incremental.pair string_incremental)).checked _ _

theorem amount_incremental : Incremental ErrorKind.io amount.decode :=
  (u64_incremental.wrap _ _).wrap _ _

theorem accountMetadata_incremental : Incremental ErrorKind.io accountMetadata.decode :=
  (Incremental.enumeration _ _ 4 _ _).bind fun _ =>
    (string_incremental.wrap _ _).bind fun _ =>
      tags_incremental.bind fun _ => (vec_incremental string_incremental).map _

theorem transactionMetadata_incremental : Incremental ErrorKind.io transactionMetadata.decode :=
  (opt_incremental string_incremental).bind fun _ =>
    (opt_incremental string_incremental).bind fun _ =>
      tags_incremental.bind fun _ => (vec_incremental string_incremental).map _

variable (C : Crates)

theorem dateTime_incremental : Incremental ErrorKind.io (dateTime C).decode :=
  string_incremental.checked _ _

theorem ledgerDigest_incremental : Incremental ErrorKind.io (ledgerDigest C).decode :=
  string_incremental.bind fun _ =>
    u64_incremental.bind fun _ =>
      (dateTime_incremental C).bind fun _ => u64_incremental.map _

theorem accountCreatedEvent_incremental :
    Incremental ErrorKind.io (accountCreatedEvent C).decode :=
  (uuid_incremental.wrap _ _).bind fun _ =>
    (Incremental.enumeration _ _ 4 _ _).bind fun _ =>
      (string_incremental.wrap _ _).bind fun _ =>
        amount_incremental.bind fun _ =>
          accountMetadata_incremental.bind fun _ => (dateTime_incremental C).map _

theorem accountStatusChangedEvent_incremental :
    Incremental ErrorKind.io (accountStatusChangedEvent C).decode :=
  (uuid_incremental.wrap _ _).bind fun _ =>
    (Incremental.enumeration _ _ 4 _ _).bind fun _ =>
      (Incremental.enumeration _ _ 4 _ _).bind fun _ =>
        (opt_incremental string_incremental).bind fun _ => (dateTime_incremental C).map _

theorem accountMetadataUpdatedEvent_incremental :
    Incremental ErrorKind.io (accountMetadataUpdatedEvent C).decode :=
  (uuid_incremental.wrap _ _).bind fun _ =>
    accountMetadata_incremental.bind fun _ =>
      accountMetadata_incremental.bind fun _ => (dateTime_incremental C).map _

theorem transactionProcessedEvent_incremental :
    Incremental ErrorKind.io (transactionProcessedEvent C).decode :=
  (uuid_incremental.wrap _ _).bind fun _ =>
    (Incremental.enumeration _ _ 4 _ _).bind fun _ =>
      (opt_incremental (uuid_incremental.wrap _ _)).bind fun _ =>
        (opt_incremental (uuid_incremental.wrap _ _)).bind fun _ =>
          amount_incremental.bind fun _ =>
            (string_incremental.wrap _ _).bind fun _ =>
              transactionMetadata_incremental.bind fun _ => (dateTime_incremental C).map _

theorem balanceUpdatedEvent_incremental :
    Incremental ErrorKind.io (balanceUpdatedEvent C).decode :=
  (uuid_incremental.wrap _ _).bind fun _ =>
    amount_incremental.bind fun _ =>
      amount_incremental.bind fun _ =>
        (string_incremental.wrap _ _).bind fun _ =>
          (opt_incremental (uuid_incremental.wrap _ _)).bind fun _ =>
            (dateTime_incremental C).map _

theorem merkleRootGeneratedEvent_incremental :
    Incremental ErrorKind.io (merkleRootGeneratedEvent C).decode :=
  u64_incremental.bind fun _ =>
    string_incremental.bind fun _ =>
      u64_incremental.bind fun _ =>
        (opt_incremental string_incremental).bind fun _ => (dateTime_incremental C).map _

theorem digestPublishedEvent_incremental :
    Incremental ErrorKind.io (digestPublishedEvent C).decode :=
  (ledgerDigest_incremental C).bind fun _ =>
    string_incremental.bind fun _ => (dateTime_incremental C).map _

/-- The branch depends on the variant index alone, which has been read. -/
theorem ledgerEvent_incremental : Incremental ErrorKind.io (ledgerEvent C).decode := by
  refine (Incremental.word ErrorKind.io 4).bind fun tag => ?_
  match tag with
  | 0 => exact (accountCreatedEvent_incremental C).map _
  | 1 => exact (accountStatusChangedEvent_incremental C).map _
  | 2 => exact (accountMetadataUpdatedEvent_incremental C).map _
  | 3 => exact (transactionProcessedEvent_incremental C).map _
  | 4 => exact (balanceUpdatedEvent_incremental C).map _
  | 5 => exact (merkleRootGeneratedEvent_incremental C).map _
  | 6 => exact (digestPublishedEvent_incremental C).map _
  | _ + 7 => exact Incremental.throw _

theorem eventMetadata_incremental : Incremental ErrorKind.io eventMetadata.decode :=
  (opt_incremental string_incremental).bind fun _ =>
    (opt_incremental string_incremental).bind fun _ =>
      (opt_incremental string_incremental).bind fun _ => string_incremental.map _

theorem eventEnvelope_incremental : Incremental ErrorKind.io (eventEnvelope C).decode :=
  (uuid_incremental.wrap _ _).bind fun _ =>
    string_incremental.bind fun _ =>
      string_incremental.bind fun _ =>
        u64_incremental.bind fun _ =>
          (dateTime_incremental C).bind fun _ =>
            (ledgerEvent_incremental C).bind fun _ => eventMetadata_incremental.map _

variable {C}

/-- **A torn envelope is refused**, wherever it was cut. -/
theorem deserialize_truncated (hTime : C.TimeTextReadsBack) (e : EventEnvelope) {n : Nat}
    (hn : n < ((eventEnvelope C).encode e).length) :
    deserialize C (((eventEnvelope C).encode e).take n) = .error .io := by
  rw [deserialize,
    (eventEnvelope_readsAs hTime.parses).truncated (eventEnvelope_incremental C) e hn]
  rfl

end Bincode

/-! ## Scans over torn records -/

/-- The error of a torn record. -/
def tornError : EventStoreError := .serializationError (.serializationFailed .io)

/-- The keys are the same, and each value is a beginning of what it was. -/
def Torn (contents damaged : Contents) : Prop :=
  List.Forall₂ (fun record torn => torn.1 = record.1 ∧ torn.2 <+: record.2)
    contents.toList damaged.toList

section Scans

variable (C : Crates) (store : EventStore)

/-- An item that is whole, or is refused as torn. -/
def WholeOrTorn (env : CallEnv) (item torn : Except RocksDbError (Bytes × Bytes)) : Prop :=
  torn = item ∨ decodeItem C store env torn = .error tornError

/-- The answer on the whole store, or the error of a torn record. -/
def AgreesOrFails {α : Type} (whole torn : Except EventStoreError α) : Prop :=
  torn = whole ∨ torn = .error tornError

variable {C store}

/-- What a scan makes of its answer does not matter. -/
theorem AgreesOrFails.bind {α β : Type} {whole torn : Except EventStoreError α}
    (h : AgreesOrFails whole torn) (f : α → Except EventStoreError β) :
    AgreesOrFails (whole >>= f) (torn >>= f) := by
  rcases h with rfl | rfl
  · exact Or.inl rfl
  · exact Or.inr rfl

/-- A beginning of a record is the record, or torn. -/
theorem wholeOrTorn_of_record (hTime : C.TimeTextReadsBack)
    (hPlain : store.serializer.useCompression = false) (env : CallEnv) {e : EventEnvelope}
    {record torn : Bytes × Bytes} (hRecord : IsRecord C store e record)
    (hTorn : torn.1 = record.1 ∧ torn.2 <+: record.2) :
    WholeOrTorn C store env (.ok record) (.ok torn) := by
  have hValue : record.2 = (Bincode.eventEnvelope C).encode e := by
    have hSerialized := hRecord.2
    rw [EventSerializer.serialize_eq, hPlain, if_neg Bool.false_ne_true] at hSerialized
    exact (Except.ok.inj hSerialized).symm
  have hCut := List.prefix_iff_eq_take.mp hTorn.2
  by_cases hAll : torn.2.length = record.2.length
  · rw [hAll, List.take_length] at hCut
    exact Or.inl (congrArg Except.ok (Prod.ext hTorn.1 hCut))
  · have hShort : torn.2.length < record.2.length :=
      lt_of_le_of_ne hTorn.2.length_le hAll
    refine Or.inr ?_
    rw [hValue] at hCut hShort
    show (store.serializer.deserialize C (env.seeds torn.2) torn.2).mapError _ = _
    rw [EventSerializer.deserialize, hPlain, if_neg Bool.false_ne_true]
    show ((Bincode.deserialize C torn.2).mapError _ >>= _).mapError _ = _
    rw [hCut, Bincode.deserialize_truncated hTime e hShort]
    rfl

section Loops

variable {env : CallEnv} {items torn : List (Except RocksDbError (Bytes × Bytes))}

/-- A torn item fails the scan, whatever it would do with the event. -/
theorem AgreesOrFails.of_item {α : Type} {item torn : Except RocksDbError (Bytes × Bytes)}
    (h : WholeOrTorn C store env item torn)
    {next next' : EventEnvelope → Except EventStoreError α}
    (hNext : ∀ e, AgreesOrFails (next e) (next' e)) :
    AgreesOrFails (decodeItem C store env item >>= next)
      (decodeItem C store env torn >>= next') := by
  rcases h with rfl | hTorn
  · cases decodeItem C store env torn with
    | ok e => exact hNext e
    | error error => exact Or.inl rfl
  · rw [hTorn]
    exact Or.inr rfl

theorem findEvent_torn (eventId : EventId)
    (h : List.Forall₂ (WholeOrTorn C store env) items torn) :
    AgreesOrFails (findEvent C store env eventId items) (findEvent C store env eventId torn) := by
  induction h with
  | nil => exact Or.inl rfl
  | cons hItem _ ih =>
      refine AgreesOrFails.of_item hItem fun e => ?_
      by_cases hFound : e.eventId = eventId
      · rw [if_pos hFound, if_pos hFound]
        exact Or.inl rfl
      · rw [if_neg hFound, if_neg hFound]
        exact ih

theorem queryLoop_torn (query : EventQuery) (limit offset : Nat)
    (h : List.Forall₂ (WholeOrTorn C store env) items torn) (events : List EventEnvelope)
    (count : Nat) :
    AgreesOrFails (queryLoop C store env query limit offset items events count)
      (queryLoop C store env query limit offset torn events count) := by
  induction h generalizing events count with
  | nil => exact Or.inl rfl
  | cons hItem _ ih =>
      refine AgreesOrFails.of_item hItem fun e => ?_
      -- the tests are about the event alone
      split_ifs
      · exact ih events count
      · exact Or.inl rfl
      · exact ih events count
      · exact ih events (count + 1)
      · exact Or.inl rfl
      · exact ih (events ++ [e]) (count + 1)

theorem mapM_torn (h : List.Forall₂ (WholeOrTorn C store env) items torn) :
    AgreesOrFails (items.mapM (decodeItem C store env)) (torn.mapM (decodeItem C store env)) := by
  induction h with
  | nil => exact Or.inl rfl
  | cons hItem _ ih =>
      rw [List.mapM_cons, List.mapM_cons]
      exact AgreesOrFails.of_item hItem fun e => ih.bind _

theorem statisticsLoop_torn (h : List.Forall₂ (WholeOrTorn C store env) items torn)
    (stats : EventStoreStatistics) :
    AgreesOrFails (statisticsLoop C store env items stats)
      (statisticsLoop C store env torn stats) := by
  induction h generalizing stats with
  | nil => exact Or.inl rfl
  | cons hItem _ ih => exact AgreesOrFails.of_item hItem fun e => ih _

end Loops

/-- The items of an iterator over torn records, in any mode. -/
theorem iterator_torn {env : CallEnv} {db damaged : RocksDb}
    (hRecords : List.Forall₂ (fun record torn => torn.1 = record.1 ∧
      WholeOrTorn C store env (.ok record) (.ok torn)) db.contents.toList
        damaged.contents.toList) (mode : IteratorMode) :
    List.Forall₂ (WholeOrTorn C store env) (db.iterator env mode) (damaged.iterator env mode) :=
  RocksDb.forall₂_iterator hRecords (fun _ => Or.inl rfl) rfl mode

/-- The records of a store built by a run, against what is left of them. -/
theorem wholeOrTorn_of_torn (hTime : C.TimeTextReadsBack)
    (hPlain : store.serializer.useCompression = false) {h : History}
    (hReach : Reachable C store AnyCall .empty h) {damaged : RocksDb}
    (hTorn : Torn h.db.contents damaged.contents) (env : CallEnv) :
    List.Forall₂ (fun record torn => torn.1 = record.1 ∧
      WholeOrTorn C store env (.ok record) (.ok torn)) h.db.contents.toList
        damaged.contents.toList := by
  have hAll := hReach.acknowledged
  unfold Torn at hTorn
  generalize h.db.contents.toList = records at hAll hTorn
  generalize damaged.contents.toList = torn at hTorn
  induction hTorn with
  | nil => exact .nil
  | cons hHere _ ih =>
      obtain ⟨⟨e, -, hRecord⟩, hRest⟩ := List.forall_mem_cons.mp hAll
      exact .cons ⟨hHere.1, wholeOrTorn_of_record hTime hPlain env hRecord hHere⟩ (ih hRest)

/-! ## The methods -/

variable (C store)

/-- Every read answers as on the whole store, or fails with the error of a torn record. -/
structure FailStop (db damaged : RocksDb) : Prop where
  found : ∀ env eventId,
    AgreesOrFails (store.getEvent C env eventId db) (store.getEvent C env eventId damaged)
  queried : ∀ env query,
    AgreesOrFails (store.queryEvents C env query db) (store.queryEvents C env query damaged)
  ofAccount : ∀ env accountId, AgreesOrFails (store.getAccountEvents C env accountId db)
    (store.getAccountEvents C env accountId damaged)
  inRange : ∀ env startTime endTime,
    AgreesOrFails (store.getEventsInRange C env startTime endTime db)
      (store.getEventsInRange C env startTime endTime damaged)
  latest : ∀ env limit,
    AgreesOrFails (store.getLatestEvents C env limit db)
      (store.getLatestEvents C env limit damaged)
  counted : ∀ env,
    AgreesOrFails (store.getStatistics C env db) (store.getStatistics C env damaged)

variable {C store}

theorem failStop_of_records {db damaged : RocksDb}
    (hRecords : ∀ env, List.Forall₂ (fun record torn => torn.1 = record.1 ∧
      WholeOrTorn C store env (.ok record) (.ok torn)) db.contents.toList
        damaged.contents.toList) : FailStop C store db damaged := by
  have hQuery (env : CallEnv) (query : EventQuery) :
      AgreesOrFails (store.queryEvents C env query db)
        (store.queryEvents C env query damaged) :=
    (queryLoop_torn query _ _ (iterator_torn (hRecords env) _) [] 0).bind _
  constructor
  · intro env eventId
    exact findEvent_torn eventId (iterator_torn (hRecords env) _)
  · exact hQuery
  · intro env accountId
    exact (hQuery env _).bind _
  · intro env startTime endTime
    exact (hQuery env _).bind _
  · intro env limit
    exact (mapM_torn (List.forall₂_take limit (iterator_torn (hRecords env) _))).bind _
  · intro env
    exact statisticsLoop_torn (iterator_torn (hRecords env) _) _

/-- **Torn records fail-stop**: after any loss of bytes at the ends of any values no method
returns anything but what it returns on the whole store, or the one error. -/
theorem failStop_of_torn (hTime : C.TimeTextReadsBack)
    (hPlain : store.serializer.useCompression = false) {h : History}
    (hReach : Reachable C store AnyCall .empty h) {damaged : RocksDb}
    (hTorn : Torn h.db.contents damaged.contents) : FailStop C store h.db damaged :=
  failStop_of_records (wholeOrTorn_of_torn hTime hPlain hReach hTorn)

end Scans

end LedgerFS.EventStore
