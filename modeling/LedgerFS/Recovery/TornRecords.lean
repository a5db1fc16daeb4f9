import LedgerFS.EventStore.TornRecords
import LedgerFS.Recovery.Coverage

/-!
# Recovery of torn records

The first scan of a recovery reads the first thousand records and one more.  On an
uncompressed store it fails as soon as one of them has lost a byte, with the error of a
torn record; and no read passes a torn record on as an event (`tornRecords_noticed`).
-/

namespace LedgerFS.Recovery

open LedgerFS.Core
open LedgerFS.EventStore
open LedgerFS.Library

section Scans

variable {C : Crates} {store : EventStore}

/-- A scan that goes through has met no torn record. -/
theorem whole_of_scan {env : CallEnv} (hQuiet : env.scanFault = none) {db damaged : RocksDb}
    (hRecords : List.Forall₂ (fun record torn => torn.1 = record.1 ∧
      WholeOrTorn C store .quiet (.ok record) (.ok torn)) db.contents.toList
        damaged.contents.toList) {events : List EventEnvelope}
    (hOk : scan C store env none damaged = .ok events) :
    damaged.contents.toList.take 1001 = db.contents.toList.take 1001 := by
  have hReadable : ∀ record ∈ damaged.contents.toList.take 1001,
      Readable C store record := by
    rw [scan_eq hQuiet] at hOk
    cases hDecoded : decodeAll C store env (damaged.contents.toList.take 1001) with
    | error error =>
        change Except.map _ (decodeAll C store env
          (damaged.contents.toList.take 1001)) = _ at hOk
        rw [hDecoded] at hOk
        cases hOk
    | ok all => exact readable_of_decodeAll hDecoded
  have hFirst := List.forall₂_take 1001 hRecords
  generalize db.contents.toList.take 1001 = records at hFirst
  generalize damaged.contents.toList.take 1001 = torn at hFirst hReadable
  induction hFirst with
  | nil => rfl
  | cons hHere _ ih =>
      obtain ⟨⟨e, hOk⟩, hRest⟩ := List.forall_mem_cons.mp hReadable
      rcases hHere.2 with hWhole | hTorn
      · rw [Except.ok.inj hWhole, ih hRest]
      · cases hOk.symm.trans hTorn

end Scans

/-- **Torn records are noticed**: after any loss of bytes at the ends of any values of an
uncompressed store no read returns anything but what it returns on the whole store or
the one error, and a recovery fails with it as soon as one of the first 1001 records has
lost a byte. -/
theorem tornRecords_noticed (C : Crates) (hTime : C.TimeTextReadsBack)
    (hDecodes : C.Lz4DecodesBack) (store : EventStore)
    (hPlain : store.serializer.useCompression = false) (h : History)
    (hReach : Reachable C store AnyCall .empty h) (damaged : RocksDb)
    (hTorn : Torn h.db.contents damaged.contents) :
    FailStop C store h.db damaged ∧
      ∀ (kindText : Bincode.ErrorKind → String) (timeText : DateTime → String)
        (env : RecoveryEnv) (options : RecoveryOptions), env.Quiet →
        damaged.contents.toList.take 1001 ≠ h.db.contents.toList.take 1001 →
        recover C store kindText timeText env options damaged =
          .error (.consistencyCheckFailed ("Database integrity check failed: Serialization " ++
            "error: Serialization failed: " ++ kindText .io)) := by
  have hFailStop := failStop_of_torn hTime hPlain hReach hTorn
  refine ⟨hFailStop, ?_⟩
  intro kindText timeText env options hQuiet hDiffer
  have hScan : AgreesOrFails (scan C store env.integrity none h.db)
      (scan C store env.integrity none damaged) :=
    (hFailStop.queried env.integrity (.unfiltered none none)).bind _
  rcases hScan with hSame | hFails
  · -- then the first 1001 records are readable, and so none of them is torn
    obtain ⟨stored, hStored⟩ := exists_stored hTime hDecodes env.integrity hReach
    rw [scan_of_stored hQuiet.integrity hStored none] at hSame
    exact absurd (whole_of_scan hQuiet.integrity
      (wholeOrTorn_of_torn hTime hPlain hReach hTorn .quiet) hSame) hDiffer
  · rw [recover_of_unreadable kindText timeText hFails]
    rfl

/-- One event in a store for development, whose record has lost all its bytes. -/
theorem tornRecords_noticed_test :
    let store := new EventStoreConfig.default.development
    let e := createTestEnvelope ⟨Uuid.fromU128 1⟩ ⟨Uuid.fromU128 2⟩ DateTime.epoch
    ∃ (h : History) (damaged : RocksDb), h.acked = [.appendEvent e] ∧
      Torn h.db.contents damaged.contents ∧
      recover Crates.sample store (fun _ => "") (fun _ => "") (.still newYear2026) .default
          damaged =
        .error (.consistencyCheckFailed
          "Database integrity check failed: Serialization error: Serialization failed: ") := by
  intro store e
  have hStart : Reachable Crates.sample store AnyCall .empty (.started .empty) := .refl
  obtain ⟨batch, hAccepts, hReach⟩ := hStart.extend Crates.sample_lz4Encodes (.appendEvent e)
    trivial (List.cons_ne_nil e []) (fun _ _ => rfl)
  obtain ⟨record, _, hRecord, hRest, rfl⟩ := List.forall₂_cons_left_iff.mp hAccepts.records
  cases hRest
  have hOne : ∀ value, ((∅ : Contents).insert record.1 value).toList = [(record.1, value)] :=
    fun _ => rfl
  let whole : History := ⟨RocksDb.empty.write [record] false, [.appendEvent e]⟩
  let damaged : RocksDb := .opened ((∅ : Contents).insert record.1 [])
  have hTorn : Torn whole.db.contents damaged.contents := by
    show List.Forall₂ _ ((∅ : Contents).insert record.1 record.2).toList
      ((∅ : Contents).insert record.1 []).toList
    rw [hOne, hOne]
    exact .cons ⟨rfl, List.nil_prefix⟩ .nil
  refine ⟨whole, damaged, rfl, hTorn, ?_⟩
  apply (tornRecords_noticed Crates.sample Crates.sample_timeTextReadsBack
    Crates.sample_lz4DecodesBack store rfl whole hReach damaged hTorn).2 (fun _ => "")
    (fun _ => "") (.still newYear2026) .default (RecoveryEnv.still_quiet _)
  intro hSame
  change ((∅ : Contents).insert record.1 []).toList.take 1001 =
    ((∅ : Contents).insert record.1 record.2).toList.take 1001 at hSame
  rw [hOne, hOne] at hSame
  have hEmpty : [] = record.2 := (Prod.mk.inj (List.cons.inj hSame).1).2
  -- the stored form begins with the length of the event id
  have hEncoded : (Bincode.eventEnvelope Crates.sample).encode e = record.2 :=
    Except.ok.inj hRecord.2
  rw [← hEmpty] at hEncoded
  cases (List.append_eq_nil_iff.mp (List.append_eq_nil_iff.mp hEncoded).1).1

end LedgerFS.Recovery
