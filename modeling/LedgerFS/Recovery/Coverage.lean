import LedgerFS.EventStore.AppendOrder
import LedgerFS.Recovery.Scan

/-!
# What a recovery covers

No pass asks for a limit when all events are to be checked, and a query without a
limit returns a thousand events.  So the passes go over the whole store exactly up
to a thousand events (`recovery_covers_iff`).

The first pass reads the events before anything is validated, and an event that
cannot be read fails it: a recovery is `Ok` exactly when every record its scans
reach decodes (`recovery_of_contents`).
-/

namespace LedgerFS.Recovery

open LedgerFS.Core
open LedgerFS.EventStore

/-- Without a maximum the validation pass has no limit. -/
theorem eventLimit_of_all {options : RecoveryOptions} (hMax : options.maxEventsToCheck = 0) :
    eventLimit options = none := by
  rw [eventLimit, hMax]
  rfl

/-- What each pass would find if it went over all records. -/
theorem exists_stored_of_each {C : Crates} (hTime : C.TimeTextReadsBack)
    (hDecodes : C.Lz4DecodesBack) {store : EventStore} {h : History}
    (hReach : Reachable C store AnyCall .empty h) :
    ∃ stored : CallEnv → List EventEnvelope,
      ∀ pass, StoredEvents C store pass h.db.contents (stored pass) := by
  obtain ⟨events, hEvents⟩ := exists_stored hTime hDecodes .quiet hReach
  exact exists_stored_of_readable (readable_of_decodeAll (decodeAll_eq_ok hEvents))

theorem length_of_stored {C : Crates} {store : EventStore} {env : CallEnv} {contents : Contents}
    {stored : List EventEnvelope} (h : StoredEvents C store env contents stored) :
    stored.length = contents.size := by
  rw [← h.length_eq, Std.ExtTreeMap.length_toList]

/-- What the passes of a deep check go over, and what they count on the way. -/
structure GoesOver (C : Crates) (store : EventStore) (timeText : DateTime → String)
    (env : RecoveryEnv) (options : RecoveryOptions) (db : RocksDb) (stats : RecoveryStats)
    (validated replayed compared : List EventEnvelope) : Prop where
  validates : scan C store env.events (eventLimit options) db = .ok validated
  replays : scan C store env.balances none db = .ok replayed
  compares : scan C store env.temporal none db = .ok compared
  corrupted : stats.corruptedEventsFound = failures timeText env.clock validated 0
  inconsistent : stats.consistencyErrors =
    (Replay.run replayed).errors + setbacks compared none

theorem goesOver_of_stored {C : Crates} {store : EventStore} {kindText : Bincode.ErrorKind → String}
    {timeText : DateTime → String} {env : RecoveryEnv} (hQuiet : env.Quiet)
    {options : RecoveryOptions} (hDeep : options.deepCheck = true)
    (hMax : options.maxEventsToCheck = 0) {db : RocksDb}
    {stored : CallEnv → List EventEnvelope}
    (hStored : ∀ pass, StoredEvents C store pass db.contents (stored pass))
    {stats : RecoveryStats}
    (hOk : recover C store kindText timeText env options db = .ok stats) :
    GoesOver C store timeText env options db stats ((stored env.events).take 1000)
      ((stored env.balances).take 1000) ((stored env.temporal).take 1000) := by
  have hLimit : (eventLimit options).getD 1000 = 1000 := by
    rw [eventLimit_of_all hMax]
    rfl
  cases (recover_of_stored kindText timeText hQuiet options hStored).symm.trans hOk
  rw [hLimit]
  exact
    { validates := hLimit ▸ scan_of_stored hQuiet.events (hStored _) (eventLimit options)
      replays := scan_of_stored hQuiet.balances (hStored _) none
      compares := scan_of_stored hQuiet.temporal (hStored _) none
      corrupted := if_pos hDeep
      inconsistent := rfl }

/-- **What a deep check covers**: each of its passes goes over all stored events, all that
fail validation are counted, and so are all errors of their replay and all their setbacks,
exactly up to a thousand events. -/
theorem recovery_covers_iff (C : Crates) (hTime : C.TimeTextReadsBack)
    (hDecodes : C.Lz4DecodesBack) (store : EventStore) (kindText : Bincode.ErrorKind → String)
    (timeText : DateTime → String) (h : History) (hReach : Reachable C store AnyCall .empty h)
    (env : RecoveryEnv) (hQuiet : env.Quiet) (options : RecoveryOptions)
    (hDeep : options.deepCheck = true) (hMax : options.maxEventsToCheck = 0) :
    ∃ (stored : CallEnv → List EventEnvelope) (stats : RecoveryStats)
      (validated replayed compared : List EventEnvelope),
      (∀ pass, StoredEvents C store pass h.db.contents (stored pass)) ∧
      recover C store kindText timeText env options h.db = .ok stats ∧
      GoesOver C store timeText env options h.db stats validated replayed compared ∧
      ((validated = stored env.events ∧ replayed = stored env.balances ∧
          compared = stored env.temporal ∧
          stats.corruptedEventsFound = failures timeText env.clock (stored env.events) 0 ∧
          stats.consistencyErrors = (Replay.run (stored env.balances)).errors +
            setbacks (stored env.temporal) none) ↔
        h.db.contents.size ≤ 1000) := by
  obtain ⟨stored, hStored⟩ := exists_stored_of_each hTime hDecodes hReach
  obtain ⟨stats, hOk⟩ : ∃ stats, recover C store kindText timeText env options h.db = .ok stats :=
    ⟨_, recover_of_stored kindText timeText hQuiet options hStored⟩
  have hOver := goesOver_of_stored hQuiet hDeep hMax hStored hOk
  refine ⟨stored, stats, _, _, _, hStored, hOk, hOver, ?_⟩
  have hWhole (pass : CallEnv) :
      (stored pass).take 1000 = stored pass ↔ h.db.contents.size ≤ 1000 := by
    rw [← length_of_stored (hStored pass)]
    exact List.take_eq_self_iff _
  constructor
  · rintro ⟨hValidated, -⟩
    exact (hWhole _).mp hValidated
  · intro hFew
    have hAll (pass : CallEnv) : (stored pass).take 1000 = stored pass := (hWhole pass).mpr hFew
    refine ⟨hAll _, hAll _, hAll _, ?_, ?_⟩
    · rw [hOver.corrupted]
      exact congrArg (failures timeText env.clock · 0) (hAll env.events)
    · rw [hOver.inconsistent, hAll, hAll]

/-- The beginning of 2026. -/
def newYear2026 : ClockReading where
  time := ⟨1767225600, 0, by decide, by decide, DateTime.epoch.frac_lt⟩
  sinceEpoch := by decide
  nonLeap := by decide

theorem epoch_before_2016 : DateTime.epoch < newYear2026.tenYearsAgo := by
  rw [DateTime.lt_iff]
  decide

/-- Accounts are created without an error. -/
theorem Replay.errors_of_created {events : List EventEnvelope}
    (h : ∀ e ∈ events, ∃ created, e.eventData = .accountCreated created) :
    (Replay.run events).errors = 0 := by
  induction events using List.reverseRecOn with
  | nil => rfl
  | append_singleton events e ih =>
      obtain ⟨created, hCreated⟩ := h e (by simp)
      have hRun : Replay.run (events ++ [e]) = (Replay.run events).step e := by
        rw [Replay.run, List.foldl_append]
        rfl
      rw [hRun, Replay.step, hCreated]
      exact ih fun f hf => h f (List.mem_append_left _ hf)

/-- So many test events of 1970, appended at once. -/
theorem exists_testEvents {n : Nat} (h : n + 1 ≤ 2 ^ 128) :
    ∃ h : History, Reachable Crates.sample (new .default) AnyCall .empty h ∧
      h.db.contents.size = n + 1 ∧
      ∀ (env : CallEnv) (stored : List EventEnvelope),
        StoredEvents Crates.sample (new .default) env h.db.contents stored →
        ∀ f ∈ stored, f.timestamp = DateTime.epoch ∧
          ∃ created, f.eventData = .accountCreated created := by
  obtain ⟨envelopes, hLength, hIds, hEnvelopes⟩ := exists_testEnvelopes ⟨Uuid.fromU128 1⟩
    DateTime.epoch h
  obtain ⟨h, hAcked, hReach, -⟩ := exists_history Crates.sample_lz4Encodes (new .default)
    DistinctIds (.appendEvents envelopes) hIds
    (List.ne_nil_of_length_pos (by simp [Call.envelopes, hLength])) (nodup_keys_of_ids hIds)
  have hAcknowledged : h.ackedEvents = envelopes := by
    rw [History.ackedEvents, hAcked, List.flatMap_singleton]
    rfl
  refine ⟨h, hReach.mono fun _ => trivial, ?_, fun env stored hStored f hf => ?_⟩
  · rw [hReach.size_eq, hAcknowledged, hLength]
  · obtain ⟨e, he, hs, rfl⟩ := hStored.acknowledged Crates.sample_timeTextReadsBack
      Crates.sample_lz4DecodesBack hReach hf
    rw [hAcknowledged] at he
    obtain ⟨eventId, rfl⟩ := hEnvelopes e he
    exact ⟨rfl, _, rfl⟩

/-- They are all too old. -/
theorem failures_of_testEvents {stored : List EventEnvelope}
    (h : ∀ f ∈ stored, f.timestamp = DateTime.epoch) :
    failures (fun _ => "") (fun _ => newYear2026) stored 0 = stored.length := by
  apply failures_of_invalid
  intro f hf _
  exact isOk_of_old _ (h f hf ▸ epoch_before_2016)

/-- A thousand events of one instant in 1970, checked in 2026: all are counted. -/
theorem recovery_covers_test :
    ∃ (h : History) (stats : RecoveryStats), h.db.contents.size = 1000 ∧
      recover Crates.sample (new .default) (fun _ => "") (fun _ => "") (.still newYear2026)
        .default h.db = .ok stats ∧
      stats.corruptedEventsFound = 1000 ∧ stats.consistencyErrors = 0 := by
  obtain ⟨h, hReach, hSize, hEach⟩ := exists_testEvents (show 999 + 1 ≤ 2 ^ 128 by decide)
  obtain ⟨stored, stats, _, _, _, hStored, hOk, -, hCovers⟩ := recovery_covers_iff Crates.sample
    Crates.sample_timeTextReadsBack Crates.sample_lz4DecodesBack (new .default) (fun _ => "")
    (fun _ => "") h hReach (.still newYear2026) (RecoveryEnv.still_quiet _) .default rfl rfl
  obtain ⟨-, -, -, hCount, hErrors⟩ := hCovers.mpr (by omega)
  have hEpoch : ∀ f ∈ stored .quiet, f.timestamp = DateTime.epoch :=
    fun f hf => (hEach .quiet _ (hStored _) f hf).1
  refine ⟨h, stats, hSize, hOk, ?_, ?_⟩
  · rw [hCount]
    exact (failures_of_testEvents hEpoch).trans ((length_of_stored (hStored _)).trans hSize)
  · have hReplay := Replay.errors_of_created fun f hf => (hEach .quiet _ (hStored _) f hf).2
    have hTemporal : setbacks (stored .quiet) none = 0 := by
      rw [setbacks_eq_zero_iff]
      refine ⟨by simp, List.pairwise_of_forall_mem_list fun e he f hf => ?_⟩
      rw [hEpoch e he, hEpoch f hf]
    rw [hErrors]
    exact Nat.add_eq_zero_iff.mpr ⟨hReplay, hTemporal⟩

/-- A thousand and one events of 1970, checked in 2026: one of them is not
counted. -/
theorem recovery_truncated :
    ¬ ∀ (h : History) (stored : CallEnv → List EventEnvelope) (stats : RecoveryStats),
      Reachable Crates.sample (new .default) AnyCall .empty h →
      (∀ pass, StoredEvents Crates.sample (new .default) pass h.db.contents (stored pass)) →
      recover Crates.sample (new .default) (fun _ => "") (fun _ => "") (.still newYear2026)
        .default h.db = .ok stats →
      stats.corruptedEventsFound =
        failures (fun _ => "") (fun _ => newYear2026) (stored .quiet) 0 := by
  intro hAlways
  obtain ⟨h, hReach, hSize, hEach⟩ := exists_testEvents (show 1000 + 1 ≤ 2 ^ 128 by decide)
  obtain ⟨stored, hStored⟩ := exists_stored_of_each Crates.sample_timeTextReadsBack
    Crates.sample_lz4DecodesBack hReach
  have hMany : (stored .quiet).length = 1001 := by
    rw [length_of_stored (hStored .quiet), hSize]
  have hEpoch : ∀ f ∈ stored .quiet, f.timestamp = DateTime.epoch :=
    fun f hf => (hEach .quiet _ (hStored _) f hf).1
  have hOk := recover_of_stored (fun _ => "") (fun _ => "")
    (RecoveryEnv.still_quiet newYear2026) .default hStored
  have hCount := hAlways h stored _ hReach hStored hOk
  rw [failures_of_testEvents hEpoch, hMany] at hCount
  have hFewer : failures (fun _ => "") (fun _ => newYear2026) ((stored .quiet).take 1000) 0 =
      1001 := hCount
  rw [failures_of_testEvents fun f hf => hEpoch f (List.mem_of_mem_take hf), List.length_take,
    hMany] at hFewer
  omega

/-- **How often an event is counted**: once by the first pass, which sets the total, and
once more by a deep check, which adds to it.  So the total is the number of events exactly
without a deep check, or where there is nothing to check. -/
theorem recovery_counts_iff (C : Crates) (hTime : C.TimeTextReadsBack)
    (hDecodes : C.Lz4DecodesBack) (store : EventStore) (kindText : Bincode.ErrorKind → String)
    (timeText : DateTime → String) (h : History) (hReach : Reachable C store AnyCall .empty h)
    (env : RecoveryEnv) (hQuiet : env.Quiet) (options : RecoveryOptions)
    (hMax : options.maxEventsToCheck = 0) (hCap : h.db.contents.size ≤ 1000) :
    ∃ stats, recover C store kindText timeText env options h.db = .ok stats ∧
      (stats.totalEventsChecked = h.db.contents.size ↔
        options.deepCheck = false ∨ h.db.contents.size = 0) := by
  obtain ⟨stored, hStored⟩ := exists_stored_of_each hTime hDecodes hReach
  have hLength (pass : CallEnv) : ((stored pass).take 1000).length = h.db.contents.size := by
    rw [List.length_take, length_of_stored (hStored pass)]
    omega
  refine ⟨_, recover_of_stored kindText timeText hQuiet options hStored, ?_⟩
  rw [eventLimit_of_all hMax]
  show ((stored env.integrity).take 1000).length +
      (if options.deepCheck then ((stored env.events).take 1000).length else 0) = _ ↔ _
  rw [hLength, hLength]
  cases options.deepCheck with
  | true =>
      simp only [if_true, Bool.true_eq_false, false_or]
      omega
  | false => simp

/-- Three events, without a deep check. -/
theorem recovery_counts_test :
    ∃ (h : History) (stats : RecoveryStats), h.db.contents.size = 3 ∧
      recover Crates.sample (new .default) (fun _ => "") (fun _ => "") (.still newYear2026)
        { RecoveryOptions.default with deepCheck := false } h.db = .ok stats ∧
      stats.totalEventsChecked = 3 := by
  obtain ⟨h, hReach, hSize, -⟩ := exists_testEvents (show 2 + 1 ≤ 2 ^ 128 by decide)
  obtain ⟨stats, hOk, hTotal⟩ := recovery_counts_iff Crates.sample
    Crates.sample_timeTextReadsBack Crates.sample_lz4DecodesBack (new .default) (fun _ => "")
    (fun _ => "") h hReach (.still newYear2026) (RecoveryEnv.still_quiet _)
    { RecoveryOptions.default with deepCheck := false } rfl (by omega)
  exact ⟨h, stats, hSize, hOk, (hTotal.mpr (Or.inl rfl)).trans hSize⟩

/-- One event and the default options: two events are counted. -/
theorem recovery_counts_twice :
    ¬ ∀ (h : History) (options : RecoveryOptions) (stats : RecoveryStats),
      Reachable Crates.sample (new .default) AnyCall .empty h →
      h.db.contents.size ≤ 1000 → options.maxEventsToCheck = 0 →
      recover Crates.sample (new .default) (fun _ => "") (fun _ => "") (.still newYear2026)
        options h.db = .ok stats →
      stats.totalEventsChecked = h.db.contents.size := by
  intro hAlways
  obtain ⟨h, hReach, hSize, -⟩ := exists_testEvents (show 0 + 1 ≤ 2 ^ 128 by decide)
  obtain ⟨stored, hStored⟩ := exists_stored_of_each Crates.sample_timeTextReadsBack
    Crates.sample_lz4DecodesBack hReach
  have hOk := recover_of_stored (fun _ => "") (fun _ => "")
    (RecoveryEnv.still_quiet newYear2026) .default hStored
  have hTotal := hAlways h .default _ hReach (by omega) rfl hOk
  have hOne : (stored .quiet).length = 1 := by
    rw [length_of_stored (hStored .quiet), hSize]
  have hTwice : ((stored .quiet).take 1000).length + ((stored .quiet).take 1000).length = 1 :=
    hTotal.trans hSize
  rw [List.length_take, hOne] at hTwice
  omega

/-- **Recovery of any contents**: it goes through exactly when all records decode; otherwise
it ends with the error of the first that does not; and when it goes through, all events are
validated. -/
theorem recovery_of_contents (C : Crates) (store : EventStore)
    (kindText : Bincode.ErrorKind → String) (timeText : DateTime → String) (env : RecoveryEnv)
    (hQuiet : env.Quiet) (options : RecoveryOptions) (hDeep : options.deepCheck = true)
    (hMax : options.maxEventsToCheck = 0) (db : RocksDb) (hCap : db.contents.size ≤ 1000) :
    ((∃ stats, recover C store kindText timeText env options db = .ok stats) ↔
        ∀ record ∈ db.contents.toList, Readable C store record) ∧
      (∀ before record after error, db.contents.toList = before ++ record :: after →
        (∀ r ∈ before, Readable C store r) →
        decodeItem C store env.integrity (.ok record) = .error error →
        recover C store kindText timeText env options db =
          .error (.consistencyCheckFailed
            ("Database integrity check failed: " ++ error.toText kindText))) ∧
      ∀ stats, recover C store kindText timeText env options db = .ok stats →
        ∃ events, StoredEvents C store env.events db.contents events ∧
          stats.corruptedEventsFound = failures timeText env.clock events 0 := by
  have hAll : db.contents.toList.take 1001 = db.contents.toList := by
    rw [List.take_eq_self_iff, Std.ExtTreeMap.length_toList]
    omega
  have hReads {stats : RecoveryStats}
      (hStats : recover C store kindText timeText env options db = .ok stats) :
      ∀ record ∈ db.contents.toList, Readable C store record := by
    rw [← hAll]
    exact readable_of_recover kindText timeText hQuiet hStats
  refine ⟨⟨?_, ?_⟩, ?_, ?_⟩
  · rintro ⟨stats, hStats⟩
    exact hReads hStats
  · intro hReadable
    obtain ⟨stored, hStored⟩ := exists_stored_of_readable hReadable
    exact ⟨_, recover_of_stored kindText timeText hQuiet options hStored⟩
  · intro before record after error hSplit hBefore hError
    exact recover_of_unreadable kindText timeText
      (scan_of_unreadable hQuiet.integrity (hAll.trans hSplit) hBefore hError)
  · intro stats hStats
    obtain ⟨stored, hStored⟩ := exists_stored_of_readable (hReads hStats)
    have hOver := goesOver_of_stored hQuiet hDeep hMax hStored hStats
    have hFew : (stored env.events).take 1000 = stored env.events := by
      rw [List.take_eq_self_iff, length_of_stored (hStored env.events)]
      exact hCap
    refine ⟨stored env.events, hStored _, ?_⟩
    rw [hOver.corrupted]
    exact congrArg (failures timeText env.clock · 0) hFew

/-- A database with one record, whose value is no frame. -/
def oneCorruptedRecord : RocksDb := .opened ((∅ : Contents).insert [0] [0])

theorem oneCorruptedRecord_toList : oneCorruptedRecord.contents.toList = [([0], [0])] := rfl

theorem oneCorruptedRecord_error (env : CallEnv) :
    decodeItem Crates.sample (new .default) env (.ok ([0], [0])) =
      .error (.serializationError (.decompressionFailed "wrong magic number")) := rfl

/-- The error names the first record that cannot be read. -/
theorem recovery_of_contents_test :
    recover Crates.sample (new .default) (fun _ => "") (fun _ => "") (.still newYear2026)
        .default oneCorruptedRecord =
      .error (.consistencyCheckFailed ("Database integrity check failed: " ++
        "Serialization error: Decompression failed: wrong magic number")) := by
  have hContents := recovery_of_contents Crates.sample (new .default) (fun _ => "")
    (fun _ => "") (.still newYear2026) (RecoveryEnv.still_quiet _) .default rfl rfl
    oneCorruptedRecord (by decide)
  rw [oneCorruptedRecord_toList] at hContents
  have hMessage := hContents.2.1 [] ([0], [0]) [] _ rfl (by simp) (oneCorruptedRecord_error _)
  have hText : "Database integrity check failed: " ++ EventStoreError.toText (fun _ => "")
      (.serializationError (.decompressionFailed "wrong magic number")) =
      "Database integrity check failed: " ++
        "Serialization error: Decompression failed: wrong magic number" := rfl
  rw [hText] at hMessage
  exact hMessage

/-- One value that is no event ends the recovery. -/
theorem recovery_aborted :
    ¬ ∀ db : RocksDb, ∃ stats, recover Crates.sample (new .default) (fun _ => "") (fun _ => "")
      (.still newYear2026) .default db = .ok stats := by
  intro hAlways
  obtain ⟨stats, hStats⟩ := hAlways oneCorruptedRecord
  have hScan : scan Crates.sample (new .default) .quiet none oneCorruptedRecord = _ :=
    scan_of_unreadable rfl
      (show oneCorruptedRecord.contents.toList.take 1001 = [] ++ ([0], [0]) :: [] from rfl)
      (by simp) (oneCorruptedRecord_error _)
  cases (recover_of_unreadable (fun _ => "") (fun _ => "") hScan).symm.trans hStats

end LedgerFS.Recovery
