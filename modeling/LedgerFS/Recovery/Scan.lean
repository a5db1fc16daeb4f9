import LedgerFS.EventStore.Query
import LedgerFS.Recovery.Recover

/-!
# What the passes see

A scan decodes one record more than its limit before it stops: an unreadable record
right behind the limit still fails it (`scan_eq`).  Whether a record decodes does not
depend on the seeds of a call, so the four passes meet the same errors.  With the
closed forms of the loops `recover` comes down to its scans (`recover_of_scans`,
`recover_of_unreadable`).
-/

namespace LedgerFS.Recovery

open LedgerFS.Core
open LedgerFS.EventStore

/-! ## Decoding -/

section Decoding

variable (C : Crates) (store : EventStore)

/-- The record decodes, under any seeds. -/
def Readable (record : Bytes × Bytes) : Prop :=
  ∃ e, decodeItem C store .quiet (.ok record) = .ok e

/-- Records are decoded one after the other, up to the first error. -/
def decodeAll (env : CallEnv) (records : List (Bytes × Bytes)) :
    Except EventStoreError (List EventEnvelope) :=
  records.mapM fun record => decodeItem C store env (.ok record)

variable {C store}

theorem decodeAll_cons (env : CallEnv) (record : Bytes × Bytes) (records : List (Bytes × Bytes)) :
    decodeAll C store env (record :: records) =
      (decodeItem C store env (.ok record) >>= fun e =>
        decodeAll C store env records >>= fun es => pure (e :: es)) :=
  List.mapM_cons

/-- What a record decodes to depends on the call only in the seeds. -/
theorem decodeItem_eq_map (C : Crates) (store : EventStore) (record : Bytes × Bytes) :
    ∃ decoded : Except SerializationError EventEnvelope, ∀ env,
      decodeItem C store env (.ok record) =
        (decoded.map (EventEnvelope.rehash (env.seeds record.2))).mapError
          EventStoreError.serializationError := by
  obtain ⟨decoded, hDecoded⟩ := store.serializer.deserialize_eq_map (C := C) record.2
  refine ⟨decoded, fun env => ?_⟩
  rw [← hDecoded]
  rfl

/-- **A record decodes in every call or in none**, with the same error. -/
theorem decodeItem_cases (C : Crates) (store : EventStore) (record : Bytes × Bytes) :
    (Readable C store record ∧ ∀ env, ∃ e, decodeItem C store env (.ok record) = .ok e) ∨
      (¬ Readable C store record ∧
        ∃ error, ∀ env, decodeItem C store env (.ok record) = .error error) := by
  obtain ⟨decoded, hItem⟩ := decodeItem_eq_map C store record
  cases decoded with
  | ok e => exact Or.inl ⟨⟨_, hItem .quiet⟩, fun env => ⟨_, hItem env⟩⟩
  | error error =>
      refine Or.inr ⟨?_, .serializationError error, hItem⟩
      intro hReadable
      obtain ⟨e, hOk⟩ := hReadable
      cases (hItem .quiet).symm.trans hOk

/-- The timestamp does not depend on the call. -/
theorem decodeItem_timestamp {env env' : CallEnv} {record : Bytes × Bytes} {e f : EventEnvelope}
    (he : decodeItem C store env (.ok record) = .ok e)
    (hf : decodeItem C store env' (.ok record) = .ok f) : e.timestamp = f.timestamp := by
  obtain ⟨decoded, hItem⟩ := decodeItem_eq_map C store record
  cases decoded with
  | ok d =>
      cases (hItem env).symm.trans he
      cases (hItem env').symm.trans hf
      rfl
  | error error => cases (hItem env).symm.trans he

/-- Readable records decode to a list of events. -/
theorem decodeAll_of_readable (env : CallEnv) {records : List (Bytes × Bytes)}
    (h : ∀ record ∈ records, Readable C store record) :
    ∃ events, decodeAll C store env records = .ok events ∧
      List.Forall₂ (fun record e => decodeItem C store env (.ok record) = .ok e) records
        events := by
  induction records with
  | nil => exact ⟨[], rfl, .nil⟩
  | cons record records ih =>
      obtain ⟨hHere, hRest⟩ := List.forall_mem_cons.mp h
      obtain ⟨events, hOk, hEvents⟩ := ih hRest
      rcases decodeItem_cases C store record with ⟨-, hAny⟩ | ⟨hNot, -⟩
      · obtain ⟨e, he⟩ := hAny env
        refine ⟨e :: events, ?_, .cons he hEvents⟩
        rw [decodeAll_cons, he, hOk]
        rfl
      · exact absurd hHere hNot

/-- The first unreadable record ends the decoding. -/
theorem decodeAll_of_unreadable (env : CallEnv) {before after : List (Bytes × Bytes)}
    {record : Bytes × Bytes} {error : EventStoreError}
    (hBefore : ∀ r ∈ before, Readable C store r)
    (hError : decodeItem C store env (.ok record) = .error error) :
    decodeAll C store env (before ++ record :: after) = .error error := by
  induction before with
  | nil =>
      rw [List.nil_append, decodeAll_cons, hError]
      rfl
  | cons r before ih =>
      obtain ⟨hHere, hRest⟩ := List.forall_mem_cons.mp hBefore
      rcases decodeItem_cases C store r with ⟨-, hAny⟩ | ⟨hNot, -⟩
      · obtain ⟨e, he⟩ := hAny env
        rw [List.cons_append, decodeAll_cons, he, ih hRest]
        rfl
      · exact absurd hHere hNot

/-- What decodes as a whole decodes one by one. -/
theorem readable_of_decodeAll {env : CallEnv} {records : List (Bytes × Bytes)}
    {events : List EventEnvelope} (h : decodeAll C store env records = .ok events) :
    ∀ record ∈ records, Readable C store record := by
  induction records generalizing events with
  | nil => simp
  | cons record records ih =>
      rw [decodeAll_cons] at h
      rcases decodeItem_cases C store record with ⟨hHere, hAny⟩ | ⟨-, error, hNone⟩
      · obtain ⟨e, he⟩ := hAny env
        rw [he] at h
        cases hRest : decodeAll C store env records with
        | error error =>
            rw [hRest] at h
            cases h
        | ok es => exact List.forall_mem_cons.mpr ⟨hHere, ih hRest⟩
      · rw [hNone env] at h
        cases h

/-- Events that records decode to are what they decode to as a whole. -/
theorem decodeAll_eq_ok {env : CallEnv} {records : List (Bytes × Bytes)}
    {events : List EventEnvelope}
    (h : List.Forall₂ (fun record e => decodeItem C store env (.ok record) = .ok e) records
      events) : decodeAll C store env records = .ok events := by
  induction h with
  | nil => rfl
  | cons hHere _ ih =>
      rw [decodeAll_cons, hHere, ih]
      rfl

/-- Two passes find the same timestamps. -/
theorem timestamps_eq_of_stored {env env' : CallEnv} {contents : Contents}
    {events events' : List EventEnvelope} (h : StoredEvents C store env contents events)
    (h' : StoredEvents C store env' contents events') :
    events.map EventEnvelope.timestamp = events'.map EventEnvelope.timestamp := by
  unfold StoredEvents at h h'
  generalize contents.toList = records at h h'
  induction h generalizing events' with
  | nil =>
      cases h'
      rfl
  | cons hHere _ ih =>
      cases h' with
      | cons hHere' hRest =>
          rw [List.map_cons, List.map_cons, decodeItem_timestamp hHere hHere', ih hRest]

/-- Readable contents are stored events, in every pass. -/
theorem exists_stored_of_readable {contents : Contents}
    (h : ∀ record ∈ contents.toList, Readable C store record) :
    ∃ stored : CallEnv → List EventEnvelope,
      ∀ pass, StoredEvents C store pass contents (stored pass) := by
  have hAll (pass : CallEnv) : ∃ events, StoredEvents C store pass contents events := by
    obtain ⟨events, -, hEvents⟩ := decodeAll_of_readable pass h
    exact ⟨events, hEvents⟩
  exact ⟨fun pass => (hAll pass).choose, fun pass => (hAll pass).choose_spec⟩

end Decoding

/-! ## Scans -/

section Scans

variable {C : Crates} {store : EventStore} {env : CallEnv} {db : RocksDb}

/-- Without a filter the loop decodes until it is full, and one record more. -/
theorem queryLoop_unfiltered (limit : Option Nat) (size : Nat) (records : List (Bytes × Bytes))
    (found : List EventEnvelope) (count : Nat) :
    queryLoop C store env (.unfiltered none limit) size 0 (records.map .ok) found count =
      (decodeAll C store env (records.take (size - found.length + 1))).map fun events =>
        found ++ events.take (size - found.length) := by
  induction records generalizing found count with
  | nil => simp [queryLoop, decodeAll, Except.map, pure, Except.pure]
  | cons record records ih =>
      rw [List.map_cons, queryLoop, List.take_succ_cons, decodeAll_cons]
      cases hDecode : decodeItem C store env (.ok record) with
      | error error => rfl
      | ok e =>
          show (if found.length ≥ size then Except.ok found else
            queryLoop C store env (.unfiltered none limit) size 0 (records.map .ok) (found ++ [e])
              (count + 1)) = _
          by_cases hFull : found.length ≥ size
          · have hNone : size - found.length = 0 := by omega
            rw [if_pos hFull, hNone, List.take_zero]
            show _ = Except.ok (found ++ List.take 0 [e])
            rw [List.take_zero, List.append_nil]
          · have hMore : size - found.length = size - (found.length + 1) + 1 := by omega
            rw [if_neg hFull, ih, List.length_append, List.length_singleton, hMore]
            cases decodeAll C store env
                (records.take (size - (found.length + 1) + 1)) with
            | error error => rfl
            | ok events =>
                show Except.ok (found ++ [e] ++ events.take (size - (found.length + 1))) =
                  Except.ok (found ++ (e :: events).take (size - (found.length + 1) + 1))
                rw [List.take_succ_cons, List.append_assoc, List.singleton_append]

/-- **A scan** decodes its limit and one record more, and returns its limit. -/
theorem scan_eq (hQuiet : env.scanFault = none) (limit : Option Nat) :
    scan C store env limit db =
      (decodeAll C store env (db.contents.toList.take (limit.getD 1000 + 1))).map fun events =>
        events.take (limit.getD 1000) := by
  have hScan : scan C store env limit db =
      queryLoop C store env (.unfiltered none limit) (limit.getD 1000) 0
        (db.iterator env .start) [] 0 := by
    unfold scan queryEvents
    show (queryLoop C store env (.unfiltered none limit) (limit.getD 1000) 0
      (db.iterator env .start) [] 0 >>= fun events => pure _) >>= _ = _
    cases queryLoop C store env (.unfiltered none limit) (limit.getD 1000) 0
      (db.iterator env .start) [] 0 <;> rfl
  rw [hScan, RocksDb.iterator, hQuiet, queryLoop_unfiltered]
  rfl

/-- Decoded contents are scanned up to the limit. -/
theorem scan_of_stored (hQuiet : env.scanFault = none) {stored : List EventEnvelope}
    (h : StoredEvents C store env db.contents stored) (limit : Option Nat) :
    scan C store env limit db = .ok (stored.take (limit.getD 1000)) := by
  rw [scan_eq hQuiet, decodeAll_eq_ok (List.forall₂_take _ h)]
  show Except.ok ((stored.take (limit.getD 1000 + 1)).take (limit.getD 1000)) = _
  rw [List.take_take]
  have hMin : min (limit.getD 1000) (limit.getD 1000 + 1) = limit.getD 1000 := by omega
  rw [hMin]

/-- The first unreadable record in its reach fails it. -/
theorem scan_of_unreadable (hQuiet : env.scanFault = none) {before after : List (Bytes × Bytes)}
    {record : Bytes × Bytes} {error : EventStoreError}
    (hSplit : db.contents.toList.take 1001 = before ++ record :: after)
    (hBefore : ∀ r ∈ before, Readable C store r)
    (hError : decodeItem C store env (.ok record) = .error error) :
    scan C store env none db = .error error := by
  rw [scan_eq hQuiet]
  show Except.map _ (decodeAll C store env (db.contents.toList.take 1001)) = _
  rw [hSplit, decodeAll_of_unreadable env hBefore hError]
  rfl

end Scans

/-! ## Loops -/

section Loops

variable (timeText : DateTime → String)

/-- The events that fail validation, each at its reading of the clock. -/
def failures (clock : Nat → ClockReading) : List EventEnvelope → Nat → Nat
  | [], _ => 0
  | e :: events, i =>
      (if (validateEventEnvelope timeText (clock i) e).isOk then 0 else 1) +
        failures clock events (i + 1)

theorem failures_of_invalid {clock : Nat → ClockReading} {events : List EventEnvelope}
    (h : ∀ e ∈ events, ∀ i, (validateEventEnvelope timeText (clock i) e).isOk = false) (i : Nat) :
    failures timeText clock events i = events.length := by
  induction events generalizing i with
  | nil => rfl
  | cons e events ih =>
      obtain ⟨hHere, hRest⟩ := List.forall_mem_cons.mp h
      rw [failures, hHere i, ih hRest, List.length_cons, if_neg Bool.false_ne_true]
      omega

theorem failures_of_valid {clock : Nat → ClockReading} {events : List EventEnvelope}
    (h : ∀ e ∈ events, ∀ i, (validateEventEnvelope timeText (clock i) e).isOk = true) (i : Nat) :
    failures timeText clock events i = 0 := by
  induction events generalizing i with
  | nil => rfl
  | cons e events ih =>
      obtain ⟨hHere, hRest⟩ := List.forall_mem_cons.mp h
      rw [failures, hHere i, ih hRest, if_pos rfl]

theorem isOk_of_old {now : ClockReading} {e : EventEnvelope}
    (hOld : e.timestamp < now.tenYearsAgo) :
    (validateEventEnvelope timeText now e).isOk = false := by
  rw [validateEventEnvelope, if_pos hOld]
  split
  · rfl
  · split
    · rfl
    · split <;> rfl

/-- The events whose timestamp is before that of the event before. -/
def setbacks : List EventEnvelope → Option DateTime → Nat
  | [], _ => 0
  | e :: events, last =>
      (if last.any fun t => e.timestamp < t then 1 else 0) + setbacks events (some e.timestamp)

/-- Timestamps do not decrease. -/
def Chronological (events : List EventEnvelope) : Prop :=
  events.Pairwise fun e f => e.timestamp ≤ f.timestamp

/-- No event is set back exactly when the timestamps do not decrease. -/
theorem setbacks_eq_zero_iff (events : List EventEnvelope) (last : Option DateTime) :
    setbacks events last = 0 ↔
      (∀ t ∈ last, ∀ e ∈ events, t ≤ e.timestamp) ∧ Chronological events := by
  induction events generalizing last with
  | nil =>
      refine iff_of_true rfl ⟨fun _ _ e he => ?_, List.Pairwise.nil⟩
      cases he
  | cons e events ih =>
      have hHere : (if last.any fun t => e.timestamp < t then 1 else 0) = 0 ↔
          ∀ t ∈ last, t ≤ e.timestamp := by
        cases last with
        | none => simp
        | some t => simp
      have hCons : Chronological (e :: events) ↔
          (∀ f ∈ events, e.timestamp ≤ f.timestamp) ∧ Chronological events := List.pairwise_cons
      rw [setbacks, Nat.add_eq_zero_iff, hHere, ih, hCons]
      constructor
      · intro h
        refine ⟨fun t ht => List.forall_mem_cons.mpr ⟨h.1 t ht, fun f hf => ?_⟩,
          h.2.1 _ rfl, h.2.2⟩
        exact le_trans (h.1 t ht) (h.2.1 _ rfl f hf)
      · intro h
        refine ⟨fun t ht => (List.forall_mem_cons.mp (h.1 t ht)).1, fun t ht => ?_, h.2.2⟩
        cases ht
        exact h.2.1

/-- Setbacks are a matter of the timestamps. -/
theorem setbacks_eq_of_timestamps {es fs : List EventEnvelope}
    (h : es.map EventEnvelope.timestamp = fs.map EventEnvelope.timestamp)
    (last : Option DateTime) : setbacks es last = setbacks fs last := by
  induction es generalizing fs last with
  | nil =>
      rw [List.map_nil, eq_comm, List.map_eq_nil_iff] at h
      rw [h]
  | cons e es ih =>
      obtain ⟨f, fs, rfl, hHere, hRest⟩ := List.map_eq_cons_iff.mp h.symm
      rw [setbacks, setbacks, hHere, ih hRest.symm]

/-- Nothing is ever repaired. -/
theorem eventLoop_eq (options : RecoveryOptions) (clock : Nat → ClockReading)
    (events : List EventEnvelope) (i : Nat) (stats : RecoveryStats) :
    eventLoop timeText options clock events i stats =
      { stats with
        totalEventsChecked := stats.totalEventsChecked + events.length
        corruptedEventsFound :=
          stats.corruptedEventsFound + failures timeText clock events i } := by
  induction events generalizing i stats with
  | nil => rfl
  | cons e events ih =>
      have hNever : (options.autoRepair && (repairEvent e).isOk) = false := Bool.and_false _
      rw [eventLoop, hNever, failures, List.length_cons]
      by_cases hValid : (validateEventEnvelope timeText (clock i) e).isOk = true
      · rw [if_pos hValid, if_pos hValid, ih]
        simp only [RecoveryStats.mk.injEq, and_true]
        omega
      · rw [if_neg hValid, if_neg hValid, if_neg Bool.false_ne_true, ih]
        simp only [RecoveryStats.mk.injEq, and_true]
        omega

theorem temporalLoop_eq (events : List EventEnvelope) (last : Option DateTime)
    (stats : RecoveryStats) :
    temporalLoop events last stats =
      { stats with consistencyErrors := stats.consistencyErrors + setbacks events last } := by
  induction events generalizing last stats with
  | nil => rfl
  | cons e events ih =>
      rw [temporalLoop, setbacks]
      by_cases hBack : (last.any fun t => e.timestamp < t) = true
      · rw [if_pos hBack, if_pos hBack, ih]
        simp only [RecoveryStats.mk.injEq, and_true, true_and]
        omega
      · rw [if_neg hBack, if_neg hBack, ih, Nat.zero_add]

end Loops

/-! ## Recovery from its scans -/

/-- No scan of the recovery fails. -/
structure RecoveryEnv.Quiet (env : RecoveryEnv) : Prop where
  integrity : env.integrity.scanFault = none
  events : env.events.scanFault = none
  balances : env.balances.scanFault = none
  temporal : env.temporal.scanFault = none

/-- No scan fails, and the clock stands still. -/
def RecoveryEnv.still (now : ClockReading) : RecoveryEnv where
  integrity := .quiet
  events := .quiet
  balances := .quiet
  temporal := .quiet
  clock _ := now
  durationMs := 0

theorem RecoveryEnv.still_quiet (now : ClockReading) : (RecoveryEnv.still now).Quiet :=
  ⟨rfl, rfl, rfl, rfl⟩

/-- The limit of the validation pass. -/
def eventLimit (options : RecoveryOptions) : Option Nat :=
  if options.maxEventsToCheck > 0 then some options.maxEventsToCheck.toNat else none

section Recover

variable {C : Crates} {store : EventStore} (kindText : Bincode.ErrorKind → String)
  (timeText : DateTime → String) {env : RecoveryEnv} {options : RecoveryOptions} {db : RocksDb}

/-- **The statistics**, when all scans go through. -/
theorem recover_of_scans {es₀ es₁ es₂ es₃ : List EventEnvelope}
    (h₀ : scan C store env.integrity none db = .ok es₀)
    (h₁ : scan C store env.events (eventLimit options) db = .ok es₁)
    (h₂ : scan C store env.balances none db = .ok es₂)
    (h₃ : scan C store env.temporal none db = .ok es₃) :
    recover C store kindText timeText env options db =
      .ok
        { totalEventsChecked := es₀.length + if options.deepCheck then es₁.length else 0
          corruptedEventsFound :=
            if options.deepCheck then failures timeText env.clock es₁ 0 else 0
          corruptedEventsRepaired := 0
          consistencyErrors := (Replay.run es₂).errors + setbacks es₃ none
          recoveryDurationMs := env.durationMs } := by
  have hIntegrity (stats : RecoveryStats) : checkDatabaseIntegrity C store kindText env.integrity
      stats db = .ok { stats with totalEventsChecked := es₀.length } := by
    rw [checkDatabaseIntegrity, h₀]
  have hEvents (stats : RecoveryStats) : checkEventConsistency C store timeText env.events
      env.clock stats options db = .ok (eventLoop timeText options env.clock es₁ 0 stats) := by
    show (scan C store env.events (eventLimit options) db).mapError _ >>= _ = _
    rw [h₁]
    rfl
  have hBalances (stats : RecoveryStats) : checkAccountBalanceConsistency C store env.balances
      stats db = .ok { stats with
        consistencyErrors := stats.consistencyErrors + (Replay.run es₂).errors } := by
    rw [checkAccountBalanceConsistency, h₂]
    rfl
  have hTemporal (stats : RecoveryStats) : checkTemporalConsistency C store env.temporal stats db =
      .ok (temporalLoop es₃ none stats) := by
    rw [checkTemporalConsistency, h₃]
    rfl
  unfold recover
  by_cases hDeep : options.deepCheck = true
  · simp only [hDeep, if_true, hIntegrity, hEvents, hBalances, hTemporal, bind, Except.bind, pure,
      Except.pure, eventLoop_eq, temporalLoop_eq, RecoveryStats.zero, Nat.zero_add]
  · simp only [hDeep, if_false, hIntegrity, hBalances, hTemporal, bind, Except.bind, pure,
      Except.pure, temporalLoop_eq, RecoveryStats.zero, Nat.zero_add, Nat.add_zero,
      Bool.false_eq_true]

/-- An unreadable record in reach of the first scan ends the recovery. -/
theorem recover_of_unreadable {error : EventStoreError}
    (h : scan C store env.integrity none db = .error error) :
    recover C store kindText timeText env options db =
      .error (.consistencyCheckFailed
        ("Database integrity check failed: " ++ error.toText kindText)) := by
  have hIntegrity (stats : RecoveryStats) : checkDatabaseIntegrity C store kindText env.integrity
      stats db = .error (.consistencyCheckFailed
        ("Database integrity check failed: " ++ error.toText kindText)) := by
    rw [checkDatabaseIntegrity, h]
  unfold recover
  rw [hIntegrity]
  rfl

/-- A recovery that goes through has read what its first scan reaches. -/
theorem readable_of_recover (hQuiet : env.Quiet) {stats : RecoveryStats}
    (h : recover C store kindText timeText env options db = .ok stats) :
    ∀ record ∈ db.contents.toList.take 1001, Readable C store record := by
  cases hScan : scan C store env.integrity none db with
  | error error => cases (recover_of_unreadable kindText timeText hScan).symm.trans h
  | ok events =>
      rw [scan_eq hQuiet.integrity] at hScan
      cases hDecoded : decodeAll C store env.integrity
          (db.contents.toList.take ((none : Option Nat).getD 1000 + 1)) with
      | error error =>
          rw [hDecoded] at hScan
          cases hScan
      | ok all => exact readable_of_decodeAll hDecoded

/-- Decoded contents go through. -/
theorem recover_of_stored (hQuiet : env.Quiet) (options : RecoveryOptions)
    {stored : CallEnv → List EventEnvelope}
    (hStored : ∀ pass, StoredEvents C store pass db.contents (stored pass)) :
    recover C store kindText timeText env options db =
      .ok
        { totalEventsChecked := ((stored env.integrity).take 1000).length +
            if options.deepCheck then
              ((stored env.events).take ((eventLimit options).getD 1000)).length
            else 0
          corruptedEventsFound :=
            if options.deepCheck then
              failures timeText env.clock
                ((stored env.events).take ((eventLimit options).getD 1000)) 0
            else 0
          corruptedEventsRepaired := 0
          consistencyErrors := (Replay.run ((stored env.balances).take 1000)).errors +
            setbacks ((stored env.temporal).take 1000) none
          recoveryDurationMs := env.durationMs } :=
  recover_of_scans kindText timeText (scan_of_stored hQuiet.integrity (hStored _) none)
    (scan_of_stored hQuiet.events (hStored _) _) (scan_of_stored hQuiet.balances (hStored _) none)
    (scan_of_stored hQuiet.temporal (hStored _) none)

end Recover

end LedgerFS.Recovery
