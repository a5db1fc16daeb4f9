import LedgerFS.Recovery.Balances

/-!
# Stores built through the interface

A session creates envelopes with `EventEnvelope::new`, under a clock that never goes
backwards, and makes calls of the store that append created envelopes.  Construction gives
an envelope the type name and a timestamp that the validator accepts for ten years
(`Sound`, `sound_of_run`), the store gives both back as they were, and keys are in time order
as long as the counts fit.  So a recovery finds nothing to report
(`recovery_without_alarm`).
-/

namespace LedgerFS.Recovery

open LedgerFS.Core
open LedgerFS.EventStore

/-! ## Sessions -/

/-- The calls made, the last reading of the clock, and the envelopes in the order in
which they were created. -/
structure Session where
  history : History
  clock : ClockReading
  created : List EventEnvelope

/-- Nothing has been created, and the database is empty. -/
def Session.started (now : ClockReading) : Session := ⟨.started .empty, now, []⟩

section Sessions

variable (C : Crates) (store : EventStore)

/-- What may happen next. -/
inductive SessionStep : Session → Session → Prop
  | tick {s : Session} {now : ClockReading} (hForward : s.clock.time ≤ now.time)
      (hRange : now.time.InNanosRange) : SessionStep s { s with clock := now }
  | create {s : Session} (eventId : EventId) (aggregateId : RustString)
      (aggregateVersion : UInt64) (eventData : LedgerEvent) (metadata : EventMetadata)
      (hNamed : aggregateId.text ≠ "") :
      SessionStep s { s with
        created := s.created ++ [EventEnvelope.new eventId s.clock.time aggregateId
          aggregateVersion eventData metadata] }
  | call {s : Session} {history : History}
      (hStep : Step C store (fun _ call => ∀ e ∈ call.envelopes, e ∈ s.created) s.history
        history) : SessionStep s { s with history := history }

/-- The sessions that start with an empty database at some reading of the clock. -/
def SessionRun (s : Session) : Prop :=
  ∃ start : ClockReading, start.time.InNanosRange ∧
    Relation.ReflTransGen (SessionStep C store) (.started start) s

/-- What construction promises of an envelope. -/
structure WellFormed (e : EventEnvelope) : Prop where
  typed : e.eventType = e.eventData.typeName
  named : e.aggregateId.text ≠ ""
  inRange : e.timestamp.InNanosRange
  nonLeap : e.timestamp.NonLeap

/-- The invariant of a session. -/
structure Sound (s : Session) : Prop where
  reach : Reachable C store AnyCall .empty s.history
  acked : s.history.ackedEvents ⊆ s.created
  wellFormed : ∀ e ∈ s.created, WellFormed e
  clockInRange : s.clock.time.InNanosRange
  past : ∀ e ∈ s.created, e.timestamp ≤ s.clock.time
  sinceFirst : ∀ first ∈ s.created.head?, ∀ e ∈ s.created, first.timestamp ≤ e.timestamp

variable {C store}

/-- **Step**. -/
theorem Sound.step {s s' : Session} (h : Sound C store s) (hStep : SessionStep C store s s') :
    Sound C store s' := by
  cases hStep with
  | @tick now hForward hRange =>
      exact { h with
        clockInRange := hRange
        past := fun e he => le_trans (h.past e he) hForward }
  | create eventId aggregateId aggregateVersion eventData metadata hNamed =>
      refine
        { reach := h.reach
          acked := List.subset_append_of_subset_left _ h.acked
          wellFormed := ?_
          clockInRange := h.clockInRange
          past := ?_
          sinceFirst := ?_ }
      · intro e he
        rcases List.mem_append.mp he with hOld | hNew
        · exact h.wellFormed e hOld
        · cases List.mem_singleton.mp hNew
          exact ⟨rfl, hNamed, h.clockInRange, s.clock.nonLeap⟩
      · intro e he
        rcases List.mem_append.mp he with hOld | hNew
        · exact h.past e hOld
        · cases List.mem_singleton.mp hNew
          exact le_refl _
      · intro first hFirst e he
        rcases List.mem_append.mp he with hOld | hNew
        · rw [List.head?_append_of_ne_nil _ (List.ne_nil_of_mem hOld)] at hFirst
          exact h.sinceFirst first hFirst e hOld
        · cases List.mem_singleton.mp hNew
          have hMem := List.mem_of_mem_head? hFirst
          rcases List.mem_append.mp hMem with hOld | hNew
          · exact h.past first hOld
          · cases List.mem_singleton.mp hNew
            exact le_refl _
  | @call history hCall =>
      refine { h with reach := ?_, acked := ?_ }
      · exact h.reach.tail (hCall.mono fun _ => trivial)
      · rcases hCall.effect with ⟨env, call, batch, hAdmits, -, -, rfl⟩ | ⟨-, hSame⟩
        · exact List.append_subset.mpr ⟨hAdmits, h.acked⟩
        · rw [ackedEvents_eq_of_quiet hSame]
          exact h.acked

/-- **Run**. -/
theorem sound_of_run {s : Session} (hRun : SessionRun C store s) : Sound C store s := by
  obtain ⟨start, hStart, hSteps⟩ := hRun
  induction hSteps with
  | refl =>
      exact
        { reach := .refl
          acked := List.nil_subset _
          wellFormed := fun e he => by cases he
          clockInRange := hStart
          past := fun e he => by cases he
          sinceFirst := fun first hFirst => by cases hFirst }
  | tail _ hStep ih => exact ih.step hStep

end Sessions

/-! ## Nothing to report -/

/-- Construction records the type that the validator expects. -/
theorem typeName_text (eventData : LedgerEvent) :
    eventData.typeName.text = expectedType eventData := by
  cases eventData <;> rfl

theorem typeName_reread (hs : Hashers) (e : EventEnvelope) :
    (e.reread hs).eventData.typeName = e.eventData.typeName := by
  unfold EventEnvelope.reread EventEnvelope.rehash EventEnvelope.readBack
    EventEnvelope.mapInstants
  cases e.eventData <;> rfl

/-- A reading of a clock is read back as it was. -/
theorem WellFormed.reread_timestamp {e : EventEnvelope} (h : WellFormed e) (hs : Hashers) :
    (e.reread hs).timestamp = e.timestamp :=
  DateTime.readBack_of_unambiguous h.nonLeap.unambiguous

theorem WellFormed.reread {e : EventEnvelope} (h : WellFormed e) (hs : Hashers) :
    WellFormed (e.reread hs) where
  typed := h.typed.trans (typeName_reread hs e).symm
  named := h.named
  inRange := (h.reread_timestamp hs).symm ▸ h.inRange
  nonLeap := (h.reread_timestamp hs).symm ▸ h.nonLeap

/-- Less than 3650 days later. -/
def SoonAfter (stamp now : DateTime) : Prop :=
  now.secs * 1000000000 + now.frac <
    (stamp.secs + 3650 * 86400) * 1000000000 + stamp.frac

instance (stamp now : DateTime) : Decidable (SoonAfter stamp now) :=
  inferInstanceAs (Decidable (_ < _))

/-- What comes after the first stamp is not too old either. -/
theorem not_too_old {first stamp : DateTime} {now : ClockReading} (hFirst : first ≤ stamp)
    (hNonLeap : first.NonLeap) (hSoon : SoonAfter first now.time) :
    ¬ stamp < now.tenYearsAgo := by
  have hNotLess : ¬ stamp < first := not_lt_of_ge hFirst
  have hFrac : first.frac < 1000000000 := hNonLeap
  rw [DateTime.lt_iff] at hNotLess ⊢
  unfold SoonAfter at hSoon
  show ¬ (stamp.secs < now.time.secs - 365 * 10 * 86400 ∨
    stamp.secs = now.time.secs - 365 * 10 * 86400 ∧ stamp.frac < now.time.frac)
  omega

/-- **The validator accepts** a well-formed envelope in time. -/
theorem WellFormed.isOk {e : EventEnvelope} (h : WellFormed e) (timeText : DateTime → String)
    {now : ClockReading} (hPast : e.timestamp ≤ now.time)
    (hRecent : ¬ e.timestamp < now.tenYearsAgo) :
    (validateEventEnvelope timeText now e).isOk = true := by
  have hType : e.eventType.text = expectedType e.eventData := by
    rw [h.typed, typeName_text]
  rw [validateEventEnvelope, if_neg (not_not_intro hType), if_neg h.named,
    if_neg (not_lt_of_ge hPast), if_neg hRecent]
  rfl

/-- Keys are in time order where the counts fit. -/
theorem chronological_of_ordered {events : List EventEnvelope}
    (hOrder : events.Pairwise KeyBefore) (hWell : ∀ e ∈ events, WellFormed e) :
    Chronological events := by
  refine hOrder.imp_of_mem ?_
  intro e f he hf hBefore
  by_contra hLater
  have hCount := DateTime.nanosOrZero_lt (lt_of_not_ge hLater) (hWell e he).inRange
    (hWell f hf).nonLeap (hWell e he).nonLeap (hWell f hf).inRange.1
  rcases (keyBefore_iff_counted (hWell e he).inRange.1 (hWell f hf).inRange.1).mp hBefore
    with hLess | ⟨hSame, -⟩ <;> omega

/-- What is stored in a session is well-formed, with the timestamp of its creation. -/
theorem Sound.stored {C : Crates} {store : EventStore} {s : Session} (h : Sound C store s)
    (hTime : C.TimeTextReadsBack) (hDecodes : C.Lz4DecodesBack) {pass : CallEnv}
    {stored : List EventEnvelope} (hStored : StoredEvents C store pass s.history.db.contents stored)
    {f : EventEnvelope} (hf : f ∈ stored) :
    WellFormed f ∧ ∃ e ∈ s.created, f.timestamp = e.timestamp := by
  obtain ⟨e, he, hs, rfl⟩ := hStored.acknowledged hTime hDecodes h.reach hf
  have hCreated := h.acked he
  have hWell := h.wellFormed e hCreated
  exact ⟨hWell.reread hs, e, hCreated, hWell.reread_timestamp hs⟩

/-- No stamp of a session is in the future or, within ten years of the first, too old. -/
theorem Sound.inTime {C : Crates} {store : EventStore} {s : Session} (h : Sound C store s)
    {e : EventEnvelope} (he : e ∈ s.created) {now : ClockReading}
    (hForward : s.clock.time ≤ now.time)
    (hSoon : ∀ first ∈ s.created.head?, SoonAfter first.timestamp now.time) :
    e.timestamp ≤ now.time ∧ ¬ e.timestamp < now.tenYearsAgo := by
  obtain ⟨first, hFirst⟩ : ∃ first, first ∈ s.created.head? :=
    ⟨_, List.head?_eq_some_head (List.ne_nil_of_mem he)⟩
  have hNonLeap := (h.wellFormed first (List.mem_of_mem_head? hFirst)).nonLeap
  exact ⟨le_trans (h.past e he) hForward,
    not_too_old (h.sinceFirst first hFirst e he) hNonLeap (hSoon first hFirst)⟩

/-- The records of a session are recovered without alarm. -/
theorem Sound.recover_quietly {C : Crates} {store : EventStore} {s : Session}
    (h : Sound C store s) (hTime : C.TimeTextReadsBack) (hDecodes : C.Lz4DecodesBack)
    (kindText : Bincode.ErrorKind → String) (timeText : DateTime → String) {db : RocksDb}
    (hRecords : db.contents = s.history.db.contents) {env : RecoveryEnv} (hQuiet : env.Quiet)
    (hForward : ∀ i, s.clock.time ≤ (env.clock i).time)
    (hSoon : ∀ first ∈ s.created.head?, ∀ i, SoonAfter first.timestamp (env.clock i).time)
    (options : RecoveryOptions) :
    ∃ stats, recover C store kindText timeText env options db = .ok stats ∧
      stats.corruptedEventsFound = 0 ∧
      ∀ before, checkTemporalConsistency C store env.temporal before db = .ok before := by
  obtain ⟨stored, hStored⟩ := exists_stored_of_each hTime hDecodes h.reach
  have hHere (pass : CallEnv) : StoredEvents C store pass db.contents (stored pass) := by
    rw [hRecords]
    exact hStored pass
  have hValid (pass : CallEnv) : ∀ f ∈ stored pass, ∀ i,
      (validateEventEnvelope timeText (env.clock i) f).isOk = true := by
    intro f hf i
    obtain ⟨hWell, e, he, hStamp⟩ := h.stored hTime hDecodes (hStored pass) hf
    obtain ⟨hPast, hRecent⟩ := h.inTime he (hForward i) fun first hFirst => hSoon first hFirst i
    rw [← hStamp] at hPast hRecent
    exact hWell.isOk timeText hPast hRecent
  have hOrder : Chronological (stored env.temporal) := by
    have hWell : ∀ f ∈ stored env.temporal, WellFormed f :=
      fun f hf => (h.stored hTime hDecodes (hStored env.temporal) hf).1
    have hKeys := (hStored env.temporal).decodesTo_of_nonneg hTime hDecodes h.reach
      fun f hf => (hWell f hf).inRange.1
    exact chronological_of_ordered hKeys.ordered hWell
  refine ⟨_, recover_of_stored kindText timeText hQuiet options hHere, ?_, ?_⟩
  · show (if options.deepCheck then failures timeText env.clock
      ((stored env.events).take ((eventLimit options).getD 1000)) 0 else 0) = 0
    rw [failures_of_valid timeText fun f hf => hValid _ f (List.mem_of_mem_take hf), ite_self]
  · intro before
    have hNone : setbacks ((stored env.temporal).take 1000) none = 0 := by
      rw [setbacks_eq_zero_iff]
      exact ⟨by simp, hOrder.take⟩
    rw [checkTemporalConsistency, scan_of_stored hQuiet.temporal (hHere env.temporal)]
    show Except.ok (temporalLoop ((stored env.temporal).take 1000) none before) = _
    rw [temporalLoop_eq, hNone]
    rfl

/-- **No false alarm**: a recovery within ten years of the first stamp goes through,
whatever the size of the store; it finds no corrupted event, and the temporal pass adds no
error. -/
theorem recovery_without_alarm (C : Crates) (hTime : C.TimeTextReadsBack)
    (hDecodes : C.Lz4DecodesBack) (store : EventStore) (kindText : Bincode.ErrorKind → String)
    (timeText : DateTime → String) (s : Session) (hRun : SessionRun C store s)
    (env : RecoveryEnv) (hQuiet : env.Quiet)
    (hForward : ∀ i, s.clock.time ≤ (env.clock i).time)
    (hSoon : ∀ first ∈ s.created.head?, ∀ i, SoonAfter first.timestamp (env.clock i).time)
    (options : RecoveryOptions) :
    ∃ stats, recover C store kindText timeText env options s.history.db = .ok stats ∧
      stats.corruptedEventsFound = 0 ∧
      ∀ before, checkTemporalConsistency C store env.temporal before s.history.db =
        .ok before := by
  exact (sound_of_run hRun).recover_quietly hTime hDecodes kindText timeText rfl hQuiet hForward
    hSoon options

/-- A second into 2026. -/
def secondOf2026 : ClockReading where
  time := ⟨1767225601, 0, by decide, by decide, DateTime.epoch.frac_lt⟩
  sinceEpoch := by decide
  nonLeap := by decide

/-- Two envelopes are created a second apart, and appended together, the later one first. -/
theorem recovery_without_alarm_test :
    let a : AccountId := ⟨Uuid.fromU128 0⟩
    let e := createTestEnvelope a ⟨Uuid.fromU128 2⟩ newYear2026.time
    let f := createTestEnvelope a ⟨Uuid.fromU128 1⟩ secondOf2026.time
    ∃ (s : Session) (stats : RecoveryStats), SessionRun Crates.sample (new .default) s ∧
      s.history.acked = [.appendEvents [f, e]] ∧
      recover Crates.sample (new .default) (fun _ => "") (fun _ => "") (.still secondOf2026)
        .default s.history.db = .ok stats ∧
      stats.corruptedEventsFound = 0 := by
  intro a e f
  have hRange : newYear2026.time.InNanosRange := by decide
  have hLaterRange : secondOf2026.time.InNanosRange := by decide
  have hSoonAfter : SoonAfter newYear2026.time secondOf2026.time := by decide
  have hLater : newYear2026.time < secondOf2026.time := by
    rw [DateTime.lt_iff]
    decide
  have hNamed : (Uuid.fromU128 0).toText.text ≠ "" := by decide
  obtain ⟨db, hExec⟩ : ∃ db, (Call.perform Crates.sample (new .default) .quiet
      (.appendEvents [f, e])).exec .empty = (.ok (), db) := by
    obtain ⟨batch, -, hExec⟩ := perform_accepted Crates.sample (new .default) .quiet
      Crates.sample_lz4Encodes (.appendEvents [f, e]) .empty (List.cons_ne_nil f [e])
      (fun _ _ => ⟨rfl, rfl⟩) rfl
    exact ⟨_, hExec⟩
  let s : Session :=
    { history := ⟨db, [.appendEvents [f, e]]⟩
      clock := secondOf2026
      created := [e, f] }
  have hCall : Step Crates.sample (new .default) (fun _ call => ∀ g ∈ call.envelopes, g ∈ [e, f])
      (.started .empty) s.history :=
    .acknowledged (fun g hg => List.mem_reverse.mpr hg) hExec
  have hRun : SessionRun Crates.sample (new .default) s := by
    refine ⟨newYear2026, hRange, ?_⟩
    have hFirst : SessionStep Crates.sample (new .default) (.started newYear2026)
        { Session.started newYear2026 with created := [e] } :=
      .create _ _ _ _ _ hNamed
    have hTick : SessionStep Crates.sample (new .default)
        { Session.started newYear2026 with created := [e] }
        { Session.started secondOf2026 with created := [e] } :=
      .tick hLater.le hLaterRange
    have hSecond : SessionStep Crates.sample (new .default)
        { Session.started secondOf2026 with created := [e] }
        { Session.started secondOf2026 with created := [e, f] } :=
      .create _ _ _ _ _ hNamed
    exact Relation.ReflTransGen.refl.tail hFirst |>.tail hTick |>.tail hSecond
      |>.tail (.call hCall)
  obtain ⟨stats, hOk, hNone, -⟩ := recovery_without_alarm Crates.sample
    Crates.sample_timeTextReadsBack Crates.sample_lz4DecodesBack (new .default) (fun _ => "")
    (fun _ => "") s hRun (.still secondOf2026) (RecoveryEnv.still_quiet _)
    (fun _ => le_refl secondOf2026.time)
    (fun first hFirst i => by
      cases hFirst
      exact hSoonAfter) .default
  exact ⟨s, stats, hRun, rfl, hOk, hNone⟩

end LedgerFS.Recovery
