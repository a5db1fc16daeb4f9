import LedgerFS.EventStore.ConcurrentApi
import LedgerFS.Library.Lockstep
import LedgerFS.Library.Rollback

/-!
# Crashes and the history of calls

The database knows write batches, the callers know calls.  A crash of a store
that does not sync loses batches from the end of the log, and this module says
what that means for the callers: a crash takes back the last calls, none of
them in part, back to some call no earlier than the last synchronous append,
and the store goes on as if only the calls before had been made
(`crashes_roll_back`).

A method looks at the records and at nothing else of the database, and it
writes one batch or none; both are said once for all methods.
-/

namespace LedgerFS.EventStore

open LedgerFS.Core
open LedgerFS.Library

/-! ## Methods in lockstep -/

/-- The database fails alike during two calls. -/
structure CallEnv.SameFaults (env env' : CallEnv) : Prop where
  get : env.getFault = env'.getFault
  write : env.writeFault = env'.writeFault
  scan : env.scanFault = env'.scanFault

theorem CallEnv.SameFaults.refl (env : CallEnv) : env.SameFaults env := ⟨rfl, rfl, rfl⟩

section Lockstep

variable {S : RocksDb → RocksDb → Prop} {env env' : CallEnv}

theorem lockstep_get (hFaults : env.SameFaults env') {key : Bytes} {Q : Bytes → Bytes → Prop}
    (hRead : ∀ db db', S db db' → Option.Rel Q db.contents[key]? db'.contents[key]?) :
    Lockstep S (Option.Rel Q) (env.get key) (env'.get key) := by
  intro db db' hs
  cases hFault : env.getFault key with
  | none =>
      have hExec (e : CallEnv) (hNone : e.getFault key = none) (d : RocksDb) :
          (e.get key).run.run d = (.ok d.contents[key]?, d) := by
        simp [CallEnv.get, hNone, ExceptT.run, StateT.run]
      rw [hExec env hFault, hExec env' (hFaults.get ▸ hFault)]
      exact ⟨.ok (hRead db db' hs), hs⟩
  | some fault =>
      have hExec (e : CallEnv) (hSome : e.getFault key = some fault) (d : RocksDb) :
          (e.get key).run.run d = (.error (.databaseError fault), d) := by
        simp [CallEnv.get, hSome, ExceptT.run, StateT.run]
      rw [hExec env hFault, hExec env' (hFaults.get ▸ hFault)]
      exact ⟨.error _, hs⟩

theorem lockstep_writeOpt (hFaults : env.SameFaults env') {batch batch' : WriteBatch}
    {sync sync' : Bool}
    (hWritten : ∀ db db', S db db' → S (db.write batch sync) (db'.write batch' sync')) :
    Lockstep S Eq (env.writeOpt batch sync) (env'.writeOpt batch' sync') := by
  intro db db' hs
  cases hFault : env.writeFault with
  | none =>
      have hExec := writeOpt_exec_of_none env hFault batch sync db
      have hExec' := writeOpt_exec_of_none env' (hFaults.write ▸ hFault) batch' sync' db'
      unfold StoreM.exec at hExec hExec'
      rw [hExec, hExec']
      exact ⟨.ok rfl, hWritten db db' hs⟩
  | some fault =>
      have hExec := writeOpt_exec_of_some env hFault batch sync db
      have hExec' := writeOpt_exec_of_some env' (hFaults.write ▸ hFault) batch' sync' db'
      unfold StoreM.exec at hExec hExec'
      rw [hExec, hExec']
      exact ⟨.error _, hs⟩

/-- The key is looked up, and a taken key ends the method. -/
theorem lockstep_ifFree {α β : Type} {R : α → β → Prop} (hFaults : env.SameFaults env')
    {key : Bytes} {Q : Bytes → Bytes → Prop}
    (hRead : ∀ db db', S db db' → Option.Rel Q db.contents[key]? db'.contents[key]?)
    (refusal : EventStoreError) {next : StoreM α} {next' : StoreM β}
    (hNext : Lockstep S R next next') :
    Lockstep S R
      (do
        let existing ← env.get key
        if existing.isSome then throw refusal else next : StoreM α)
      (do
        let existing ← env'.get key
        if existing.isSome then throw refusal else next' : StoreM β) := by
  refine (lockstep_get hFaults hRead).bind fun existing existing' hSame => ?_
  cases hSame with
  | none => exact hNext
  | some _ => exact Lockstep.throw refusal

end Lockstep

/-! ## Methods see the records only -/

/-- On databases with the same records the outcome is the same, and so are the
records left behind. -/
def ContentsOnly {α : Type} (x : StoreM α) : Prop :=
  ∀ db db' : RocksDb, db.contents = db'.contents →
    (x.exec db).1 = (x.exec db').1 ∧
      RocksDb.contents (x.exec db).2 = RocksDb.contents (x.exec db').2

/-- Such a method is in lockstep with itself. -/
theorem contentsOnly_iff_lockstep {α : Type} (x : StoreM α) :
    ContentsOnly x ↔
      Lockstep (fun db db' : RocksDb => db.contents = db'.contents) Eq x x := by
  have hOutcome (y z : Except EventStoreError α) : Agree Eq y z ↔ y = z := by
    constructor
    · rintro (rfl | _) <;> rfl
    · rintro rfl
      cases y with
      | ok a => exact .ok rfl
      | error error => exact .error error
  exact forall₂_congr fun db db' => imp_congr_right fun _ => and_congr_left fun _ =>
    (hOutcome _ _).symm

namespace ContentsOnly

variable {α β : Type}

theorem pure (a : α) : ContentsOnly (Pure.pure a) := fun _ _ h => ⟨rfl, h⟩

theorem throw (error : EventStoreError) : ContentsOnly (MonadExcept.throw error : StoreM α) :=
  fun _ _ h => ⟨rfl, h⟩

theorem bind {x : StoreM α} {f : α → StoreM β} (hx : ContentsOnly x)
    (hf : ∀ a, ContentsOnly (f a)) : ContentsOnly (x >>= f) := by
  rw [contentsOnly_iff_lockstep] at hx ⊢
  refine hx.bind ?_
  rintro a _ rfl
  exact (contentsOnly_iff_lockstep _).mp (hf a)

theorem serialized (result : Except SerializationError α) :
    ContentsOnly (StoreM.serialized result) := by
  cases result with
  | ok a => exact pure a
  | error error => exact throw _

theorem writeOpt (env : CallEnv) (batch : WriteBatch) (sync : Bool) :
    ContentsOnly (env.writeOpt batch sync) := by
  rw [contentsOnly_iff_lockstep]
  refine lockstep_writeOpt (.refl env) fun db db' h => ?_
  rw [RocksDb.contents_write, RocksDb.contents_write, h]

end ContentsOnly

section Methods

variable (C : Crates) (store : EventStore) (env : CallEnv)

theorem contentsOnly_ifFree {α : Type} (key : Bytes) (refusal : EventStoreError)
    {next : StoreM α} (hNext : ContentsOnly next) :
    ContentsOnly (do
      let existing ← env.get key
      if existing.isSome then throw refusal else next) := by
  rw [contentsOnly_iff_lockstep] at hNext ⊢
  refine lockstep_ifFree (Q := Eq) (.refl env) (fun db db' h => ?_) refusal hNext
  rw [h]
  cases db'.contents[key]? with
  | none => exact .none
  | some value => exact .some rfl

theorem appendEvent_contentsOnly (envelope : EventEnvelope) :
    ContentsOnly (appendEvent C store env envelope) :=
  contentsOnly_ifFree env _ _
    ((ContentsOnly.serialized _).bind fun _ => ContentsOnly.writeOpt env _ _)

theorem prepareBatch_contentsOnly (envelopes : List EventEnvelope) (batch : WriteBatch) :
    ContentsOnly (prepareBatch C store env envelopes batch) := by
  induction envelopes generalizing batch with
  | nil => exact ContentsOnly.pure batch
  | cons envelope envelopes ih =>
      exact contentsOnly_ifFree env _ _ ((ContentsOnly.serialized _).bind fun _ => ih _)

theorem validateKeys_contentsOnly (envelopes : List EventEnvelope) :
    ContentsOnly (validateKeys C env envelopes) := by
  induction envelopes with
  | nil => exact ContentsOnly.pure ()
  | cons envelope envelopes ih => exact contentsOnly_ifFree env _ _ ih

theorem serializeBatch_contentsOnly (envelopes : List EventEnvelope) (batch : WriteBatch)
    (totalBytes : Nat) : ContentsOnly (serializeBatch C store envelopes batch totalBytes) := by
  induction envelopes generalizing batch totalBytes with
  | nil => exact ContentsOnly.pure _
  | cons envelope envelopes ih => exact (ContentsOnly.serialized _).bind fun _ => ih _ _

theorem appendEvents_contentsOnly (envelopes : List EventEnvelope) :
    ContentsOnly (appendEvents C store env envelopes) := by
  rw [appendEvents]
  split
  · exact ContentsOnly.pure ()
  · exact (prepareBatch_contentsOnly C store env envelopes []).bind fun _ =>
      ContentsOnly.writeOpt env _ _

theorem appendEventsOptimized_contentsOnly (envelopes : List EventEnvelope) :
    ContentsOnly (appendEventsOptimized C store env envelopes) := by
  rw [appendEventsOptimized]
  split
  · exact ContentsOnly.pure _
  · exact (validateKeys_contentsOnly C env envelopes).bind fun _ =>
      (serializeBatch_contentsOnly C store envelopes [] 0).bind fun _ =>
        (ContentsOnly.writeOpt env _ _).bind fun _ => ContentsOnly.pure _

/-- An iterator runs over the records. -/
theorem iterator_congr {db db' : RocksDb} (h : db.contents = db'.contents)
    (mode : IteratorMode) : db.iterator env mode = db'.iterator env mode := by
  unfold RocksDb.iterator
  rw [h]

theorem queryEvents_congr (query : EventQuery) {db db' : RocksDb}
    (h : db.contents = db'.contents) :
    store.queryEvents C env query db = store.queryEvents C env query db' := by
  rw [queryEvents, queryEvents, iterator_congr env h]

end Methods

/-! ## One batch or none -/

namespace ApiCall

variable (C : Crates) (store : EventStore) (env : CallEnv)

/-- The answer is given on the records. -/
theorem reply_congr (call : ApiCall) {db db' : RocksDb} (h : db.contents = db'.contents) :
    (call.perform C store env db).1 = (call.perform C store env db').1 := by
  cases call with
  | ofOperation operation =>
      cases operation with
      | appendEvent envelope =>
          exact congrArg (Reply.ofOutcome <| .appended ·)
            (appendEvent_contentsOnly C store env _ db db' h).1
      | appendEvents envelopes =>
          exact congrArg (Reply.ofOutcome <| .appended ·)
            (appendEvents_contentsOnly C store env _ db db' h).1
      | appendEventsOptimized envelopes =>
          exact congrArg (Reply.ofOutcome <| .appendedOptimized ·)
            (appendEventsOptimized_contentsOnly C store env _ db db' h).1
      | getEvent eventId =>
          refine congrArg (Reply.ofOutcome <| .found ·) ?_
          rw [getEvent, getEvent, iterator_congr env h]
      | queryEvents query =>
          exact congrArg (Reply.ofOutcome <| .queried ·) (queryEvents_congr C store env query h)
  | compact => rfl
  | getAccountEvents accountId =>
      refine congrArg Reply.listed ?_
      rw [EventStore.getAccountEvents, EventStore.getAccountEvents,
        queryEvents_congr C store env _ h]
  | getEventsInRange startTime endTime =>
      refine congrArg Reply.listed ?_
      rw [EventStore.getEventsInRange, EventStore.getEventsInRange,
        queryEvents_congr C store env _ h]
  | getLatestEvents limit =>
      refine congrArg Reply.listed ?_
      rw [EventStore.getLatestEvents, EventStore.getLatestEvents, iterator_congr env h]
  | getStatistics =>
      refine congrArg Reply.statistics ?_
      rw [EventStore.getStatistics, EventStore.getStatistics, iterator_congr env h]

/-- The batch a call writes on some records, and whether synchronously. -/
def effect (call : ApiCall) (contents : Contents) : Option (WriteBatch × Bool) :=
  let db := (call.perform C store env (.opened contents)).2
  db.writes.head?.map fun batch => (batch, db.durable ≠ 0)

/-- What a call leaves behind. -/
theorem perform_effect (call : ApiCall) (db : RocksDb) :
    (call.perform C store env db).2 =
      db.writeAtMost (call.effect C store env db.contents) := by
  cases call with
  | ofOperation operation =>
      have hAlone : ∀ db : RocksDb, ((ofOperation operation).perform C store env db).2 =
          ((operation.call.perform C store env).exec db).2 :=
        Operation.perform_snd C store env operation
      rw [effect, hAlone, hAlone]
      rcases perform_cases C store env operation.call db
        with ⟨batch, hSome, hAccepts, hExec⟩ | ⟨hNil, hSame⟩ | ⟨hNone, error, hExec⟩ <;>
        rcases perform_cases C store env operation.call (.opened db.contents)
          with ⟨batch', hSome', hAccepts', hExec'⟩ | ⟨hNil', hSame'⟩ | ⟨hNone', error', hExec'⟩
      · have hBatch := records_unique hAccepts.records hAccepts'.records
        rw [hExec, hExec', ← hBatch]
        cases operation.call.sync store <;> rfl
      · exact absurd hNil' hSome
      · exact absurd hAccepts (hNone' batch)
      · exact absurd hNil hSome'
      · rw [hSame, hSame']
        rfl
      · rw [hSame, hExec']
        rfl
      · exact absurd hAccepts' (hNone batch')
      · rw [hExec, hSame']
        rfl
      · rw [hExec, hExec']
        rfl
  | _ => rfl

end ApiCall

/-- The methods, by what they do on the records. -/
def apiCalls (C : Crates) (store : EventStore) :
    LoggedCalls Contents WriteBatch (CallEnv × ApiCall) Reply where
  apply := applyBatch
  answer := fun call contents => (call.2.perform C store call.1 (.opened contents)).1
  effect := fun call contents => call.2.effect C store call.1 contents

theorem apiCalls_perform (C : Crates) (store : EventStore) :
    (apiCalls C store).perform = performApi C store id := by
  funext call db
  exact Prod.ext (call.2.reply_congr C store call.1 rfl)
    (call.2.perform_effect C store call.1 db).symm

section Crashes

variable (C : Crates) (store : EventStore)

/-- The records after some calls, one after the other, on a store opened on `base`. -/
def contentsAfter (base : Contents) (chronicle : Chronicle (CallEnv × ApiCall) Reply) :
    Contents :=
  RocksDb.contents (chronicle.log (performApi C store id) (.opened base))

/-- **Crashes are rollbacks**: whatever the calls and wherever the store crashes,
the records it may be left with are those after some of the calls in their
order: all but, for each crash, the last ones before it, back to some call no
earlier than the last synchronous append.  The calls that count were answered
as if the others had never been made, and a call that a synchronous append has
secured counts for ever. -/
theorem crashes_roll_back (base : Contents)
    (moments : List (Moment (CallEnv × ApiCall) Reply)) :
    (∀ contents, (∃ db, CrashRun applyBatch (performApi C store id) (.opened base) moments db ∧
          RocksDb.contents db = contents) ↔
        ∃ chronicle, RollsBack (performApi C store id) (.opened base) moments chronicle ∧
          contentsAfter C store base chronicle = contents) ∧
      ∀ chronicle, RollsBack (performApi C store id) (.opened base) moments chronicle →
        chronicle.made.Sublist (answersOf moments) ∧
        (sequentially (performApi C store id) (chronicle.made.map Prod.fst) (.opened base)).1 =
          chronicle.made ∧
        ∀ before after, moments = before ++ after →
          ∃ earlier, RollsBack (performApi C store id) (.opened base) before earlier ∧
            earlier.made.take earlier.secured <+: chronicle.made := by
  constructor
  · intro contents
    have hState : ∀ chronicle, (apiCalls C store).stateOf base chronicle =
        contentsAfter C store base chronicle := by
      intro chronicle
      rw [LoggedCalls.stateOf, apiCalls_perform]
      rfl
    have hCalls := (apiCalls C store).crashRun_iff_rollsBack base moments contents
    simp only [hState, apiCalls_perform] at hCalls
    exact hCalls
  · intro chronicle hBack
    refine ⟨hBack.sublist, hBack.serial, ?_⟩
    rintro before after rfl
    obtain ⟨earlier, hEarlier, -, hPrefix⟩ := hBack.secured_prefix
    exact ⟨earlier, hEarlier, hPrefix⟩

/-- One event appended without sync, and a crash: the store may be empty, and it may
hold the event. -/
theorem crash_of_unsynced_append :
    let store := new .default
    let envelope := createTestEnvelope ⟨Uuid.fromU128 1⟩ ⟨Uuid.fromU128 2⟩ DateTime.epoch
    let run := CrashRun applyBatch (performApi Crates.sample store id) (.opened ∅)
    ∃ moments, (∃ db, run moments db ∧ RocksDb.contents db = ∅) ∧
      ∃ db, run moments db ∧ (RocksDb.contents db)[generateEventKey envelope]? ≠ none := by
  intro store envelope run
  let call : CallEnv × ApiCall := (.quiet, .ofOperation (.appendEvent envelope))
  let perform := performApi Crates.sample store id
  have hStart : RollsBack perform (.opened ∅) [] .blank := .start
  have hBack := hStart.call rfl call
  obtain ⟨batch, hAccepts, hExec⟩ := perform_accepted Crates.sample store .quiet
    Crates.sample_lz4Encodes (.appendEvent envelope) .empty (List.cons_ne_nil _ _)
    (fun _ _ => ⟨rfl, rfl⟩) rfl
  have hAfter : (perform call (.opened ∅)).2 = RocksDb.empty.write batch false := by
    show (Operation.perform Crates.sample store .quiet (.appendEvent envelope) .empty).2 = _
    rw [Operation.perform_snd]
    exact congrArg Prod.snd hExec
  have hSecured : ∀ answer : Reply, (Chronicle.blank.record call answer (decide
      (RocksDb.empty.durable < (perform call (.opened ∅)).2.durable))).secured = 0 := by
    intro answer
    rw [hAfter]
    rfl
  refine ⟨_, ((crashes_roll_back Crates.sample store ∅ _).1 _).mpr ⟨_, hBack.crash (m := 0)
    (hSecured _).le (Nat.zero_le _), rfl⟩, ?_⟩
  obtain ⟨db, hRun, hContents⟩ := ((crashes_roll_back Crates.sample store ∅ _).1 _).mpr
    ⟨_, hBack.crash (m := 1) ((hSecured _).le.trans (Nat.zero_le 1)) (Nat.le_refl 1), rfl⟩
  refine ⟨db, hRun, ?_⟩
  rw [hContents]
  show (RocksDb.contents (perform call (.opened ∅)).2)[generateEventKey envelope]? ≠ none
  obtain ⟨value, -, hGet⟩ := hAccepts.holds (List.nodup_singleton _) List.mem_cons_self
  rw [hAfter, RocksDb.contents_write]
  exact fun hNone => by cases hGet.symm.trans hNone

end Crashes

end LedgerFS.EventStore
