import LedgerFS.EventStore.Append
import Mathlib.Logic.Relation

/-!
# Runs of the store

A run is a sequence of calls, each with its own share of the outside world.
What one call can do to the database is said once, in `perform_cases`: write
one accepted batch, or nothing.  That records are never changed or removed and
that a failing call changes nothing (`appendOnly_run`) follows from it.

`Reachable` adds the calls acknowledged so far to the database, and restricts
the calls of a run by a condition on the database they meet.  Every record of a
store built by a run belongs to an acknowledged event (`Reachable.acknowledged`).
-/

namespace LedgerFS.EventStore

open LedgerFS.Core
open LedgerFS.Library

/-- The calls of a run. -/
inductive Call
  | appendEvent (envelope : EventEnvelope)
  | appendEvents (envelopes : List EventEnvelope)
  | appendEventsOptimized (envelopes : List EventEnvelope)
  | compact
  | getEvent (eventId : EventId)
  | queryEvents (query : EventQuery)
  | getAccountEvents (accountId : AccountId)
  | getEventsInRange (startTime endTime : DateTime)
  | getLatestEvents (limit : Nat)
  | getStatistics

namespace Call

/-- The envelopes a call appends. -/
def envelopes : Call → List EventEnvelope
  | .appendEvent envelope => [envelope]
  | .appendEvents envelopes => envelopes
  | .appendEventsOptimized envelopes => envelopes
  | _ => []

/-- The sync flag of the write. -/
def sync (store : EventStore) : Call → Bool
  | .appendEventsOptimized envelopes => optimizedSync store envelopes
  | _ => store.config.syncWrites

section Perform

variable (C : Crates) (store : EventStore) (env : CallEnv)

/-- A call, without its result. -/
def perform : Call → StoreM Unit
  | .appendEvent envelope => store.appendEvent C env envelope
  | .appendEvents envelopes => store.appendEvents C env envelopes
  | .appendEventsOptimized envelopes => do
      let _ ← store.appendEventsOptimized C env envelopes
      pure ()
  | .compact => EventStore.compact
  | .getEvent eventId => do
      let _ ← StoreM.reading (store.getEvent C env eventId)
      pure ()
  | .queryEvents query => do
      let _ ← StoreM.reading (store.queryEvents C env query)
      pure ()
  | .getAccountEvents accountId => do
      let _ ← StoreM.reading (store.getAccountEvents C env accountId)
      pure ()
  | .getEventsInRange startTime endTime => do
      let _ ← StoreM.reading (store.getEventsInRange C env startTime endTime)
      pure ()
  | .getLatestEvents limit => do
      let _ ← StoreM.reading (store.getLatestEvents C env limit)
      pure ()
  | .getStatistics => do
      let _ ← StoreM.reading (store.getStatistics C env)
      pure ()

end Perform

end Call

section OneCall

theorem reading_leaves {α : Type} (method : RocksDb → Except EventStoreError α)
    (db : RocksDb) :
    (StoreM.exec (do
      let _ ← StoreM.reading method
      pure ()) db).2 = db := by
  have hExec : StoreM.exec (StoreM.reading method) db = (method db, db) := rfl
  cases hRead : method db with
  | ok a =>
      rw [hRead] at hExec
      rw [StoreM.exec_bind_ok hExec, StoreM.exec_pure]
  | error error =>
      rw [hRead] at hExec
      rw [StoreM.exec_bind_error hExec]

variable (C : Crates) (store : EventStore) (env : CallEnv)

/-- **One call**: an accepted batch is written, or there was nothing to append,
or the call fails and leaves the database as it was. -/
theorem perform_cases (call : Call) (db : RocksDb) :
    (∃ batch, call.envelopes ≠ [] ∧
        Accepts C store env db.contents call.envelopes batch ∧
        (call.perform C store env).exec db = (.ok (), db.write batch (call.sync store))) ∨
      (call.envelopes = [] ∧ ((call.perform C store env).exec db).2 = db) ∨
      ((∀ batch, ¬ Accepts C store env db.contents call.envelopes batch) ∧
        ∃ error, (call.perform C store env).exec db = (.error error, db)) := by
  cases call with
  | appendEvent envelope =>
      rcases appendEvent_appends C store env envelope db
        with ⟨batch, _, hAccepts, hExec⟩ | hRefused
      · exact Or.inl ⟨batch, List.cons_ne_nil _ _, hAccepts, hExec⟩
      · exact Or.inr (Or.inr hRefused)
  | appendEvents envelopes =>
      by_cases hNil : envelopes = []
      · subst hNil
        exact Or.inr (Or.inl ⟨rfl, rfl⟩)
      · rcases appendEvents_appends C store env hNil db
          with ⟨batch, _, hAccepts, hExec⟩ | hRefused
        · exact Or.inl ⟨batch, hNil, hAccepts, hExec⟩
        · exact Or.inr (Or.inr hRefused)
  | appendEventsOptimized envelopes =>
      by_cases hNil : envelopes = []
      · subst hNil
        exact Or.inr (Or.inl ⟨rfl, rfl⟩)
      · rcases appendEventsOptimized_appends C store env hNil db
          with ⟨batch, result, hAccepts, hExec⟩ | ⟨hNone, error, hExec⟩
        · exact Or.inl ⟨batch, hNil, hAccepts, StoreM.exec_bind_ok hExec _⟩
        · exact Or.inr (Or.inr ⟨hNone, error, StoreM.exec_bind_error hExec _⟩)
  | compact => exact Or.inr (Or.inl ⟨rfl, rfl⟩)
  | getEvent eventId => exact Or.inr (Or.inl ⟨rfl, reading_leaves _ db⟩)
  | queryEvents query => exact Or.inr (Or.inl ⟨rfl, reading_leaves _ db⟩)
  | getAccountEvents accountId => exact Or.inr (Or.inl ⟨rfl, reading_leaves _ db⟩)
  | getEventsInRange startTime endTime => exact Or.inr (Or.inl ⟨rfl, reading_leaves _ db⟩)
  | getLatestEvents limit => exact Or.inr (Or.inl ⟨rfl, reading_leaves _ db⟩)
  | getStatistics => exact Or.inr (Or.inl ⟨rfl, reading_leaves _ db⟩)

/-- **Progress**: an append to free keys is acknowledged, as long as the crates
and the database do their part. -/
theorem perform_accepted (hEncodes : C.Lz4Encodes) (call : Call) (db : RocksDb)
    (hSome : call.envelopes ≠ [])
    (hFree : ∀ e ∈ call.envelopes, KeyIsFree env db.contents e)
    (hWritable : env.writeFault = none) :
    ∃ batch, Accepts C store env db.contents call.envelopes batch ∧
      (call.perform C store env).exec db = (.ok (), db.write batch (call.sync store)) := by
  obtain ⟨batch, hAccepts⟩ := exists_accepts C store env hEncodes db.contents call.envelopes
    hFree hWritable
  rcases perform_cases C store env call db
    with ⟨batch', -, hAccepts', hExec⟩ | ⟨hNil, -⟩ | ⟨hNone, -⟩
  · exact ⟨batch', hAccepts', hExec⟩
  · exact absurd hNil hSome
  · exact absurd hAccepts (hNone batch)

variable {C store env}

/-- What is stored is none of the keys of an accepted batch. -/
theorem Accepts.get_of_stored {contents : Contents} {envelopes : List EventEnvelope}
    {batch : WriteBatch} (h : Accepts C store env contents envelopes batch) {k v : Bytes}
    (hStored : contents[k]? = some v) : (applyBatch contents batch)[k]? = some v := by
  have hNot : k ∉ batch.map Prod.fst := by
    rw [keys_of_records h.records]
    intro hk
    obtain ⟨e, he, rfl⟩ := List.mem_map.mp hk
    rw [(h.free e he).2] at hStored
    cases hStored
  rw [applyBatch_get_of_not_mem contents batch k hNot]
  exact hStored

/-- What is stored stays stored. -/
theorem Accepts.keeps {contents : Contents} {envelopes : List EventEnvelope}
    {batch : WriteBatch} (h : Accepts C store env contents envelopes batch)
    {e : EventEnvelope} (hStored : Holds C store contents e) :
    Holds C store (applyBatch contents batch) e := by
  obtain ⟨value, hValue, hGet⟩ := hStored
  exact ⟨value, hValue, h.get_of_stored hGet⟩

/-- A record stays through a call. -/
theorem perform_keeps (call : Call) (db : RocksDb) {k v : Bytes}
    (hStored : db.contents[k]? = some v) :
    (RocksDb.contents ((call.perform C store env).exec db).2)[k]? = some v := by
  rcases perform_cases C store env call db
    with ⟨batch, -, hAccepts, hExec⟩ | ⟨-, hSame⟩ | ⟨-, error, hExec⟩
  · rw [hExec, RocksDb.contents_write]
    exact hAccepts.get_of_stored hStored
  · rw [hSame]
    exact hStored
  · rw [hExec]
    exact hStored

/-- A call that fails leaves the database as it was. -/
theorem perform_error_leaves {call : Call} {db db' : RocksDb} {error : EventStoreError}
    (h : (call.perform C store env).exec db = (.error error, db')) : db' = db := by
  rcases perform_cases C store env call db
    with ⟨batch, -, -, hExec⟩ | ⟨-, hSame⟩ | ⟨-, error', hExec⟩
  · cases (Prod.mk.inj (hExec.symm.trans h)).1
  · rw [h] at hSame
    exact hSame
  · exact (Prod.mk.inj (hExec.symm.trans h)).2.symm

end OneCall

section Run

variable (C : Crates) (store : EventStore)

/-- The database after a sequence of calls. -/
def run (steps : List (CallEnv × Call)) (db : RocksDb) : RocksDb :=
  steps.foldl (fun db step => ((step.2.perform C store step.1).exec db).2) db

theorem run_append (steps steps' : List (CallEnv × Call)) (db : RocksDb) :
    run C store (steps ++ steps') db = run C store steps' (run C store steps db) :=
  List.foldl_append

/-- A record stays through a run. -/
theorem run_keeps (steps : List (CallEnv × Call)) (db : RocksDb) {k v : Bytes}
    (hStored : db.contents[k]? = some v) :
    (RocksDb.contents (run C store steps db))[k]? = some v := by
  induction steps generalizing db with
  | nil => exact hStored
  | cons step steps ih => exact ih _ (perform_keeps step.2 db hStored)

/-- **Append-only**: in every run from every database, a record present before
a call is there after it, and after every later call, with the same value; and
a call that fails leaves all records as they were. -/
theorem appendOnly_run (db : RocksDb) (before after : List (CallEnv × Call))
    (env : CallEnv) (call : Call) :
    let here := run C store before db
    let outcome := (call.perform C store env).exec here
    let last := run C store (before ++ (env, call) :: after) db
    (∀ k v : Bytes, here.contents[k]? = some v →
      (RocksDb.contents outcome.2)[k]? = some v ∧ last.contents[k]? = some v) ∧
    ∀ error, outcome.1 = .error error → RocksDb.contents outcome.2 = here.contents := by
  intro here outcome last
  constructor
  · intro k v hStored
    have hNext : (RocksDb.contents outcome.2)[k]? = some v := perform_keeps call here hStored
    refine ⟨hNext, ?_⟩
    have hLast : last = run C store after outcome.2 :=
      run_append C store before ((env, call) :: after) db
    rw [hLast]
    exact run_keeps C store after outcome.2 hNext
  · intro error hError
    have hOutcome : (call.perform C store env).exec here = (.error error, outcome.2) :=
      Prod.ext hError rfl
    rw [perform_error_leaves hOutcome]

end Run

/-! ## Acknowledged calls -/

/-- A database and the calls acknowledged on the way to it, latest first. -/
structure History where
  db : RocksDb
  acked : List Call

namespace History

/-- The envelopes whose append was acknowledged. -/
def ackedEvents (h : History) : List EventEnvelope := h.acked.flatMap Call.envelopes

/-- A history without calls. -/
def started (db : RocksDb) : History := ⟨db, []⟩

end History

section Histories

variable (C : Crates) (store : EventStore)

/-- One call that meets the condition, acknowledged or not. -/
inductive Step (admits : Contents → Call → Prop) : History → History → Prop
  | acknowledged {h : History} {env : CallEnv} {call : Call} {db : RocksDb}
      (hAdmits : admits h.db.contents call)
      (hExec : (call.perform C store env).exec h.db = (.ok (), db)) :
      Step admits h ⟨db, call :: h.acked⟩
  | failed {h : History} {env : CallEnv} {call : Call} {error : EventStoreError}
      {db : RocksDb} (hAdmits : admits h.db.contents call)
      (hExec : (call.perform C store env).exec h.db = (.error error, db)) :
      Step admits h ⟨db, h.acked⟩

/-- Histories of the runs whose calls all meet the condition. -/
def Reachable (admits : Contents → Call → Prop) (start : RocksDb) (h : History) : Prop :=
  Relation.ReflTransGen (Step C store admits) (.started start) h

/-- No condition. -/
def AnyCall : Contents → Call → Prop := fun _ _ => True

variable {C store} {admits : Contents → Call → Prop}

/-- A step under a condition is one under any weaker condition. -/
theorem Step.mono {admits' : Contents → Call → Prop} {h h' : History}
    (hStep : Step C store admits h h')
    (hWeaker : ∀ {contents call}, admits contents call → admits' contents call) :
    Step C store admits' h h' := by
  cases hStep with
  | acknowledged hAdmits hExec => exact .acknowledged (hWeaker hAdmits) hExec
  | failed hAdmits hExec => exact .failed (hWeaker hAdmits) hExec

/-- A run under a condition is one under any weaker condition. -/
theorem Reachable.mono {admits' : Contents → Call → Prop} {start : RocksDb} {h : History}
    (hReach : Reachable C store admits start h)
    (hWeaker : ∀ {contents call}, admits contents call → admits' contents call) :
    Reachable C store admits' start h :=
  Relation.ReflTransGen.mono (fun _ _ hStep => hStep.mono hWeaker) _ _ hReach

/-- **What a step does**: it writes the batch of an acknowledged call, or
changes nothing and acknowledges no envelope. -/
theorem Step.effect {h h' : History} (hStep : Step C store admits h h') :
    (∃ env call batch, admits h.db.contents call ∧ call.envelopes ≠ [] ∧
        Accepts C store env h.db.contents call.envelopes batch ∧
        h' = ⟨h.db.write batch (call.sync store), call :: h.acked⟩) ∨
      h'.db = h.db ∧
        (h'.acked = h.acked ∨ ∃ call : Call, call.envelopes = [] ∧ h'.acked = call :: h.acked) := by
  cases hStep with
  | @acknowledged env call db hAdmits hExec =>
      rcases perform_cases C store env call h.db
        with ⟨batch, hSome, hAccepts, hWritten⟩ | ⟨hNil, hSame⟩ | ⟨-, error, hError⟩
      · obtain ⟨-, hDb⟩ := Prod.mk.inj (hWritten.symm.trans hExec)
        exact Or.inl ⟨env, call, batch, hAdmits, hSome, hAccepts, by rw [hDb]⟩
      · rw [hExec] at hSame
        exact Or.inr ⟨hSame, Or.inr ⟨call, hNil, rfl⟩⟩
      · cases (Prod.mk.inj (hError.symm.trans hExec)).1
  | failed hAdmits hExec => exact Or.inr ⟨perform_error_leaves hExec, Or.inl rfl⟩

/-- A step without a batch acknowledges no envelope. -/
theorem ackedEvents_eq_of_quiet {h h' : History}
    (hAcked : h'.acked = h.acked ∨
      ∃ call : Call, call.envelopes = [] ∧ h'.acked = call :: h.acked) :
    h'.ackedEvents = h.ackedEvents := by
  rcases hAcked with hSame | ⟨call, hNil, hCons⟩
  · rw [History.ackedEvents, hSame, History.ackedEvents]
  · rw [History.ackedEvents, hCons, List.flatMap_cons, hNil, List.nil_append,
      History.ackedEvents]

/-- What is stored after an accepted batch was stored before, or belongs to
one of its envelopes. -/
theorem Accepts.stored_cases {env : CallEnv} {contents : Contents}
    {envelopes : List EventEnvelope} {batch : WriteBatch}
    (h : Accepts C store env contents envelopes batch) {record : Bytes × Bytes}
    (hStored : record ∈ (applyBatch contents batch).toList) :
    record ∈ contents.toList ∨ ∃ e ∈ envelopes, IsRecord C store e record := by
  rw [Std.ExtTreeMap.mem_toList_iff_getElem?_eq_some] at hStored ⊢
  by_cases hk : record.1 ∈ batch.map Prod.fst
  · obtain ⟨w, hMem, hGet⟩ := applyBatch_get_of_mem contents batch record.1 hk
    have hValue : w = record.2 := Option.some.inj (hGet.symm.trans hStored)
    subst hValue
    exact Or.inr (exists_envelope_of_mem h.records hMem)
  · rw [applyBatch_get_of_not_mem contents batch record.1 hk] at hStored
    exact Or.inl hStored

/-- Under distinct keys an accepted batch adds the records of its envelopes. -/
theorem Accepts.get_iff {env : CallEnv} {contents : Contents}
    {envelopes : List EventEnvelope} {batch : WriteBatch}
    (h : Accepts C store env contents envelopes batch)
    (hNodup : (envelopes.map generateEventKey).Nodup) (k v : Bytes) :
    (applyBatch contents batch)[k]? = some v ↔
      contents[k]? = some v ∨ ∃ e ∈ envelopes, IsRecord C store e (k, v) := by
  constructor
  · intro hGet
    rcases h.stored_cases (Std.ExtTreeMap.mem_toList_iff_getElem?_eq_some.mpr hGet)
      with hOld | hNew
    · exact Or.inl (Std.ExtTreeMap.mem_toList_iff_getElem?_eq_some.mp hOld)
    · exact Or.inr hNew
  · rintro (hOld | ⟨e, he, hRecord⟩)
    · exact h.get_of_stored hOld
    · obtain ⟨value, hValue, hGet⟩ := h.holds hNodup he
      have hSame : value = v := Except.ok.inj (hValue.symm.trans hRecord.2)
      have hKey : k = generateEventKey e := hRecord.1
      rw [hKey, ← hSame]
      exact hGet

/-- **Records of a run**: a store that starts empty holds nothing but records
of acknowledged events. -/
theorem Reachable.acknowledged {h : History} (hReach : Reachable C store admits .empty h) :
    ∀ record ∈ h.db.contents.toList, ∃ e ∈ h.ackedEvents, IsRecord C store e record := by
  induction hReach with
  | refl =>
      intro record hMem
      cases hMem
  | tail _ hStep ih =>
      rcases hStep.effect with ⟨env, call, batch, -, -, hAccepts, rfl⟩ | ⟨hSame, hAcked⟩
      · intro record hMem
        rw [RocksDb.contents_write] at hMem
        rw [History.ackedEvents, List.flatMap_cons]
        rcases hAccepts.stored_cases hMem with hOld | ⟨e, he, hRecord⟩
        · obtain ⟨e, he, hRecord⟩ := ih record hOld
          exact ⟨e, List.mem_append_right _ he, hRecord⟩
        · exact ⟨e, List.mem_append_left _ he, hRecord⟩
      · rw [hSame, ackedEvents_eq_of_quiet hAcked]
        exact ih

/-- There are no more records than acknowledged events. -/
theorem Reachable.size_le {h : History} (hReach : Reachable C store admits .empty h) :
    h.db.contents.size ≤ h.ackedEvents.length := by
  induction hReach with
  | refl => exact Nat.le_refl 0
  | @tail before _ _ hStep ih =>
      rcases hStep.effect with ⟨env, call, batch, -, -, hAccepts, rfl⟩ | ⟨hSame, hAcked⟩
      · have hSize := size_applyBatch_le before.db.contents batch
        rw [← hAccepts.records.length_eq] at hSize
        rw [RocksDb.contents_write, History.ackedEvents, List.flatMap_cons, List.length_append]
        rw [History.ackedEvents] at ih
        omega
      · rw [hSame, ackedEvents_eq_of_quiet hAcked]
        exact ih

/-- Decoding a record gives its envelope reread, under the seeds of the call. -/
theorem decodeItem_of_record (hTime : C.TimeTextReadsBack) (hDecodes : C.Lz4DecodesBack)
    (env : CallEnv) {e : EventEnvelope} {record : Bytes × Bytes}
    (h : IsRecord C store e record) :
    decodeItem C store env (.ok record) = .ok (e.reread (env.seeds record.2)) := by
  have hBack := EventSerializer.deserialize_serialize hTime hDecodes h.2
    (env.seeds record.2)
  show (store.serializer.deserialize C (env.seeds record.2) record.2).mapError
    EventStoreError.serializationError = _
  rw [hBack]
  rfl

/-- What no acknowledged envelope is stored under is free. -/
theorem Reachable.free {h : History} (hReach : Reachable C store admits .empty h)
    {key : Bytes} (hKey : key ∉ h.ackedEvents.map generateEventKey) :
    h.db.contents[key]? = none := by
  by_contra hTaken
  obtain ⟨value, hValue⟩ := Option.ne_none_iff_exists'.mp hTaken
  obtain ⟨e, he, hRecord⟩ := hReach.acknowledged (key, value)
    (Std.ExtTreeMap.mem_toList_iff_getElem?_eq_some.mpr hValue)
  exact hKey (List.mem_map.mpr ⟨e, he, hRecord.1.symm⟩)

/-- **Progress of a run**: an append to free keys may come next. -/
theorem Reachable.extend (hEncodes : C.Lz4Encodes) {start : RocksDb} {h : History}
    (hReach : Reachable C store admits start h) (call : Call)
    (hAdmits : admits h.db.contents call) (hSome : call.envelopes ≠ [])
    (hFree : ∀ e ∈ call.envelopes, h.db.contents[generateEventKey e]? = none) :
    ∃ batch, Accepts C store .quiet h.db.contents call.envelopes batch ∧
      Reachable C store admits start
        ⟨h.db.write batch (call.sync store), call :: h.acked⟩ := by
  obtain ⟨batch, hAccepts, hExec⟩ := perform_accepted C store .quiet hEncodes call h.db
    hSome (fun e he => ⟨rfl, hFree e he⟩) rfl
  exact ⟨batch, hAccepts, hReach.tail (.acknowledged hAdmits hExec)⟩

/-- A run of one append: to free keys it is acknowledged and stores its events. -/
theorem exists_history (hEncodes : C.Lz4Encodes) (store : EventStore)
    (admits : Contents → Call → Prop) (call : Call)
    (hAdmits : admits RocksDb.empty.contents call)
    (hSome : call.envelopes ≠ []) (hKeys : (call.envelopes.map generateEventKey).Nodup) :
    ∃ h : History, h.acked = [call] ∧ Reachable C store admits .empty h ∧
      ∀ e ∈ call.envelopes, Holds C store h.db.contents e := by
  have hStart : Reachable C store admits .empty (.started .empty) := .refl
  obtain ⟨batch, hAccepts, hReach⟩ := hStart.extend hEncodes call hAdmits hSome
    (fun _ _ => rfl)
  refine ⟨_, rfl, hReach, ?_⟩
  intro e he
  rw [RocksDb.contents_write]
  exact hAccepts.holds hKeys he

/-- A run of appends under distinct keys. -/
theorem exists_history_of_calls (hEncodes : C.Lz4Encodes) (store : EventStore)
    (admits : Contents → Call → Prop) (calls : List Call)
    (hAdmits : ∀ call ∈ calls, ∀ contents, admits contents call)
    (hSome : ∀ call ∈ calls, call.envelopes ≠ [])
    (hKeys : ((calls.flatMap Call.envelopes).map generateEventKey).Nodup) :
    ∃ h : History, h.acked = calls.reverse ∧ Reachable C store admits .empty h := by
  induction calls using List.reverseRecOn with
  | nil => exact ⟨.started .empty, rfl, .refl⟩
  | append_singleton calls call ih =>
      rw [List.flatMap_append, List.flatMap_singleton, List.map_append] at hKeys
      obtain ⟨h, hAcked, hReach⟩ := ih
        (fun c hc => hAdmits c (List.mem_append_left _ hc))
        (fun c hc => hSome c (List.mem_append_left _ hc)) hKeys.of_append_left
      have hPerm : h.ackedEvents.Perm (calls.flatMap Call.envelopes) := by
        rw [History.ackedEvents, hAcked]
        exact (List.reverse_perm calls).flatMap_right Call.envelopes
      have hLast : call ∈ calls ++ [call] := List.mem_append_right _ List.mem_cons_self
      obtain ⟨batch, -, hNext⟩ := hReach.extend hEncodes call (hAdmits call hLast _)
        (hSome call hLast) (fun e he => hReach.free fun hOld =>
          List.disjoint_of_nodup_append hKeys
            ((hPerm.map generateEventKey).mem_iff.mp hOld) (List.mem_map_of_mem he))
      refine ⟨_, ?_, hNext⟩
      rw [hAcked, List.reverse_append]
      rfl

end Histories

end LedgerFS.EventStore
