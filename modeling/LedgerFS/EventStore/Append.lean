import LedgerFS.EventStore.Store

/-!
# What an append does

The three append paths check, serialize and batch in different orders, but
they come down to one thing.  A call on a non-empty list of envelopes either
writes one batch, the keys and serialized values of all its envelopes in their
order, or leaves the database as it was.  Which of the two depends only on the
call: `Accepts` says that no key is stored yet, that every envelope
serializes and that the database does not fail.

`Appends` states this for any of the paths, and each path is shown to be an
instance of it.  Nothing in it compares the keys of one batch with each other;
what follows when two of them are equal is the subject of the last section.
-/

namespace LedgerFS.EventStore

open LedgerFS.Core
open LedgerFS.Library

section Spec

variable (C : Crates) (store : EventStore) (env : CallEnv)

/-- The record an envelope is stored as. -/
def IsRecord (envelope : EventEnvelope) (record : Bytes × Bytes) : Prop :=
  record.1 = generateEventKey envelope ∧
    store.serializer.serialize C envelope = .ok record.2

/-- The check on one key passes: it can be read, and nothing is stored. -/
def KeyIsFree (contents : Contents) (envelope : EventEnvelope) : Prop :=
  env.getFault (generateEventKey envelope) = none ∧
    contents[generateEventKey envelope]? = none

/-- A call on these envelopes goes through and writes this batch. -/
structure Accepts (contents : Contents) (envelopes : List EventEnvelope)
    (batch : WriteBatch) : Prop where
  records : List.Forall₂ (IsRecord C store) envelopes batch
  free : ∀ envelope ∈ envelopes, KeyIsFree env contents envelope
  writable : env.writeFault = none

/-- **All or nothing**: one batch with a record for every envelope, or an
error and no change. -/
def Appends {α : Type} (envelopes : List EventEnvelope) (sync : Bool)
    (x : StoreM α) : Prop :=
  ∀ db, (∃ batch a, Accepts C store env db.contents envelopes batch ∧
      x.exec db = (.ok a, db.write batch sync)) ∨
    ((∀ batch, ¬ Accepts C store env db.contents envelopes batch) ∧
      ∃ error, x.exec db = (.error error, db))

end Spec

/-! ## Single statements -/

section Statements

variable (C : Crates) (store : EventStore) (env : CallEnv)

/-- Looking a key up and refusing to go on if it is there. -/
theorem get_cases {α : Type} (envelope : EventEnvelope) (next : StoreM α) (db : RocksDb) :
    let check : StoreM α := do
      let existing ← env.get (generateEventKey envelope)
      if existing.isSome then throw (alreadyExists C (generateEventKey envelope)) else next
    (KeyIsFree env db.contents envelope ∧ check.exec db = next.exec db) ∨
      (¬ KeyIsFree env db.contents envelope ∧ ∃ error, check.exec db = (.error error, db)) := by
  intro check
  cases hFault : env.getFault (generateEventKey envelope) with
  | some fault =>
      have hGet : (env.get (generateEventKey envelope)).exec db =
          (.error (.databaseError fault), db) := by
        simp [StoreM.exec, CallEnv.get, hFault, ExceptT.run, StateT.run]
      refine Or.inr ⟨?_, _, StoreM.exec_bind_error hGet _⟩
      rintro ⟨hNone, -⟩
      rw [hFault] at hNone
      cases hNone
  | none =>
      have hGet : (env.get (generateEventKey envelope)).exec db =
          (.ok db.contents[generateEventKey envelope]?, db) := by
        simp [StoreM.exec, CallEnv.get, hFault, ExceptT.run, StateT.run]
      have hCheck := StoreM.exec_bind_ok hGet fun existing =>
        if existing.isSome then throw (alreadyExists C (generateEventKey envelope)) else next
      cases hStored : db.contents[generateEventKey envelope]? with
      | none =>
          refine Or.inl ⟨⟨hFault, hStored⟩, hCheck.trans ?_⟩
          rw [hStored]
          rfl
      | some value =>
          refine Or.inr ⟨?_, alreadyExists C (generateEventKey envelope), hCheck.trans ?_⟩
          · rintro ⟨-, hNone⟩
            rw [hStored] at hNone
            cases hNone
          · rw [hStored]
            rfl

/-- Serializing an envelope and going on with its value. -/
theorem serialized_cases {α : Type} (envelope : EventEnvelope) (next : Bytes → StoreM α)
    (db : RocksDb) :
    let step : StoreM α :=
      StoreM.serialized (store.serializer.serialize C envelope) >>= next
    (∃ value, IsRecord C store envelope (generateEventKey envelope, value) ∧
        step.exec db = (next value).exec db) ∨
      ((∀ record, ¬ IsRecord C store envelope record) ∧
        ∃ error, step.exec db = (.error error, db)) := by
  intro step
  cases hValue : store.serializer.serialize C envelope with
  | ok value =>
      refine Or.inl ⟨value, ⟨rfl, hValue⟩, ?_⟩
      have hStep : (StoreM.serialized (store.serializer.serialize C envelope)).exec db =
          (.ok value, db) := by
        rw [hValue]
        rfl
      exact StoreM.exec_bind_ok hStep next
  | error error =>
      refine Or.inr ⟨?_, .serializationError error, ?_⟩
      · rintro record ⟨-, hOk⟩
        rw [hValue] at hOk
        cases hOk
      · have hStep : (StoreM.serialized (store.serializer.serialize C envelope)).exec db =
            (.error (.serializationError error), db) := by
          rw [hValue]
          rfl
        exact StoreM.exec_bind_error hStep next

theorem writeOpt_exec_of_none (h : env.writeFault = none) (batch : WriteBatch) (sync : Bool)
    (db : RocksDb) : (env.writeOpt batch sync).exec db = (.ok (), db.write batch sync) := by
  simp [StoreM.exec, CallEnv.writeOpt, h, ExceptT.run, StateT.run]

theorem writeOpt_exec_of_some {fault : RocksDbError} (h : env.writeFault = some fault)
    (batch : WriteBatch) (sync : Bool) (db : RocksDb) :
    (env.writeOpt batch sync).exec db = (.error (.databaseError fault), db) := by
  simp [StoreM.exec, CallEnv.writeOpt, h, ExceptT.run, StateT.run]

end Statements

/-! ## Loops -/

section Loops

variable (C : Crates) (store : EventStore) (env : CallEnv)

/-- Every envelope passes its check and serializes, or the loop stops. -/
theorem prepareBatch_cases (envelopes : List EventEnvelope) (batch : WriteBatch)
    (db : RocksDb) :
    (∃ puts, List.Forall₂ (IsRecord C store) envelopes puts ∧
        (∀ e ∈ envelopes, KeyIsFree env db.contents e) ∧
        (prepareBatch C store env envelopes batch).exec db = (.ok (batch ++ puts), db)) ∨
      ((∀ puts, List.Forall₂ (IsRecord C store) envelopes puts →
          ¬ ∀ e ∈ envelopes, KeyIsFree env db.contents e) ∧
        ∃ error, (prepareBatch C store env envelopes batch).exec db = (.error error, db)) := by
  induction envelopes generalizing batch with
  | nil => exact Or.inl ⟨[], .nil, by simp, by simp [prepareBatch]⟩
  | cons envelope envelopes ih =>
      rcases get_cases C env envelope
        (StoreM.serialized (store.serializer.serialize C envelope) >>= fun value =>
          prepareBatch C store env envelopes
            (batch ++ [(generateEventKey envelope, value)])) db
        with ⟨hFree, hGo⟩ | ⟨hTaken, error, hStop⟩
      · rcases serialized_cases C store envelope
          (fun value => prepareBatch C store env envelopes
            (batch ++ [(generateEventKey envelope, value)])) db
          with ⟨value, hRecord, hStep⟩ | ⟨hNone, error, hStop⟩
        · have hHere : (prepareBatch C store env (envelope :: envelopes) batch).exec db =
              (prepareBatch C store env envelopes
                (batch ++ [(generateEventKey envelope, value)])).exec db :=
            hGo.trans hStep
          rcases ih (batch ++ [(generateEventKey envelope, value)])
            with ⟨puts, hRecords, hAll, hExec⟩ | ⟨hNot, error, hExec⟩
          · refine Or.inl ⟨_ :: puts, .cons hRecord hRecords, ?_, ?_⟩
            · exact List.forall_mem_cons.mpr ⟨hFree, hAll⟩
            · rw [hHere, hExec, List.append_assoc, List.singleton_append]
          · refine Or.inr ⟨?_, error, hHere.trans hExec⟩
            rintro _ (_ | ⟨-, hRecords⟩) hAll
            exact hNot _ hRecords (List.forall_mem_cons.mp hAll).2
        · refine Or.inr ⟨?_, error, hGo.trans hStop⟩
          rintro _ (_ | ⟨hRecord, -⟩) -
          exact hNone _ hRecord
      · refine Or.inr ⟨?_, error, hStop⟩
        intro _ _ hAll
        exact hTaken (hAll _ List.mem_cons_self)

/-- The first loop of the optimized path: every key passes its check. -/
theorem validateKeys_cases (envelopes : List EventEnvelope) (db : RocksDb) :
    ((∀ e ∈ envelopes, KeyIsFree env db.contents e) ∧
        (validateKeys C env envelopes).exec db = (.ok (), db)) ∨
      ((¬ ∀ e ∈ envelopes, KeyIsFree env db.contents e) ∧
        ∃ error, (validateKeys C env envelopes).exec db = (.error error, db)) := by
  induction envelopes with
  | nil => exact Or.inl ⟨by simp, rfl⟩
  | cons envelope envelopes ih =>
      rcases get_cases C env envelope (validateKeys C env envelopes) db
        with ⟨hFree, hGo⟩ | ⟨hTaken, error, hStop⟩
      · rcases ih with ⟨hAll, hExec⟩ | ⟨hNot, error, hExec⟩
        · exact Or.inl ⟨List.forall_mem_cons.mpr ⟨hFree, hAll⟩, hGo.trans hExec⟩
        · refine Or.inr ⟨?_, error, hGo.trans hExec⟩
          intro hAll
          exact hNot (List.forall_mem_cons.mp hAll).2
      · refine Or.inr ⟨?_, error, hStop⟩
        intro hAll
        exact hTaken (hAll _ List.mem_cons_self)

/-- The second loop: every envelope serializes. -/
theorem serializeBatch_cases (envelopes : List EventEnvelope) (batch : WriteBatch)
    (totalBytes : Nat) (db : RocksDb) :
    (∃ puts bytes, List.Forall₂ (IsRecord C store) envelopes puts ∧
        (serializeBatch C store envelopes batch totalBytes).exec db =
          (.ok (batch ++ puts, bytes), db)) ∨
      ((∀ puts, ¬ List.Forall₂ (IsRecord C store) envelopes puts) ∧
        ∃ error, (serializeBatch C store envelopes batch totalBytes).exec db =
          (.error error, db)) := by
  induction envelopes generalizing batch totalBytes with
  | nil => exact Or.inl ⟨[], totalBytes, .nil, by simp [serializeBatch]⟩
  | cons envelope envelopes ih =>
      rcases serialized_cases C store envelope
        (fun value => serializeBatch C store envelopes
          (batch ++ [(generateEventKey envelope, value)])
          (totalBytes + ((generateEventKey envelope).length + value.length))) db
        with ⟨value, hRecord, hStep⟩ | ⟨hNone, error, hStop⟩
      · rcases ih (batch ++ [(generateEventKey envelope, value)])
          (totalBytes + ((generateEventKey envelope).length + value.length))
          with ⟨puts, bytes, hRecords, hExec⟩ | ⟨hNot, error, hExec⟩
        · refine Or.inl ⟨_ :: puts, bytes, .cons hRecord hRecords, ?_⟩
          rw [List.append_assoc, List.singleton_append] at hExec
          exact hStep.trans hExec
        · refine Or.inr ⟨?_, error, hStep.trans hExec⟩
          rintro _ (_ | ⟨-, hRecords⟩)
          exact hNot _ hRecords
      · refine Or.inr ⟨?_, error, hStop⟩
        rintro _ (_ | ⟨hRecord, -⟩)
        exact hNone _ hRecord

end Loops

/-! ## The three paths -/

section Paths

variable (C : Crates) (store : EventStore) (env : CallEnv)

theorem appendEvent_appends (envelope : EventEnvelope) :
    Appends C store env [envelope] store.config.syncWrites
      (appendEvent C store env envelope) := by
  intro db
  rcases get_cases C env envelope
    (StoreM.serialized (store.serializer.serialize C envelope) >>= fun value =>
      env.putOpt (generateEventKey envelope) value store.config.syncWrites) db
    with ⟨hFree, hGo⟩ | ⟨hTaken, error, hStop⟩
  · rcases serialized_cases C store envelope
      (fun value => env.putOpt (generateEventKey envelope) value store.config.syncWrites) db
      with ⟨value, hRecord, hStep⟩ | ⟨hNone, error, hStop⟩
    · cases hFault : env.writeFault with
      | none =>
          refine Or.inl ⟨[(generateEventKey envelope, value)], (), ?_, ?_⟩
          · exact ⟨.cons hRecord .nil, by simpa using hFree, hFault⟩
          · exact (hGo.trans hStep).trans (writeOpt_exec_of_none env hFault _ _ db)
      | some fault =>
          refine Or.inr ⟨?_, _, (hGo.trans hStep).trans
            (writeOpt_exec_of_some env hFault _ _ db)⟩
          intro _ hAccepts
          exact absurd (hFault.symm.trans hAccepts.writable) (by simp)
    · refine Or.inr ⟨?_, error, hGo.trans hStop⟩
      rintro _ ⟨_ | ⟨hRecord, -⟩, -, -⟩
      exact hNone _ hRecord
  · refine Or.inr ⟨?_, error, hStop⟩
    intro _ hAccepts
    exact hTaken (hAccepts.free _ List.mem_cons_self)

theorem appendEvents_appends {envelopes : List EventEnvelope} (hSome : envelopes ≠ []) :
    Appends C store env envelopes store.config.syncWrites
      (appendEvents C store env envelopes) := by
  intro db
  have hCall : appendEvents C store env envelopes =
      prepareBatch C store env envelopes [] >>= fun batch =>
        env.writeOpt batch store.config.syncWrites := by
    rw [appendEvents, if_neg (by simpa using hSome)]
  rw [hCall]
  rcases prepareBatch_cases C store env envelopes [] db
    with ⟨batch, hRecords, hFree, hExec⟩ | ⟨hNot, error, hExec⟩
  · have hStep := StoreM.exec_bind_ok hExec fun batch =>
      env.writeOpt batch store.config.syncWrites
    cases hFault : env.writeFault with
    | none =>
        exact Or.inl ⟨batch, (), ⟨hRecords, hFree, hFault⟩,
          hStep.trans (writeOpt_exec_of_none env hFault _ _ db)⟩
    | some fault =>
        refine Or.inr ⟨?_, _, hStep.trans (writeOpt_exec_of_some env hFault _ _ db)⟩
        intro _ hAccepts
        exact absurd (hFault.symm.trans hAccepts.writable) (by simp)
  · refine Or.inr ⟨?_, error, StoreM.exec_bind_error hExec _⟩
    intro batch hAccepts
    exact hNot batch hAccepts.records hAccepts.free

/-- The sync flag of the optimized path: off for large batches. -/
def optimizedSync (envelopes : List EventEnvelope) : Bool :=
  if envelopes.length > 100 then false else store.config.syncWrites

theorem appendEventsOptimized_appends {envelopes : List EventEnvelope}
    (hSome : envelopes ≠ []) :
    Appends C store env envelopes (optimizedSync store envelopes)
      (appendEventsOptimized C store env envelopes) := by
  intro db
  rw [appendEventsOptimized, if_neg (by simpa using hSome)]
  rcases validateKeys_cases C env envelopes db with ⟨hFree, hValid⟩ | ⟨hNot, error, hValid⟩
  · rw [StoreM.exec_bind_ok hValid]
    rcases serializeBatch_cases C store envelopes [] 0 db
      with ⟨batch, bytes, hRecords, hExec⟩ | ⟨hNot, error, hExec⟩
    · rw [StoreM.exec_bind_ok hExec]
      cases hFault : env.writeFault with
      | none =>
          refine Or.inl ⟨batch, ⟨envelopes.length, bytes, env.elapsed⟩,
            ⟨hRecords, hFree, hFault⟩, ?_⟩
          exact StoreM.exec_bind_ok (writeOpt_exec_of_none env hFault _ _ db) _
      | some fault =>
          refine Or.inr ⟨?_, _, StoreM.exec_bind_error
            (writeOpt_exec_of_some env hFault _ _ db) _⟩
          intro _ hAccepts
          exact absurd (hFault.symm.trans hAccepts.writable) (by simp)
    · refine Or.inr ⟨?_, error, StoreM.exec_bind_error hExec _⟩
      intro batch hAccepts
      exact hNot batch hAccepts.records
  · refine Or.inr ⟨?_, error, StoreM.exec_bind_error hValid _⟩
    intro _ hAccepts
    exact hNot hAccepts.free

/-- The optimized path reports the length of its list. -/
theorem eventsWritten_eq {envelopes : List EventEnvelope} {db db' : RocksDb}
    {result : AppendResult}
    (h : (appendEventsOptimized C store env envelopes).exec db = (.ok result, db')) :
    result.eventsWritten = envelopes.length := by
  by_cases hNil : envelopes = []
  · subst hNil
    cases h
    rfl
  · rw [appendEventsOptimized, if_neg (by simpa using hNil)] at h
    obtain ⟨-, _, -, h⟩ := StoreM.exec_bind_eq_ok h
    obtain ⟨⟨batch, bytes⟩, _, -, h⟩ := StoreM.exec_bind_eq_ok h
    obtain ⟨-, _, -, h⟩ := StoreM.exec_bind_eq_ok h
    cases h
    rfl

end Paths

/-! ## Completeness of batches -/

section Completeness

variable (C : Crates) (store : EventStore) (env : CallEnv)

/-- The call cannot go through: a key is stored already or cannot be read, an
envelope does not serialize, or the write fails. -/
def Refused (contents : Contents) (envelopes : List EventEnvelope) : Prop :=
  (∃ e ∈ envelopes, ¬ KeyIsFree env contents e) ∨
    (∃ e ∈ envelopes, ∃ error, store.serializer.serialize C e = .error error) ∨
      env.writeFault ≠ none

/-- The envelope is stored under its own key with its own serialized value. -/
def Holds (contents : Contents) (envelope : EventEnvelope) : Prop :=
  ∃ value, store.serializer.serialize C envelope = .ok value ∧
    contents[generateEventKey envelope]? = some value

/-- Every envelope is stored, and the store has grown by their number. -/
def StoresAll (envelopes : List EventEnvelope) (before after : Contents) : Prop :=
  (∀ e ∈ envelopes, Holds C store after e) ∧
    after.size = before.size + envelopes.length

variable {C store env}

theorem keys_of_records {envelopes : List EventEnvelope} {batch : WriteBatch}
    (h : List.Forall₂ (IsRecord C store) envelopes batch) :
    batch.map Prod.fst = envelopes.map generateEventKey := by
  induction h with
  | nil => rfl
  | cons hRecord _ ih => rw [List.map_cons, List.map_cons, hRecord.1, ih]

theorem exists_record_of_mem {envelopes : List EventEnvelope} {batch : WriteBatch}
    (h : List.Forall₂ (IsRecord C store) envelopes batch) {e : EventEnvelope}
    (he : e ∈ envelopes) : ∃ record ∈ batch, IsRecord C store e record := by
  induction h with
  | nil => cases he
  | cons hRecord _ ih =>
      rcases List.mem_cons.mp he with rfl | hTail
      · exact ⟨_, List.mem_cons_self, hRecord⟩
      · obtain ⟨record, hMem, hIs⟩ := ih hTail
        exact ⟨record, List.mem_cons_of_mem _ hMem, hIs⟩

theorem exists_envelope_of_mem {envelopes : List EventEnvelope} {batch : WriteBatch}
    (h : List.Forall₂ (IsRecord C store) envelopes batch) {record : Bytes × Bytes}
    (hRecord : record ∈ batch) : ∃ e ∈ envelopes, IsRecord C store e record := by
  induction h with
  | nil => cases hRecord
  | cons hIs _ ih =>
      rcases List.mem_cons.mp hRecord with rfl | hTail
      · exact ⟨_, List.mem_cons_self, hIs⟩
      · obtain ⟨e, hMem, hIs⟩ := ih hTail
        exact ⟨e, List.mem_cons_of_mem _ hMem, hIs⟩

/-- Envelopes that all serialize have their records. -/
theorem exists_records (envelopes : List EventEnvelope)
    (h : ∀ e ∈ envelopes, ∀ error, store.serializer.serialize C e ≠ .error error) :
    ∃ batch, List.Forall₂ (IsRecord C store) envelopes batch := by
  induction envelopes with
  | nil => exact ⟨[], .nil⟩
  | cons e envelopes ih =>
      obtain ⟨hHere, hRest⟩ := List.forall_mem_cons.mp h
      obtain ⟨batch, hBatch⟩ := ih hRest
      cases hValue : store.serializer.serialize C e with
      | error error => exact absurd hValue (hHere error)
      | ok value => exact ⟨(generateEventKey e, value) :: batch, .cons ⟨rfl, hValue⟩ hBatch⟩

theorem refused_iff (contents : Contents) (envelopes : List EventEnvelope) :
    Refused C store env contents envelopes ↔
      ∀ batch, ¬ Accepts C store env contents envelopes batch := by
  constructor
  · rintro (⟨e, he, hTaken⟩ | ⟨e, he, error, hError⟩ | hFault) batch hAccepts
    · exact hTaken (hAccepts.free e he)
    · obtain ⟨record, -, -, hOk⟩ := exists_record_of_mem hAccepts.records he
      rw [hError] at hOk
      cases hOk
    · exact hFault hAccepts.writable
  · intro hNone
    by_contra hNot
    simp only [Refused, not_or, not_exists, not_and, not_not] at hNot
    obtain ⟨hFree, hSerialize, hWritable⟩ := hNot
    obtain ⟨batch, hBatch⟩ := exists_records envelopes hSerialize
    exact hNone batch ⟨hBatch, hFree, hWritable⟩

/-- Under distinct keys every envelope of an accepted batch is stored. -/
theorem Accepts.holds {contents : Contents} {envelopes : List EventEnvelope}
    {batch : WriteBatch} (h : Accepts C store env contents envelopes batch)
    (hNodup : (envelopes.map generateEventKey).Nodup) {e : EventEnvelope}
    (he : e ∈ envelopes) : Holds C store (applyBatch contents batch) e := by
  obtain ⟨⟨k, value⟩, hMem, hKey, hValue⟩ := exists_record_of_mem h.records he
  refine ⟨value, hValue, ?_⟩
  rw [← keys_of_records h.records] at hNodup
  rw [← hKey]
  exact applyBatch_get_of_nodup contents batch hNodup hMem

/-- After an accepted batch the store holds all of it exactly when its keys are
distinct. -/
theorem Accepts.storesAll_iff {contents : Contents} {envelopes : List EventEnvelope}
    {batch : WriteBatch} (h : Accepts C store env contents envelopes batch) :
    StoresAll C store envelopes contents (applyBatch contents batch) ↔
      (envelopes.map generateEventKey).Nodup := by
  have hKeys := keys_of_records h.records
  have hLen := h.records.length_eq
  have hFresh : ∀ k ∈ batch.map Prod.fst, k ∉ contents := by
    rw [hKeys]
    intro k hk
    obtain ⟨e, he, rfl⟩ := List.mem_map.mp hk
    rw [Std.ExtTreeMap.mem_iff_isSome_getElem?, (h.free e he).2]
    simp
  have hSize := size_applyBatch_eq_iff contents batch
  rw [StoresAll, hLen, hSize, hKeys]
  rw [hKeys] at hFresh
  constructor
  · rintro ⟨-, hNodup, -⟩
    exact hNodup
  · intro hNodup
    exact ⟨fun e he => h.holds hNodup he, hNodup, hFresh⟩

/-- The same for a call, which also has to refuse a repeated key. -/
theorem Appends.complete_iff {α : Type} {envelopes : List EventEnvelope} {sync : Bool}
    {x : StoreM α} (hAppends : Appends C store env envelopes sync x) (db : RocksDb) :
    ((∀ a db', x.exec db = (.ok a, db') →
        StoresAll C store envelopes db.contents (RocksDb.contents db')) ∧
      (¬ (envelopes.map generateEventKey).Nodup →
        ∃ error db', x.exec db = (.error error, db'))) ↔
      (envelopes.map generateEventKey).Nodup ∨
        Refused C store env db.contents envelopes := by
  rcases hAppends db with ⟨batch, a, hAccepts, hExec⟩ | ⟨hNone, error, hExec⟩
  · have hNotRefused : ¬ Refused C store env db.contents envelopes := by
      rw [refused_iff]
      intro hNone
      exact hNone batch hAccepts
    constructor
    · rintro ⟨hStores, -⟩
      have hAll := hStores a _ hExec
      rw [RocksDb.contents_write, hAccepts.storesAll_iff] at hAll
      exact Or.inl hAll
    · rintro (hNodup | hRefused)
      · refine ⟨?_, fun hNot => absurd hNodup hNot⟩
        intro a' db' hOk
        obtain ⟨-, rfl⟩ := Prod.mk.inj (hExec.symm.trans hOk)
        rw [RocksDb.contents_write, hAccepts.storesAll_iff]
        exact hNodup
      · exact absurd hRefused hNotRefused
  · constructor
    · intro _
      exact Or.inr ((refused_iff _ _).mpr hNone)
    · intro _
      refine ⟨?_, fun _ => ⟨error, db, hExec⟩⟩
      intro a db' hOk
      cases (Prod.mk.inj (hExec.symm.trans hOk)).1

variable (C store env)

/-- A call on free keys is accepted, as long as the crates and the database
do their part. -/
theorem exists_accepts (hEncodes : C.Lz4Encodes) (contents : Contents)
    (envelopes : List EventEnvelope) (hFree : ∀ e ∈ envelopes, KeyIsFree env contents e)
    (hWritable : env.writeFault = none) :
    ∃ batch, Accepts C store env contents envelopes batch := by
  have hSerialize : ∀ e ∈ envelopes, ∀ error,
      store.serializer.serialize C e ≠ .error error := by
    intro e _ error hError
    obtain ⟨data, hOk⟩ := store.serializer.serialize_ok hEncodes e
    cases hError.symm.trans hOk
  obtain ⟨batch, hRecords⟩ := exists_records envelopes hSerialize
  exact ⟨batch, hRecords, hFree, hWritable⟩

/-- **When an acknowledged batch is complete**: on either path exactly when the
keys of the batch are distinct, or the call is refused anyway. -/
theorem batch_complete_iff (db : RocksDb) (envelopes : List EventEnvelope) :
    (((∀ db', (appendEvents C store env envelopes).exec db = (.ok (), db') →
          StoresAll C store envelopes db.contents (RocksDb.contents db')) ∧
        (¬ (envelopes.map generateEventKey).Nodup → ∃ error db',
          (appendEvents C store env envelopes).exec db = (.error error, db'))) ↔
      (envelopes.map generateEventKey).Nodup ∨
        Refused C store env db.contents envelopes) ∧
    (((∀ result db', (appendEventsOptimized C store env envelopes).exec db =
            (.ok result, db') →
          StoresAll C store envelopes db.contents (RocksDb.contents db') ∧
            (RocksDb.contents db').size = db.contents.size + result.eventsWritten) ∧
        (¬ (envelopes.map generateEventKey).Nodup → ∃ error db',
          (appendEventsOptimized C store env envelopes).exec db = (.error error, db'))) ↔
      (envelopes.map generateEventKey).Nodup ∨
        Refused C store env db.contents envelopes) := by
  by_cases hNil : envelopes = []
  · subst hNil
    have hStored : StoresAll C store [] db.contents db.contents := ⟨by simp, rfl⟩
    constructor
    · refine iff_of_true ⟨?_, fun hNot => absurd List.nodup_nil hNot⟩ (Or.inl List.nodup_nil)
      intro db' hOk
      cases hOk
      exact hStored
    · refine iff_of_true ⟨?_, fun hNot => absurd List.nodup_nil hNot⟩ (Or.inl List.nodup_nil)
      intro result db' hOk
      cases hOk
      exact ⟨hStored, rfl⟩
  · constructor
    · have hIff := (appendEvents_appends C store env hNil).complete_iff db
      rw [← hIff]
      constructor
      · rintro ⟨hStores, hReject⟩
        exact ⟨fun _ db' hOk => hStores db' hOk, hReject⟩
      · rintro ⟨hStores, hReject⟩
        exact ⟨fun db' hOk => hStores () db' hOk, hReject⟩
    · have hIff := (appendEventsOptimized_appends C store env hNil).complete_iff db
      rw [← hIff]
      constructor
      · rintro ⟨hStores, hReject⟩
        exact ⟨fun result db' hOk => (hStores result db' hOk).1, hReject⟩
      · rintro ⟨hStores, hReject⟩
        refine ⟨fun result db' hOk => ?_, hReject⟩
        have hAll := hStores result db' hOk
        refine ⟨hAll, ?_⟩
        rw [eventsWritten_eq C store env hOk]
        exact hAll.2

end Completeness

/-- Two versions of one envelope in a batch on an empty store: the call is
acknowledged, and one record is there. -/
theorem batch_two_versions :
    ¬ ∀ (store : EventStore) (db : RocksDb) (envelopes : List EventEnvelope),
      (∀ db', (appendEvents Crates.sample store .quiet envelopes).exec db = (.ok (), db') →
        StoresAll Crates.sample store envelopes db.contents (RocksDb.contents db')) ∧
      ∀ result db', (appendEventsOptimized Crates.sample store .quiet envelopes).exec db =
          (.ok result, db') →
        StoresAll Crates.sample store envelopes db.contents (RocksDb.contents db') := by
  intro hAlways
  let e := createTestEnvelope ⟨Uuid.fromU128 1⟩ ⟨Uuid.fromU128 2⟩ DateTime.epoch
  let envelopes := [e, { e with aggregateVersion := 2 }]
  have hKeys : ¬ (envelopes.map generateEventKey).Nodup := by
    simp [envelopes, generateEventKey]
  obtain ⟨batch, hAccepts⟩ := exists_accepts Crates.sample (new .default) .quiet
    Crates.sample_lz4Encodes RocksDb.empty.contents envelopes (fun _ _ => ⟨rfl, rfl⟩) rfl
  rcases appendEvents_appends Crates.sample (new .default) .quiet
    (List.cons_ne_nil e [{ e with aggregateVersion := 2 }]) RocksDb.empty
    with ⟨batch, _, hAccepts, hExec⟩ | ⟨hNone, -⟩
  · have hAll := (hAlways (new .default) RocksDb.empty envelopes).1 _ hExec
    rw [RocksDb.contents_write, hAccepts.storesAll_iff] at hAll
    exact hKeys hAll
  · exact hNone batch hAccepts

/-! ## Two paths, one effect -/

section Agreement

variable {C : Crates} {store : EventStore} {env : CallEnv}

/-- A record is determined by its envelope. -/
theorem IsRecord.unique {e : EventEnvelope} {r₁ r₂ : Bytes × Bytes}
    (h₁ : IsRecord C store e r₁) (h₂ : IsRecord C store e r₂) : r₁ = r₂ := by
  have hValue : r₁.2 = r₂.2 := Except.ok.inj (h₁.2.symm.trans h₂.2)
  exact Prod.ext (h₁.1.trans h₂.1.symm) hValue

/-- The batch is determined by the envelopes. -/
theorem records_unique {envelopes : List EventEnvelope} {b₁ b₂ : WriteBatch}
    (h₁ : List.Forall₂ (IsRecord C store) envelopes b₁)
    (h₂ : List.Forall₂ (IsRecord C store) envelopes b₂) : b₁ = b₂ := by
  induction h₁ generalizing b₂ with
  | nil => cases h₂; rfl
  | cons hHere _ ih =>
      cases h₂ with
      | cons hHere' hRest => rw [hHere.unique hHere', ih hRest]

/-- Two appends of the same envelopes have the same effect, whatever their sync
flags. -/
theorem Appends.agree {α β : Type} {envelopes : List EventEnvelope} {sync₁ sync₂ : Bool}
    {x : StoreM α} {y : StoreM β} (hx : Appends C store env envelopes sync₁ x)
    (hy : Appends C store env envelopes sync₂ y) (db : RocksDb) :
    ((∃ a, (x.exec db).1 = .ok a) ↔ ∃ b, (y.exec db).1 = .ok b) ∧
      RocksDb.contents (x.exec db).2 = RocksDb.contents (y.exec db).2 := by
  rcases hx db with ⟨batch, a, hAccepts, hExec⟩ | ⟨hNone, error, hExec⟩ <;>
    rcases hy db with ⟨batch', b, hAccepts', hExec'⟩ | ⟨hNone', error', hExec'⟩
  · rw [hExec, hExec', RocksDb.contents_write, RocksDb.contents_write,
      records_unique hAccepts.records hAccepts'.records]
    exact ⟨iff_of_true ⟨a, rfl⟩ ⟨b, rfl⟩, rfl⟩
  · exact absurd hAccepts (hNone' batch)
  · exact absurd hAccepts' (hNone batch')
  · rw [hExec, hExec']
    refine ⟨iff_of_false ?_ ?_, rfl⟩
    · rintro ⟨_, hOk⟩
      cases hOk
    · rintro ⟨_, hOk⟩
      cases hOk

variable (C store env)

/-- **The optimized append agrees with the plain one**: both succeed or both
fail, and they leave the same records. -/
theorem appendPaths_agree (db : RocksDb) (envelopes : List EventEnvelope) :
    let plain := (appendEvents C store env envelopes).exec db
    let optimized := (appendEventsOptimized C store env envelopes).exec db
    ((∃ u, plain.1 = .ok u) ↔ ∃ result, optimized.1 = .ok result) ∧
      RocksDb.contents plain.2 = RocksDb.contents optimized.2 := by
  by_cases hNil : envelopes = []
  · subst hNil
    exact ⟨iff_of_true ⟨(), rfl⟩ ⟨_, rfl⟩, rfl⟩
  · exact (appendEvents_appends C store env hNil).agree
      (appendEventsOptimized_appends C store env hNil) db

end Agreement

end LedgerFS.EventStore
