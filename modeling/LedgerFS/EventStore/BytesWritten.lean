import LedgerFS.EventStore.Runs
import Mathlib.Algebra.BigOperators.Group.List.Basic

/-!
# Bytes written

`append_events_optimized` reports how many bytes of keys and values it handed to
RocksDB.  Where the keys are fresh and distinct the database grows by exactly these
bytes (`bytesWritten_of_accepted`).
-/

namespace LedgerFS.EventStore

open LedgerFS.Core
open LedgerFS.Library

/-- The bytes of a record. -/
def recordBytes (record : Bytes × Bytes) : Nat := record.1.length + record.2.length

/-- The bytes of the puts of a batch. -/
def batchBytes (batch : WriteBatch) : Nat := (batch.map recordBytes).sum

/-- The bytes of all records. -/
def Contents.byteSize (contents : Contents) : Nat := (contents.toList.map recordBytes).sum

/-! ## Growth -/

/-- A record under a fresh key joins the others. -/
theorem toList_insert_perm {contents : Contents} {k : Bytes} (hFresh : contents[k]? = none)
    (v : Bytes) : (contents.insert k v).toList.Perm ((k, v) :: contents.toList) := by
  have hNew : (k, v) ∉ contents.toList := by
    rw [Std.ExtTreeMap.mem_toList_iff_getElem?_eq_some, hFresh]
    simp
  refine (List.perm_ext_iff_of_nodup (nodup_of_keys_lt (ordered_toList _))
    (List.nodup_cons.mpr ⟨hNew, nodup_of_keys_lt (ordered_toList contents)⟩)).mpr ?_
  rintro ⟨k', v'⟩
  rw [List.mem_cons, Std.ExtTreeMap.mem_toList_iff_getElem?_eq_some,
    Std.ExtTreeMap.mem_toList_iff_getElem?_eq_some]
  by_cases hKey : k = k'
  · subst hKey
    rw [hFresh, Std.ExtTreeMap.getElem?_insert_self]
    simp [eq_comm]
  · rw [Std.ExtTreeMap.getElem?_insert, if_neg (by simpa [Std.compare_eq_iff_eq] using hKey),
      Prod.mk.injEq]
    exact ⟨Or.inr, fun h => h.resolve_left fun hSame => hKey hSame.1.symm⟩

theorem byteSize_insert {contents : Contents} {record : Bytes × Bytes}
    (hFresh : contents[record.1]? = none) :
    Contents.byteSize (contents.insert record.1 record.2) =
      contents.byteSize + recordBytes record := by
  rw [Contents.byteSize, ((toList_insert_perm hFresh record.2).map recordBytes).sum_eq,
    List.map_cons, List.sum_cons, Nat.add_comm]
  rfl

/-- **Growth**: fresh and distinct keys add the bytes of their puts. -/
theorem byteSize_applyBatch (contents : Contents) (batch : WriteBatch)
    (hNodup : (batch.map Prod.fst).Nodup)
    (hFresh : ∀ k ∈ batch.map Prod.fst, contents[k]? = none) :
    Contents.byteSize (applyBatch contents batch) = contents.byteSize + batchBytes batch := by
  induction batch generalizing contents with
  | nil => rfl
  | cons put batch ih =>
      rw [List.map_cons, List.nodup_cons] at hNodup
      have hRest : ∀ k ∈ batch.map Prod.fst, (contents.insert put.1 put.2)[k]? = none := by
        intro k hk
        have hOther : put.1 ≠ k := fun hSame => hNodup.1 (hSame ▸ hk)
        rw [Std.ExtTreeMap.getElem?_insert,
          if_neg (by simpa [Std.compare_eq_iff_eq] using hOther)]
        exact hFresh k (List.mem_cons_of_mem _ hk)
      rw [applyBatch_cons, ih _ hNodup.2 hRest, byteSize_insert (hFresh _ List.mem_cons_self)]
      show _ = contents.byteSize + (recordBytes put + batchBytes batch)
      omega

/-! ## The report -/

section Report

variable {C : Crates} {store : EventStore} {env : CallEnv}

/-- The second loop counts the bytes of its batch. -/
theorem serializeBatch_bytes {envelopes : List EventEnvelope} {batch out : WriteBatch}
    {totalBytes bytes : Nat} {db db' : RocksDb} (hTotal : totalBytes = batchBytes batch)
    (h : (serializeBatch C store envelopes batch totalBytes).exec db = (.ok (out, bytes), db')) :
    bytes = batchBytes out := by
  induction envelopes generalizing batch totalBytes db with
  | nil =>
      cases h
      exact hTotal
  | cons envelope envelopes ih =>
      rw [serializeBatch] at h
      obtain ⟨value, mid, -, hNext⟩ := StoreM.exec_bind_eq_ok h
      refine ih ?_ hNext
      simp [batchBytes, recordBytes, hTotal]

/-- **What an accepted call reports**: it writes a batch and tells its bytes. -/
theorem appendEventsOptimized_writes {envelopes : List EventEnvelope} (hSome : envelopes ≠ [])
    {db db' : RocksDb} {result : AppendResult}
    (h : (appendEventsOptimized C store env envelopes).exec db = (.ok result, db')) :
    ∃ batch, Accepts C store env db.contents envelopes batch ∧
      db' = db.write batch (optimizedSync store envelopes) ∧
      result.bytesWritten = batchBytes batch := by
  rw [appendEventsOptimized, if_neg (by simpa using hSome)] at h
  obtain ⟨u, mid, hValid, hRest⟩ := StoreM.exec_bind_eq_ok h
  obtain ⟨⟨batch, bytes⟩, mid', hSerial, hLast⟩ := StoreM.exec_bind_eq_ok hRest
  obtain ⟨u', last, hWrite, hReturn⟩ := StoreM.exec_bind_eq_ok hLast
  cases hReturn
  rcases validateKeys_cases C env envelopes db with ⟨hFree, hExec⟩ | ⟨-, error, hExec⟩
  · obtain ⟨-, rfl⟩ := Prod.mk.inj (hExec.symm.trans hValid)
    rcases serializeBatch_cases C store envelopes [] 0 db
      with ⟨puts, _, hRecords, hPuts⟩ | ⟨-, error, hError⟩
    · obtain ⟨hOut, rfl⟩ := Prod.mk.inj (hPuts.symm.trans hSerial)
      obtain ⟨rfl, -⟩ := Prod.mk.inj (Except.ok.inj hOut)
      cases hFault : env.writeFault with
      | none =>
          rw [writeOpt_exec_of_none env hFault] at hWrite
          cases hWrite
          exact ⟨puts, ⟨hRecords, hFree, hFault⟩, rfl, serializeBatch_bytes rfl hSerial⟩
      | some fault =>
          rw [writeOpt_exec_of_some env hFault] at hWrite
          cases (Prod.mk.inj hWrite).1
    · cases (Prod.mk.inj (hSerial.symm.trans hError)).1
  · cases (Prod.mk.inj (hValid.symm.trans hExec)).1

/-- The bytes reported are those by which the database grows. -/
theorem bytesWritten_of_accepted {envelopes : List EventEnvelope}
    (hNodup : (envelopes.map generateEventKey).Nodup) {db db' : RocksDb} {result : AppendResult}
    (h : (appendEventsOptimized C store env envelopes).exec db = (.ok result, db')) :
    Contents.byteSize (RocksDb.contents db') = db.contents.byteSize + result.bytesWritten := by
  by_cases hNil : envelopes = []
  · subst hNil
    cases h
    rfl
  · obtain ⟨batch, hAccepts, rfl, hBytes⟩ := appendEventsOptimized_writes hNil h
    have hKeys := keys_of_records hAccepts.records
    rw [RocksDb.contents_write, hBytes]
    apply byteSize_applyBatch
    · rw [hKeys]
      exact hNodup
    · rw [hKeys]
      intro k hk
      obtain ⟨e, he, rfl⟩ := List.mem_map.mp hk
      exact (hAccepts.free e he).2

end Report

end LedgerFS.EventStore
