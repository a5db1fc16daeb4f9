import LedgerFS.EventStore.Serialization
import LedgerFS.Library.WriteLog
import Mathlib.Data.List.Forall2
import Std.Data.ExtTreeMap.Lemmas

/-!
# The database

RocksDB as the store uses it: an ordered map from byte keys to byte values,
changed by atomic write batches.  A batch is applied put by put, so of two puts
under one key the later one stays.  The writes since opening form a log with a
durable prefix; `contents` is the map they amount to.

What the outside decides during one call of the store is in `CallEnv`: the
faults of the database, the seeds of the maps built when a value is decoded,
and the time a write takes.
-/

namespace LedgerFS.EventStore

open LedgerFS.Library

/-- `rocksdb::Error`. -/
structure RocksDbError where
  message : String
deriving DecidableEq

/-- Keys and values, in key order. -/
abbrev Contents : Type := Std.ExtTreeMap Bytes Bytes

/-- `WriteBatch`: puts in their order. -/
abbrev WriteBatch : Type := List (Bytes × Bytes)

/-- A batch is applied as a whole. -/
def applyBatch (contents : Contents) (batch : WriteBatch) : Contents :=
  batch.foldl (fun c put => c.insert put.1 put.2) contents

abbrev RocksDb : Type := WriteLog Contents WriteBatch

def RocksDb.contents (db : RocksDb) : Contents := db.state applyBatch

/-- An empty database directory. -/
def RocksDb.empty : RocksDb := .opened ∅

/-- One call's share of the outside world. -/
structure CallEnv where
  /-- A failing `get`. -/
  getFault : Bytes → Option RocksDbError
  /-- A failing write; it leaves the database as it was. -/
  writeFault : Option RocksDbError
  /-- An iterator that fails after some items. -/
  scanFault : Option (Nat × RocksDbError)
  /-- The seeds of the maps in a decoded value. -/
  seeds : Bytes → LedgerFS.Core.Hashers
  /-- Nanoseconds. -/
  elapsed : Nat

/-- Nothing fails. -/
def CallEnv.quiet : CallEnv where
  getFault _ := none
  writeFault := none
  scanFault := none
  seeds _ _ := .arrival
  elapsed := 0

/-- `IteratorMode`. -/
inductive IteratorMode
  | start
  | from (key : Bytes)
  | «end»

/-- `DB::iterator`: the records in key order, from the first key that is not
below the given one, or backwards from the last.  An iterator that fails
returns the error as its last item. -/
def RocksDb.iterator (db : RocksDb) (env : CallEnv) (mode : IteratorMode) :
    List (Except RocksDbError (Bytes × Bytes)) :=
  let records :=
    match mode with
    | .start => db.contents.toList
    | .from key => db.contents.toList.filter fun record => (compare key record.1).isLE
    | .end => db.contents.toList.reverse
  match env.scanFault with
  | none => records.map .ok
  | some (n, fault) => (records.take n).map .ok ++ [.error fault]

/-- Iterators in one mode over records with the same keys, under the same fault, meet
corresponding items. -/
theorem RocksDb.forall₂_iterator {Q : Except RocksDbError (Bytes × Bytes) →
      Except RocksDbError (Bytes × Bytes) → Prop} {env env' : CallEnv} {db db' : RocksDb}
    (hRecords : List.Forall₂ (fun record record' => record'.1 = record.1 ∧
      Q (.ok record) (.ok record')) db.contents.toList db'.contents.toList)
    (hFault : ∀ fault, Q (.error fault) (.error fault))
    (hScan : env.scanFault = env'.scanFault) (mode : IteratorMode) :
    List.Forall₂ Q (db.iterator env mode) (db'.iterator env' mode) := by
  have hFrom (key : Bytes) : List.Forall₂ (fun record record' => record'.1 = record.1 ∧
      Q (.ok record) (.ok record'))
      (db.contents.toList.filter fun record => (compare key record.1).isLE)
      (db'.contents.toList.filter fun record => (compare key record.1).isLE) := by
    refine List.rel_filter (fun record record' hSame => ?_) hRecords
    show (compare key record.1).isLE = true ↔ (compare key record'.1).isLE = true
    rw [hSame.1]
  have hItems {records records' : List (Bytes × Bytes)} (h : List.Forall₂ (fun record record' =>
      record'.1 = record.1 ∧ Q (.ok record) (.ok record')) records records') :
      List.Forall₂ Q (records.map .ok) (records'.map .ok) := by
    rw [List.forall₂_map_left_iff, List.forall₂_map_right_iff]
    exact h.imp fun _ _ hSame => hSame.2
  have hLast (fault : RocksDbError) : List.Forall₂ Q [.error fault] [.error fault] :=
    .cons (hFault fault) .nil
  unfold RocksDb.iterator
  rw [hScan]
  cases env'.scanFault with
  | none =>
      cases mode with
      | start => exact hItems hRecords
      | «from» key => exact hItems (hFrom key)
      | «end» => exact hItems (List.forall₂_reverse_iff.mpr hRecords)
  | some fault =>
      cases mode with
      | start => exact List.rel_append (hItems (List.forall₂_take _ hRecords)) (hLast _)
      | «from» key => exact List.rel_append (hItems (List.forall₂_take _ (hFrom key))) (hLast _)
      | «end» =>
          exact List.rel_append
            (hItems (List.forall₂_take _ (List.forall₂_reverse_iff.mpr hRecords))) (hLast _)

/-! ## Contents -/

@[simp] theorem RocksDb.contents_opened (contents : Contents) :
    RocksDb.contents (.opened contents) = contents := rfl

@[simp] theorem RocksDb.contents_write (db : RocksDb) (batch : WriteBatch) (sync : Bool) :
    RocksDb.contents (db.write batch sync) = applyBatch db.contents batch :=
  WriteLog.state_write applyBatch db batch sync

@[simp] theorem applyBatch_cons (contents : Contents) (put : Bytes × Bytes)
    (batch : WriteBatch) :
    applyBatch contents (put :: batch) = applyBatch (contents.insert put.1 put.2) batch :=
  rfl

/-- The records are in key order. -/
theorem ordered_toList (contents : Contents) :
    contents.toList.Pairwise fun r s => compare r.1 s.1 = .lt :=
  Std.ExtTreeMap.ordered_keys_toList

/-- Records in key order are distinct. -/
theorem nodup_of_keys_lt {records : List (Bytes × Bytes)}
    (h : records.Pairwise fun r s => compare r.1 s.1 = .lt) : records.Nodup := by
  refine h.imp ?_
  rintro r _ hBefore rfl
  have hSelf : compare r.1 r.1 = .eq := Std.ReflCmp.compare_self
  cases hSelf.symm.trans hBefore

/-- A key the batch does not name is left alone. -/
theorem applyBatch_get_of_not_mem (contents : Contents) (batch : WriteBatch) (k : Bytes)
    (h : k ∉ batch.map Prod.fst) : (applyBatch contents batch)[k]? = contents[k]? := by
  induction batch generalizing contents with
  | nil => rfl
  | cons put batch ih =>
      simp only [List.map_cons, List.mem_cons, not_or] at h
      rw [applyBatch_cons, ih _ h.2, Std.ExtTreeMap.getElem?_insert,
        if_neg (by simpa [Std.compare_eq_iff_eq] using Ne.symm h.1)]

/-- A key that is named holds the value of one of its puts. -/
theorem applyBatch_get_of_mem (contents : Contents) (batch : WriteBatch) (k : Bytes)
    (h : k ∈ batch.map Prod.fst) :
    ∃ v, (k, v) ∈ batch ∧ (applyBatch contents batch)[k]? = some v := by
  induction batch generalizing contents with
  | nil => cases h
  | cons put batch ih =>
      by_cases hLater : k ∈ batch.map Prod.fst
      · obtain ⟨v, hMem, hGet⟩ := ih (contents.insert put.1 put.2) hLater
        exact ⟨v, List.mem_cons_of_mem _ hMem, hGet⟩
      · have hHere : k = put.1 := by
          rcases List.mem_cons.mp h with hEq | hMem
          · exact hEq
          · exact absurd hMem hLater
        refine ⟨put.2, by rw [hHere]; exact List.mem_cons_self, ?_⟩
        rw [applyBatch_cons, applyBatch_get_of_not_mem _ _ _ hLater, hHere]
        simp

/-- Under distinct keys every put stays. -/
theorem applyBatch_get_of_nodup (contents : Contents) (batch : WriteBatch)
    (hNodup : (batch.map Prod.fst).Nodup) {k v : Bytes} (h : (k, v) ∈ batch) :
    (applyBatch contents batch)[k]? = some v := by
  obtain ⟨w, hMem, hGet⟩ := applyBatch_get_of_mem contents batch k
    (List.mem_map_of_mem (f := Prod.fst) h)
  have hSame : (k, w) = (k, v) := List.inj_on_of_nodup_map hNodup hMem h rfl
  rw [hGet, (Prod.mk.inj hSame).2]

private theorem size_insert_of_mem {contents : Contents} {k : Bytes} (h : k ∈ contents)
    (v : Bytes) : (contents.insert k v).size = contents.size := by
  rw [Std.ExtTreeMap.size_insert]
  exact if_pos h

private theorem size_insert_of_not_mem {contents : Contents} {k : Bytes}
    (h : k ∉ contents) (v : Bytes) : (contents.insert k v).size = contents.size + 1 := by
  rw [Std.ExtTreeMap.size_insert]
  exact if_neg h

/-- Only fresh keys make the map grow. -/
theorem size_applyBatch_le (contents : Contents) (batch : WriteBatch) :
    (applyBatch contents batch).size ≤ contents.size + batch.length := by
  induction batch generalizing contents with
  | nil => exact Nat.le_refl _
  | cons put batch ih =>
      have hRest := ih (contents.insert put.1 put.2)
      have hInsert : (contents.insert put.1 put.2).size ≤ contents.size + 1 := by
        by_cases hOld : put.1 ∈ contents
        · rw [size_insert_of_mem hOld]
          omega
        · rw [size_insert_of_not_mem hOld]
      rw [applyBatch_cons, List.length_cons]
      omega

/-- **Growth**: the map grows by one record for each put exactly when all keys
are fresh and distinct. -/
theorem size_applyBatch_eq_iff (contents : Contents) (batch : WriteBatch) :
    (applyBatch contents batch).size = contents.size + batch.length ↔
      (batch.map Prod.fst).Nodup ∧ ∀ k ∈ batch.map Prod.fst, k ∉ contents := by
  induction batch generalizing contents with
  | nil => simp [applyBatch]
  | cons put batch ih =>
      have hRest := size_applyBatch_le (contents.insert put.1 put.2) batch
      have hIff := ih (contents.insert put.1 put.2)
      rw [applyBatch_cons, List.map_cons, List.nodup_cons, List.length_cons]
      by_cases hOld : put.1 ∈ contents
      · rw [size_insert_of_mem hOld] at hRest
        constructor
        · intro hSize
          omega
        · rintro ⟨-, hFresh⟩
          exact absurd hOld (hFresh put.1 List.mem_cons_self)
      · rw [size_insert_of_not_mem hOld] at hIff
        have hKeys : (∀ k ∈ batch.map Prod.fst, k ∉ contents.insert put.1 put.2) ↔
            put.1 ∉ batch.map Prod.fst ∧ ∀ k ∈ batch.map Prod.fst, k ∉ contents := by
          simp only [Std.ExtTreeMap.mem_insert, Std.compare_eq_iff_eq, not_or]
          constructor
          · intro hAll
            exact ⟨fun hMem => (hAll _ hMem).1 rfl, fun k hk => (hAll k hk).2⟩
          · rintro ⟨hHead, hAll⟩ k hk
            exact ⟨fun hEq => hHead (hEq ▸ hk), hAll k hk⟩
        rw [hKeys] at hIff
        simp only [List.mem_cons, forall_eq_or_imp]
        constructor
        · intro hSize
          obtain ⟨hNodup, hHead, hAll⟩ := hIff.mp (by omega)
          exact ⟨⟨hHead, hNodup⟩, hOld, hAll⟩
        · rintro ⟨⟨hHead, hNodup⟩, -, hAll⟩
          have := hIff.mpr ⟨hNodup, hHead, hAll⟩
          omega

end LedgerFS.EventStore
