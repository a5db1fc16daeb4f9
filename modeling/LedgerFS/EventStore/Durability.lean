import LedgerFS.EventStore.EventIds

/-!
# Acknowledged events and crashes

With `sync_writes` on, every write is synchronous but that of
`append_events_optimized` for more than a hundred envelopes: the code turns the
flag off there and relies on the write-ahead log, which is not on disk yet.  A
synchronous write makes everything before it durable as well, so a crash keeps
every acknowledged event exactly when the last append was synchronous
(`crash_keeps_acked`).
-/

namespace LedgerFS.EventStore

open LedgerFS.Core
open LedgerFS.Library

/-- With `sync_writes` on, the call ends with a synchronous write. -/
def Call.syncs : Call → Bool
  | .appendEvent _ => true
  | .appendEvents envelopes => !envelopes.isEmpty
  | .appendEventsOptimized envelopes => !envelopes.isEmpty && envelopes.length ≤ 100
  | _ => false

/-- The event ids of each call are pairwise distinct. -/
def DistinctIds : Contents → Call → Prop := fun _ call =>
  (call.envelopes.map EventEnvelope.eventId).Nodup

theorem Call.sync_eq_syncs {store : EventStore} (hSync : store.config.syncWrites = true)
    {call : Call} (hSome : call.envelopes ≠ []) : call.sync store = call.syncs := by
  cases call with
  | appendEvent envelope => exact hSync
  | appendEvents envelopes =>
      have hNotEmpty : envelopes.isEmpty = false := by
        simpa [Call.envelopes] using hSome
      simp [Call.sync, Call.syncs, hSync, hNotEmpty]
  | appendEventsOptimized envelopes =>
      have hNotEmpty : envelopes.isEmpty = false := by
        simpa [Call.envelopes] using hSome
      by_cases hLarge : envelopes.length > 100
      · have hNot : ¬ envelopes.length ≤ 100 := by omega
        simp [Call.sync, Call.syncs, optimizedSync, hLarge, hNot]
      · have hSmall : envelopes.length ≤ 100 := by omega
        simp [Call.sync, Call.syncs, optimizedSync, hSync, hLarge, hSmall, hNotEmpty]
  | _ => exact absurd rfl hSome

theorem Call.syncs_of_nil {call : Call} (hNil : call.envelopes = []) :
    call.syncs = false := by
  cases call with
  | appendEvent envelope => cases hNil
  | appendEvents envelopes => simpa [Call.syncs, Call.envelopes] using hNil
  | appendEventsOptimized envelopes =>
      have : envelopes = [] := hNil
      simp [Call.syncs, this]
  | _ => rfl

/-- The envelopes acknowledged no later than the last synchronous write. -/
def History.securedEvents (h : History) : List EventEnvelope :=
  (h.acked.dropWhile fun call => !call.syncs).flatMap Call.envelopes

/-- The latest acknowledged call that appended something was synchronous. -/
def History.LastAppendSyncs (h : History) : Prop :=
  ∀ call ∈ h.acked.find? fun call => !call.envelopes.isEmpty, call.syncs = true

/-- After a synchronous append everything is secured. -/
theorem History.LastAppendSyncs.securedEvents_eq {h : History} (hLast : h.LastAppendSyncs) :
    h.securedEvents = h.ackedEvents := by
  obtain ⟨db, acked⟩ := h
  unfold LastAppendSyncs at hLast
  unfold securedEvents ackedEvents
  dsimp only at hLast ⊢
  induction acked with
  | nil => rfl
  | cons call older ih =>
      by_cases hNil : call.envelopes = []
      · have hOlder := ih (by simpa [List.find?_cons, hNil] using hLast)
        rw [List.flatMap_cons, hNil, List.nil_append, ← hOlder, List.dropWhile_cons,
          Call.syncs_of_nil hNil, Bool.not_false, if_pos rfl]
      · have hSyncs : call.syncs = true := by
          simpa [List.find?_cons, hNil] using hLast
        rw [List.dropWhile_cons, hSyncs, Bool.not_true, if_neg Bool.false_ne_true]

theorem lastAppendSyncs_cons (db : RocksDb) (acked : List Call) {call : Call}
    (hSome : call.envelopes ≠ []) :
    (History.mk db (call :: acked)).LastAppendSyncs ↔ call.syncs = true := by
  simp [History.LastAppendSyncs, hSome]

/-- A step without a batch does not count as an append. -/
theorem lastAppendSyncs_of_quiet {h h' : History}
    (hAcked : h'.acked = h.acked ∨
      ∃ call : Call, call.envelopes = [] ∧ h'.acked = call :: h.acked) :
    h'.LastAppendSyncs ↔ h.LastAppendSyncs := by
  rcases hAcked with hSame | ⟨call, hNil, hCons⟩
  · rw [History.LastAppendSyncs, hSame, History.LastAppendSyncs]
  · simp [History.LastAppendSyncs, hCons, hNil]

section Crashes

variable (C : Crates) (store : EventStore)

/-- After a crash at this moment every acknowledged event is stored. -/
def SurvivesCrash (h : History) : Prop :=
  ∀ db : RocksDb, h.db.Crash applyBatch db → ∀ e ∈ h.ackedEvents, Holds C store db.contents e

/-- Every acknowledged event is stored, a crash keeps the secured ones, and may
lose an append that was not synchronous. -/
structure Durable (h : History) : Prop where
  stored : ∀ e ∈ h.ackedEvents, Holds C store h.db.contents e
  kept : ∀ e ∈ h.securedEvents,
    h.db.Kept applyBatch fun contents => Holds C store contents e
  lost : ¬ h.LastAppendSyncs → ¬ SurvivesCrash C store h

variable {C store}

/-- A crash may go back to before an asynchronous write, where the keys were
free. -/
theorem Accepts.lost_async {env : CallEnv} {h : History} {call : Call} {batch : WriteBatch}
    (hAccepts : Accepts C store env h.db.contents call.envelopes batch)
    (hSome : call.envelopes ≠ []) :
    ¬ SurvivesCrash C store ⟨h.db.write batch false, call :: h.acked⟩ := by
  intro hSurvives
  obtain ⟨e, he⟩ := List.exists_mem_of_ne_nil _ hSome
  have hAcked : e ∈ (History.mk (h.db.write batch false) (call :: h.acked)).ackedEvents :=
    List.mem_flatMap.mpr ⟨call, List.mem_cons_self, he⟩
  obtain ⟨value, -, hGet⟩ :=
    hSurvives _ (WriteLog.crash_write_async applyBatch h.db batch) e hAcked
  cases (hAccepts.free e he).2.symm.trans hGet

/-- **Step**: a synchronous write secures all events so far, and another write
loses none of the secured ones. -/
theorem Durable.step (hSync : store.config.syncWrites = true) {h h' : History}
    (hInv : Durable C store h) (hStep : Step C store DistinctIds h h') :
    Durable C store h' := by
  rcases hStep.effect with ⟨env, call, batch, hIds, hSome, hAccepts, rfl⟩ | ⟨hSame, hAcked⟩
  · have hStored : ∀ e ∈ (History.mk (h.db.write batch (call.sync store))
        (call :: h.acked)).ackedEvents, Holds C store (applyBatch h.db.contents batch) e := by
      intro e he
      rw [History.ackedEvents, List.flatMap_cons, List.mem_append] at he
      rcases he with hNow | hBefore
      · exact hAccepts.holds (nodup_keys_of_ids hIds) hNow
      · exact hAccepts.keeps (hInv.stored e hBefore)
    have hFlag : call.sync store = call.syncs := Call.sync_eq_syncs hSync hSome
    constructor
    · intro e he
      rw [RocksDb.contents_write]
      exact hStored e he
    · intro e he
      rw [hFlag] at hStored ⊢
      by_cases hSyncs : call.syncs = true
      · rw [hSyncs] at hStored ⊢
        apply WriteLog.kept_write_sync
        apply hStored e
        simpa [History.securedEvents, History.ackedEvents, hSyncs] using he
      · have hNot : call.syncs = false := by simpa using hSyncs
        simp only [History.securedEvents, List.dropWhile_cons, hNot, Bool.not_false,
          if_true] at he
        exact (hInv.kept e he).write hAccepts.keeps _
    · intro hNotSynced
      rw [lastAppendSyncs_cons _ _ hSome, Bool.not_eq_true] at hNotSynced
      rw [hFlag, hNotSynced]
      exact hAccepts.lost_async hSome
  · have hAckedEvents : h'.ackedEvents = h.ackedEvents := ackedEvents_eq_of_quiet hAcked
    have hSecured : h'.securedEvents = h.securedEvents := by
      rcases hAcked with hList | ⟨call, hNil, hCons⟩
      · rw [History.securedEvents, hList, History.securedEvents]
      · simp [History.securedEvents, hCons, Call.syncs_of_nil hNil]
    constructor
    · rw [hSame, hAckedEvents]
      exact hInv.stored
    · rw [hSame, hSecured]
      exact hInv.kept
    · rw [lastAppendSyncs_of_quiet hAcked, SurvivesCrash, hSame, hAckedEvents]
      exact hInv.lost

/-- **Run**: whatever was on disk when the store was opened. -/
theorem durable_of_reachable (hSync : store.config.syncWrites = true) {base : Contents}
    {h : History} (hReach : Reachable C store DistinctIds (.opened base) h) :
    Durable C store h := by
  induction hReach with
  | refl =>
      constructor
      · intro e he
        cases he
      · intro e he
        cases he
      · intro hNot
        exact absurd (fun call hCall => by cases hCall) hNot
  | tail _ hStep ih => exact ih.step hSync hStep

theorem Durable.survivesCrash_iff {h : History} (hInv : Durable C store h) :
    SurvivesCrash C store h ↔ h.LastAppendSyncs := by
  constructor
  · intro hSurvives
    by_contra hNot
    exact hInv.lost hNot hSurvives
  · intro hLast db hCrash e he
    rw [← hLast.securedEvents_eq] at he
    exact WriteLog.kept_iff_crash.mp (hInv.kept e he) db hCrash

/-- The event ids of each call are distinct, and `append_events_optimized` gets
a hundred envelopes at most. -/
def NoLargeBatch : Contents → Call → Prop := fun contents call =>
  DistinctIds contents call ∧
    ∀ envelopes, call = .appendEventsOptimized envelopes → envelopes.length ≤ 100

/-- Without large batches every append is synchronous. -/
theorem Call.syncs_of_noLargeBatch {contents : Contents} {call : Call}
    (hAdmits : NoLargeBatch contents call) (hSome : call.envelopes ≠ []) :
    call.syncs = true := by
  cases call with
  | appendEvent envelope => rfl
  | appendEvents envelopes => simpa [Call.syncs, Call.envelopes] using hSome
  | appendEventsOptimized envelopes =>
      have hSmall := hAdmits.2 envelopes rfl
      have hNotNil : envelopes ≠ [] := hSome
      simp [Call.syncs, hSmall, hNotNil]
  | _ => exact absurd rfl hSome

theorem lastAppendSyncs_of_reachable {base : Contents} {h : History}
    (hReach : Reachable C store NoLargeBatch (.opened base) h) : h.LastAppendSyncs := by
  induction hReach with
  | refl =>
      intro call hCall
      cases hCall
  | tail _ hStep ih =>
      rcases hStep.effect with ⟨env, call, batch, hAdmits, hSome, -, rfl⟩ | ⟨-, hAcked⟩
      · rw [lastAppendSyncs_cons _ _ hSome]
        exact Call.syncs_of_noLargeBatch hAdmits hSome
      · rw [lastAppendSyncs_of_quiet hAcked]
        exact ih

end Crashes

/-- **Crash safety** with `sync_writes` on: runs without large optimized batches
keep every acknowledged event through a crash at any moment, and in any run a
crash keeps them all exactly while the last append was synchronous. -/
theorem crash_keeps_acked (C : Crates) (store : EventStore)
    (hSync : store.config.syncWrites = true) (base : Contents) :
    (∀ h, Reachable C store NoLargeBatch (.opened base) h → SurvivesCrash C store h) ∧
    ∀ h, Reachable C store DistinctIds (.opened base) h →
      (SurvivesCrash C store h ↔ h.LastAppendSyncs) := by
  constructor
  · intro h hReach
    have hDistinct : Reachable C store DistinctIds (.opened base) h :=
      hReach.mono fun hAdmits => hAdmits.1
    rw [(durable_of_reachable hSync hDistinct).survivesCrash_iff]
    exact lastAppendSyncs_of_reachable hReach
  · intro h hReach
    exact (durable_of_reachable hSync hReach).survivesCrash_iff

/-- A hundred envelopes through the optimized path of a durable store, and a power failure. -/
theorem crash_keeps_acked_test :
    let store := new EventStoreConfig.default.highDurability
    ∃ (h : History) (envelopes : List EventEnvelope), envelopes.length = 100 ∧
      h.acked = [.appendEventsOptimized envelopes] ∧ SurvivesCrash Crates.sample store h := by
  intro store
  obtain ⟨envelopes, hLength, hIds, -⟩ := exists_testEnvelopes ⟨Uuid.fromU128 1⟩ DateTime.epoch
    (show 100 ≤ 2 ^ 128 by decide)
  have hAdmits : NoLargeBatch RocksDb.empty.contents (.appendEventsOptimized envelopes) := by
    refine ⟨hIds, fun events hCall => ?_⟩
    cases hCall
    exact hLength.le
  obtain ⟨h, hAcked, hReach, -⟩ := exists_history Crates.sample_lz4Encodes store NoLargeBatch
    (.appendEventsOptimized envelopes) hAdmits
    (List.ne_nil_of_length_pos (by simp [Call.envelopes, hLength])) (nodup_keys_of_ids hIds)
  exact ⟨h, envelopes, hLength, hAcked, (crash_keeps_acked Crates.sample store rfl ∅).1 h hReach⟩

/-- A hundred and one envelopes through the optimized path of a durable store
are acknowledged, and a crash may lose them. -/
theorem crash_large_batch :
    ¬ ∀ h : History,
      Reachable Crates.sample (new EventStoreConfig.default.highDurability) DistinctIds
        .empty h →
      SurvivesCrash Crates.sample (new EventStoreConfig.default.highDurability) h := by
  intro hAlways
  let store := new EventStoreConfig.default.highDurability
  obtain ⟨envelopes, hLength, hIds, -⟩ := exists_testEnvelopes ⟨Uuid.fromU128 1⟩ DateTime.epoch
    (show 101 ≤ 2 ^ 128 by decide)
  have hSome : (Call.appendEventsOptimized envelopes).envelopes ≠ [] :=
    List.ne_nil_of_length_pos (by simp [Call.envelopes, hLength])
  obtain ⟨h, hAcked, hReach, -⟩ := exists_history Crates.sample_lz4Encodes store DistinctIds
    (.appendEventsOptimized envelopes) hIds hSome (nodup_keys_of_ids hIds)
  have hLast := (durable_of_reachable rfl hReach).survivesCrash_iff.mp (hAlways h hReach)
  obtain ⟨db, acked⟩ := h
  dsimp only at hAcked
  subst hAcked
  rw [lastAppendSyncs_cons db [] hSome] at hLast
  simp [Call.syncs, hLength] at hLast

end LedgerFS.EventStore
