import LedgerFS.EventStore.Completeness

/-!
# Append order and replay order

The events of a store are the acknowledged ones in the order of their keys.  A key
holds the nanosecond count of the timestamp and the event id, and nothing that tells
which of two envelopes was appended first.  So the history of an account comes back in
the order in which it was appended exactly when that order is already the order of
counts and ids (`accountEvents_order`); with timestamps that do not decrease this is a
matter of the ids on equal timestamps.
-/

namespace LedgerFS.EventStore

open LedgerFS.Core
open LedgerFS.Library

/-! ## The order of a history -/

/-- Equal envelopes have one key. -/
theorem key_eq_of_partialEq {e f : EventEnvelope} (h : e.PartialEq f) :
    generateEventKey e = generateEventKey f := by
  rw [← h.2]
  rfl

theorem keys_of_partialEq {es fs : List EventEnvelope}
    (h : List.Forall₂ EventEnvelope.PartialEq es fs) :
    es.map generateEventKey = fs.map generateEventKey := by
  induction h with
  | nil => rfl
  | cons hHere _ ih => rw [List.map_cons, List.map_cons, key_eq_of_partialEq hHere, ih]

/-- Read back as they are, envelopes are equal to themselves. -/
theorem partialEq_of_reread {es fs : List EventEnvelope}
    (h : List.Forall₂ (fun f e => ∃ hs, f = EventEnvelope.reread hs e) es fs)
    (hPlain : ∀ e ∈ fs, e.Unambiguous) : List.Forall₂ EventEnvelope.PartialEq es fs := by
  induction h with
  | nil => exact .nil
  | @cons _ e _ _ hHere _ ih =>
      obtain ⟨hs, rfl⟩ := hHere
      obtain ⟨hUnambiguous, hRest⟩ := List.forall_mem_cons.mp hPlain
      exact .cons ((e.reread_partialEq_iff hs).mpr hUnambiguous) (ih hRest)

theorem pairwise_keyBefore_iff {es fs : List EventEnvelope}
    (h : es.map generateEventKey = fs.map generateEventKey) :
    es.Pairwise KeyBefore ↔ fs.Pairwise KeyBefore := by
  have hMap (gs : List EventEnvelope) : gs.Pairwise KeyBefore ↔
      (gs.map generateEventKey).Pairwise fun a b => compare a b = .lt := by
    rw [List.pairwise_map]
    rfl
  rw [hMap, hMap, h]

/-- The envelopes are in order of their counts and ids. -/
theorem pairwise_keyBefore_iff_counted {es : List EventEnvelope}
    (hRange : ∀ e ∈ es, 0 ≤ e.timestamp.secs) :
    es.Pairwise KeyBefore ↔ es.Pairwise CountedBefore := by
  constructor
  · intro h
    exact h.imp_of_mem fun he hf => (keyBefore_iff_counted (hRange _ he) (hRange _ hf)).mp
  · intro h
    exact h.imp_of_mem fun he hf => (keyBefore_iff_counted (hRange _ he) (hRange _ hf)).mpr

/-- Later timestamps are counted later, so that only ties are left to the
ids. -/
theorem pairwise_counted_iff_of_monotone {es : List EventEnvelope}
    (hRange : ∀ e ∈ es, e.timestamp.InNanosRange ∧ e.timestamp.NonLeap)
    (hMono : es.Pairwise fun e f => e.timestamp ≤ f.timestamp) :
    es.Pairwise CountedBefore ↔ es.Pairwise fun e f => e.timestamp = f.timestamp →
      compare e.eventId.uuid.bytes f.eventId.uuid.bytes = .lt := by
  have hPair {e f : EventEnvelope} (he : e ∈ es) (hf : f ∈ es)
      (hLe : e.timestamp ≤ f.timestamp) : CountedBefore e f ↔ (e.timestamp = f.timestamp →
        compare e.eventId.uuid.bytes f.eventId.uuid.bytes = .lt) := by
    rcases lt_or_eq_of_le hLe with hLt | hEq
    · have hCount := DateTime.nanosOrZero_lt hLt (hRange f hf).1 (hRange e he).2
        (hRange f hf).2 (hRange e he).1.1
      exact iff_of_true (Or.inl hCount) fun hEq => absurd hEq (ne_of_lt hLt)
    · constructor
      · rintro (hCount | ⟨-, hId⟩) _
        · rw [hEq] at hCount
          exact absurd hCount (lt_irrefl _)
        · exact hId
      · intro hId
        exact Or.inr ⟨by rw [hEq], hId hEq⟩
  constructor
  · intro h
    exact (h.and hMono).imp_of_mem fun he hf hBoth => (hPair he hf hBoth.2).mp hBoth.1
  · intro h
    exact (h.and hMono).imp_of_mem fun he hf hBoth => (hPair he hf hBoth.2).mpr hBoth.1

/-- The history of an account, up to a thousand events, in key order. -/
theorem accountEvents_keyOrder {C : Crates} {store : EventStore} (hTime : C.TimeTextReadsBack)
    (hDecodes : C.Lz4DecodesBack) {h : History}
    (hReach : Reachable C store DistinctIds .empty h) {env : CallEnv}
    (hQuiet : env.scanFault = none) (a : AccountId) {events : List EventEnvelope}
    (hEvents : events = h.appended.filter fun e => a ∈ accounts e)
    (hCap : events.length ≤ 1000) (hPlain : ∀ e ∈ events, e.Unambiguous) :
    ∃ returned ordered, store.getAccountEvents C env a h.db = .ok returned ∧
      List.Forall₂ EventEnvelope.PartialEq returned ordered ∧
      ordered.Perm events ∧ ordered.Pairwise KeyBefore ∧
      (List.Forall₂ EventEnvelope.PartialEq returned events ↔ events.Pairwise KeyBefore) := by
  obtain ⟨stored, all, hStored, hReread, hAll, hAllKeys⟩ :=
    exists_stored_ordered hTime hDecodes hReach env
  let concerns : EventEnvelope → Bool := fun e => a ∈ accounts e
  have hFiltered : List.Forall₂ (fun f e => ∃ hs, f = EventEnvelope.reread hs e)
      (stored.filter concerns) (all.filter concerns) := by
    refine List.rel_filter ?_ hReread
    rintro _ e ⟨hs, rfl⟩
    simp only [concerns, accounts_reread]
  have hPerm : (all.filter concerns).Perm events := by
    rw [hEvents]
    exact (hAll.trans h.appended_perm.symm).filter concerns
  have hSame := partialEq_of_reread hFiltered fun e he => hPlain e (hPerm.mem_iff.mp he)
  have hShort : (stored.filter concerns).length ≤ 1000 := by
    rw [hSame.length_eq, hPerm.length_eq]
    exact hCap
  have hReturned : store.getAccountEvents C env a h.db = .ok (stored.filter concerns) := by
    rw [getAccountEvents_eq hQuiet hStored a, List.take_of_length_le hShort]
  have hKeys : (all.filter concerns).Pairwise KeyBefore := hAllKeys.filter concerns
  refine ⟨_, _, hReturned, hSame, hPerm, hKeys, ?_⟩
  constructor
  · intro hInOrder
    have hSameKeys := (keys_of_partialEq hSame).symm.trans (keys_of_partialEq hInOrder)
    exact (pairwise_keyBefore_iff hSameKeys).mp hKeys
  · intro hAlready
    have hEq := (OrderedScan.perm_eq_iff_ordered (fun _ _ hKey => hKey.asymm) hPerm
      hKeys).mpr hAlready
    rw [← hEq]
    exact hSame

/-- **Replay order**: the history of an account, up to a thousand events, is
returned in the order of counts and ids, if all instants are printed unambiguously.
That is the order in which it was appended exactly where counts and ids are in that
order; and where timestamps do not decrease, where on equal timestamps the envelope
appended first has the smaller id. -/
theorem accountEvents_order (C : Crates) (hTime : C.TimeTextReadsBack)
    (hDecodes : C.Lz4DecodesBack) (store : EventStore) (h : History)
    (hReach : Reachable C store DistinctIds .empty h) (env : CallEnv)
    (hQuiet : env.scanFault = none) (a : AccountId) (events : List EventEnvelope)
    (hEvents : events = h.appended.filter fun e => a ∈ accounts e)
    (hCap : events.length ≤ 1000) (hRange : ∀ e ∈ events, e.timestamp.InNanosRange)
    (hPlain : ∀ e ∈ events, e.Unambiguous) :
    ∃ returned ordered, store.getAccountEvents C env a h.db = .ok returned ∧
      List.Forall₂ EventEnvelope.PartialEq returned ordered ∧
      ordered.Perm events ∧ ordered.Pairwise CountedBefore ∧
      (List.Forall₂ EventEnvelope.PartialEq returned events ↔
        events.Pairwise CountedBefore) ∧
      ((∀ e ∈ events, e.timestamp.NonLeap) →
        (events.Pairwise fun e f => e.timestamp ≤ f.timestamp) →
        (List.Forall₂ EventEnvelope.PartialEq returned events ↔
          events.Pairwise fun e f => e.timestamp = f.timestamp →
            compare e.eventId.uuid.bytes f.eventId.uuid.bytes = .lt)) := by
  obtain ⟨returned, ordered, hOk, hSame, hPerm, hKeys, hOrder⟩ :=
    accountEvents_keyOrder hTime hDecodes hReach hQuiet a hEvents hCap hPlain
  rw [pairwise_keyBefore_iff_counted fun e he => (hRange e he).1] at hOrder
  refine ⟨returned, ordered, hOk, hSame, hPerm, ?_, hOrder, ?_⟩
  · exact (pairwise_keyBefore_iff_counted fun e he =>
      (hRange e (hPerm.mem_iff.mp he)).1).mp hKeys
  · intro hNonLeap hMono
    rw [hOrder]
    exact pairwise_counted_iff_of_monotone (fun e he => ⟨hRange e he, hNonLeap e he⟩) hMono

/-- Two events of one account on one tick of a coarse clock, appended with the
smaller id first. -/
theorem accountEvents_order_test :
    let a : AccountId := ⟨Uuid.fromU128 0⟩
    let first := createTestEnvelope a ⟨Uuid.fromU128 1⟩ DateTime.epoch
    let second := createTestEnvelope a ⟨Uuid.fromU128 2⟩ DateTime.epoch
    ∃ (h : History) (returned : List EventEnvelope),
      h.appended = [first, second] ∧
      (new .default).getAccountEvents Crates.sample .quiet a h.db = .ok returned ∧
      List.Forall₂ EventEnvelope.PartialEq returned [first, second] := by
  intro a first second
  obtain ⟨h, hReach, hAppended⟩ := exists_history_of_appends Crates.sample_lz4Encodes
    (new .default) (show ([first, second].map generateEventKey).Nodup by decide)
  have hEvents : [first, second] = h.appended.filter fun e => a ∈ accounts e := by
    rw [hAppended]
    decide
  have hRange : ∀ e ∈ [first, second], e.timestamp.InNanosRange := by decide
  obtain ⟨returned, _, hOk, -, -, -, hOrder, -⟩ := accountEvents_order Crates.sample
    Crates.sample_timeTextReadsBack Crates.sample_lz4DecodesBack (new .default) h hReach
    .quiet rfl a [first, second] hEvents (by decide) hRange (by decide)
  exact ⟨h, returned, hAppended, hOk, hOrder.mpr (by decide)⟩

/-- With the larger id first, they come back the other way round. -/
theorem accountEvents_tie :
    ¬ ∀ (h : History) (a : AccountId) (events : List EventEnvelope),
      Reachable Crates.sample (new .default) DistinctIds .empty h →
      (h.ackedEvents.map EventEnvelope.eventId).Nodup →
      events = h.appended.filter (fun e => a ∈ accounts e) →
      events.length ≤ 1000 →
      (∀ e ∈ events, e.timestamp.InNanosRange) →
      (events.Pairwise fun e f => e.timestamp ≤ f.timestamp) →
      ∃ returned, (new .default).getAccountEvents Crates.sample .quiet a h.db = .ok returned ∧
        List.Forall₂ EventEnvelope.PartialEq returned events := by
  intro hAlways
  let a : AccountId := ⟨Uuid.fromU128 0⟩
  let first := createTestEnvelope a ⟨Uuid.fromU128 2⟩ DateTime.epoch
  let second := createTestEnvelope a ⟨Uuid.fromU128 1⟩ DateTime.epoch
  obtain ⟨h, hReach, hAppended⟩ := exists_history_of_appends Crates.sample_lz4Encodes
    (new .default) (show ([first, second].map generateEventKey).Nodup by decide)
  have hEvents : [first, second] = h.appended.filter fun e => a ∈ accounts e := by
    rw [hAppended]
    decide
  have hIds : (h.ackedEvents.map EventEnvelope.eventId).Nodup := by
    rw [← (h.appended_perm.map EventEnvelope.eventId).nodup_iff, hAppended]
    show [first.eventId, second.eventId].Nodup
    decide
  obtain ⟨returned, hOk, hInOrder⟩ := hAlways h a [first, second] hReach hIds hEvents
    (by decide) (by decide) (by decide)
  obtain ⟨returned', _, hOk', -, -, -, hOrder⟩ := accountEvents_keyOrder
    Crates.sample_timeTextReadsBack Crates.sample_lz4DecodesBack hReach
    (show CallEnv.quiet.scanFault = none from rfl) a hEvents (by decide) (by decide)
  cases hOk.symm.trans hOk'
  have hNot : ¬ [first, second].Pairwise KeyBefore := by decide
  exact hNot (hOrder.mp hInOrder)

end LedgerFS.EventStore
