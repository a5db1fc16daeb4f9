import LedgerFS.EventStore.Completeness
import LedgerFS.EventStore.Paging
import LedgerFS.Library.Sharding
import LedgerFS.Recovery.Reordering

/-!
# One account at a time

The balance check of a recovery replays the whole scan in one map of balances.  An event
works on the entry of each of its accounts for itself, so the replay splits by account
(`replay_splits`): `audit` follows one account through its own events.

What `get_account_events` returns for an account is enough for its audit, as far as the
scan of the recovery reaches; the errors of the check are the sum of the audits
(`recovery_audits_accounts`).
-/

namespace LedgerFS.Recovery

open LedgerFS.Core
open LedgerFS.EventStore
open LedgerFS.Library

/-! ## One account -/

/-- A leg of a transaction, seen from one account: its entry and the errors counted. -/
def legAt (a : AccountId) (change : Amount → Except LedgerError Amount)
    (account : Option AccountId) (entry : Option Amount) : Option Amount × Nat :=
  if account = some a then Replay.legChange change entry else (entry, 0)

/-- An event, seen from one account. -/
def auditStep (a : AccountId) (entry : Option Amount) (e : EventEnvelope) :
    Option Amount × Nat :=
  match e.eventData with
  | .accountCreated event =>
      (if event.accountId = a then some event.initialBalance else entry, 0)
  | .balanceUpdated event => (if event.accountId = a then some event.newBalance else entry, 0)
  | .transactionProcessed event =>
      let debited := legAt a (fun currentBalance => currentBalance.subtract event.amount)
        event.fromAccount entry
      let credited := legAt a (fun currentBalance => currentBalance.add event.amount)
        event.toAccount debited.1
      (credited.1, debited.2 + credited.2)
  | _ => (entry, 0)

/-- The balance of one account after some events, and the errors met at it. -/
def audit (a : AccountId) (events : List EventEnvelope) : Option Amount × Nat :=
  runAt (auditStep a) none events

theorem legAt_of_ne {a : AccountId} {account : Option AccountId} (h : account ≠ some a)
    (change : Amount → Except LedgerError Amount) (entry : Option Amount) :
    legAt a change account entry = (entry, 0) :=
  if_neg h

/-- Other accounts' events do nothing. -/
theorem auditStep_of_not_mem {a : AccountId} {e : EventEnvelope} (h : a ∉ accounts e)
    (entry : Option Amount) : auditStep a entry e = (entry, 0) := by
  unfold accounts at h
  unfold auditStep
  cases hData : e.eventData with
  | accountCreated event =>
      rw [hData, List.mem_singleton] at h
      simp only [if_neg (Ne.symm h)]
  | balanceUpdated event =>
      rw [hData, List.mem_singleton] at h
      simp only [if_neg (Ne.symm h)]
  | transactionProcessed event =>
      rw [hData] at h
      simp only [List.mem_append, Option.mem_toList, not_or] at h
      simp only [legAt_of_ne h.1, legAt_of_ne h.2]
  | _ => rfl

/-- The audit of an account needs its own events only. -/
theorem audit_filter (a : AccountId) (events : List EventEnvelope) :
    audit a (events.filter fun e => a ∈ accounts e) = audit a events :=
  runAt_filter (fun entry _ he => auditStep_of_not_mem (of_decide_eq_false he) entry) none events

/-! ## The replay splits -/

namespace Replay

theorem leg_balances (r : Replay) (change : Amount → Except LedgerError Amount)
    (account : Option AccountId) (a : AccountId) :
    (r.leg change account).balances a = (legAt a change account (r.balances a)).1 := by
  cases account with
  | none => rfl
  | some b =>
      rw [leg_eq_touch]
      by_cases hSame : b = a
      · subst hSame
        rw [legAt, if_pos rfl]
        exact Function.update_self ..
      · rw [legAt_of_ne (fun h => hSame (Option.some.inj h))]
        exact Function.update_of_ne (Ne.symm hSame) ..

/-- A leg counts an error at its own account only. -/
theorem leg_errors (r : Replay) (change : Amount → Except LedgerError Amount)
    {account : Option AccountId} {K : Finset AccountId} (hK : ∀ a ∈ account, a ∈ K) :
    (r.leg change account).errors =
      r.errors + ∑ a ∈ K, (legAt a change account (r.balances a)).2 := by
  cases account with
  | none => exact (Nat.add_zero _).symm.trans (congrArg _ (Finset.sum_eq_zero fun _ _ => rfl).symm)
  | some b =>
      have hOne : ∑ a ∈ K, (legAt a change (some b) (r.balances a)).2 =
          (legAt b change (some b) (r.balances b)).2 := by
        apply Finset.sum_eq_single_of_mem b (hK b rfl)
        intro a _ hne
        rw [legAt_of_ne (fun h => hne (Option.some.inj h).symm)]
      rw [hOne, leg_eq_touch, legAt, if_pos rfl]
      rfl

/-- **Step**: each account for itself. -/
theorem splits : Splits step balances errors (fun e => (accounts e).toFinset) auditStep where
  atKey := by
    intro r e a
    unfold step auditStep
    cases e.eventData with
    | accountCreated event =>
        show Function.update r.balances event.accountId _ a = _
        rw [Function.update_apply]
        simp only [eq_comm]
    | balanceUpdated event =>
        show Function.update r.balances event.accountId _ a = _
        rw [Function.update_apply]
        simp only [eq_comm]
    | transactionProcessed event =>
        dsimp only
        rw [leg_balances, leg_balances]
    | _ => rfl
  counts := by
    intro r e
    unfold step auditStep accounts
    cases e.eventData with
    | transactionProcessed event =>
        dsimp only
        rw [leg_errors _ _ (K := (event.fromAccount.toList ++ event.toAccount.toList).toFinset)
            (by simp +contextual),
          leg_errors _ _ (K := (event.fromAccount.toList ++ event.toAccount.toList).toFinset)
            (by simp +contextual),
          Nat.add_assoc, ← Finset.sum_add_distrib]
        simp only [leg_balances]
    | _ => exact (Nat.add_zero _).symm.trans (congrArg _ (Finset.sum_eq_zero fun _ _ => rfl).symm)
  idle := fun _ entry _ ha => auditStep_of_not_mem (fun hMem => ha (List.mem_toFinset.mpr hMem))
    entry

end Replay

/-- **Run**: the balances of a replay are those of the audits, its errors are theirs
together. -/
theorem replay_splits (events : List EventEnvelope) :
    (∀ a, (Replay.run events).balances a = (audit a events).1) ∧
      (Replay.run events).errors =
        ∑ a ∈ (events.flatMap accounts).toFinset, (audit a events).2 := by
  refine ⟨Replay.splits.run_value Replay.empty events, ?_⟩
  have hCount := Replay.splits.run_count Replay.empty events
    (K := (events.flatMap accounts).toFinset) (by
      intro e he a ha
      rw [List.mem_toFinset] at ha ⊢
      exact List.mem_flatMap.mpr ⟨e, he, ha⟩)
  exact hCount.trans (Nat.zero_add _)

/-! ## Two decodings of one record -/

/-- Two calls find the same events, under seeds of their own. -/
theorem alike_of_stored {C : Crates} {store : EventStore} {env env' : CallEnv}
    {contents : Contents} {stored stored' : List EventEnvelope}
    (h : StoredEvents C store env contents stored)
    (h' : StoredEvents C store env' contents stored') : List.Forall₂ Alike stored stored' := by
  unfold StoredEvents at h h'
  generalize contents.toList = records at h h'
  induction h generalizing stored' with
  | nil =>
      cases h'
      exact .nil
  | @cons record _ _ _ hHere _ ih =>
      cases h' with
      | cons hHere' hRest =>
          obtain ⟨decoded, hItem⟩ := decodeItem_eq_map C store record
          rw [hItem] at hHere hHere'
          cases decoded with
          | error error => cases hHere
          | ok e =>
              cases hHere
              cases hHere'
              exact .cons ⟨e, _, _, rfl, rfl⟩ (ih hRest)

theorem auditStep_rehash (a : AccountId) (entry : Option Amount) (e : EventEnvelope)
    (hs : Hashers) : auditStep a entry (e.rehash hs) = auditStep a entry e := by
  rcases e with ⟨_, _, _, _, _, eventData, _, _⟩
  cases eventData <;> rfl

/-- Seeds do not matter to an audit. -/
theorem audit_congr (a : AccountId) {events events' : List EventEnvelope}
    (h : List.Forall₂ Alike events events') : audit a events = audit a events' := by
  have hFrom : ∀ s : Option Amount × Nat,
      events.foldl (fun s e => ((auditStep a s.1 e).1, s.2 + (auditStep a s.1 e).2)) s =
        events'.foldl (fun s e => ((auditStep a s.1 e).1, s.2 + (auditStep a s.1 e).2)) s := by
    induction h with
    | nil => exact fun _ => rfl
    | cons hHere _ ih =>
        obtain ⟨g, hs, hs', rfl, rfl⟩ := hHere
        intro s
        rw [List.foldl_cons, List.foldl_cons, auditStep_rehash, auditStep_rehash]
        exact ih _
  exact hFrom (none, 0)

/-! ## Against the histories of the store -/

/-- The filtered part of a beginning is a beginning of the filtered list. -/
theorem filter_take (keep : EventEnvelope → Bool) (events : List EventEnvelope) (n : Nat) :
    (events.take n).filter keep = (events.filter keep).take ((events.take n).countP keep) := by
  have hPrefix : (events.take n).filter keep <+: events.filter keep :=
    (List.take_prefix n events).filter keep
  rw [List.countP_eq_length_filter]
  exact List.prefix_iff_eq_take.mp hPrefix

/-- **The balance check is one audit for each account**, over what the store returns
for it: the check replays the first thousand events of the store, and of the history of
an account those that are among them; in a store of at most a thousand events that is
the whole history. -/
theorem recovery_audits_accounts (C : Crates) (hTime : C.TimeTextReadsBack)
    (hDecodes : C.Lz4DecodesBack) (store : EventStore) (h : History)
    (hReach : Reachable C store AnyCall .empty h) (env : CallEnv)
    (hQuiet : env.scanFault = none) (query : AccountId → CallEnv)
    (hQueries : ∀ a, (query a).scanFault = none) :
    ∃ (events : List EventEnvelope) (history : AccountId → List EventEnvelope),
      scan C store env none h.db = .ok events ∧
      (∀ a, store.getAccountEvents C (query a) a h.db = .ok (history a)) ∧
      let reached := fun a => (history a).take (events.countP fun e => a ∈ accounts e)
      (h.db.contents.size ≤ 1000 → reached = history) ∧
      (∀ a, (Replay.run events).balances a = (audit a (reached a)).1) ∧
      ∀ stats, checkAccountBalanceConsistency C store env stats h.db =
        .ok
          { stats with
            consistencyErrors := stats.consistencyErrors +
              ∑ a ∈ (events.flatMap accounts).toFinset, (audit a (reached a)).2 } := by
  obtain ⟨stored, hStored⟩ := exists_stored hTime hDecodes env hReach
  have hEach (a : AccountId) := exists_stored hTime hDecodes (query a) hReach
  let found (a : AccountId) : List EventEnvelope := (hEach a).choose
  have hFound (a : AccountId) : StoredEvents C store (query a) h.db.contents (found a) :=
    (hEach a).choose_spec
  have hScan : scan C store env none h.db = .ok (stored.take 1000) :=
    scan_of_stored hQuiet hStored none
  let history (a : AccountId) := ((found a).filter fun e => a ∈ accounts e).take 1000
  have hKeep (a : AccountId) : List.Forall₂ Alike ((found a).filter fun e => a ∈ accounts e)
      (stored.filter fun e => a ∈ accounts e) := by
    refine List.rel_filter ?_ (alike_of_stored (hFound a) hStored)
    rintro _ _ ⟨e, hs, hs', rfl, rfl⟩
    simp only [accounts_rehash]
  have hCount (a : AccountId) : (stored.take 1000).countP (fun e => a ∈ accounts e) ≤ 1000 :=
    List.countP_le_length.trans (List.length_take_le 1000 stored)
  -- an audit of the scan is one of the history of its account
  have hAudit (a : AccountId) : audit a (stored.take 1000) =
      audit a ((history a).take ((stored.take 1000).countP fun e => a ∈ accounts e)) := by
    rw [← audit_filter, filter_take, List.take_take, Nat.min_eq_left (hCount a)]
    exact (audit_congr a (List.forall₂_take _ (hKeep a))).symm
  obtain ⟨hBalances, hErrors⟩ := replay_splits (stored.take 1000)
  refine ⟨_, history, hScan, fun a => getAccountEvents_eq (hQueries a) (hFound a) a, ?_, ?_, ?_⟩
  · intro hFew
    have hAll : stored.take 1000 = stored := by
      rw [List.take_eq_self_iff, length_of_stored hStored]
      exact hFew
    funext a
    rw [hAll, List.take_eq_self_iff, List.countP_eq_length_filter, ← (hKeep a).length_eq]
    exact List.length_take_le' 1000 _
  · intro a
    rw [hBalances a, hAudit a]
  · intro stats
    rw [checkAccountBalanceConsistency, hScan]
    simp only [← hAudit, ← hErrors]
    rfl

/-- Two accounts with 1000 each, and 250 of the first one to the second: the audits of their
histories end with what the replay ends with. -/
theorem recovery_audits_test :
    let a : AccountId := ⟨Uuid.fromU128 0⟩
    let b : AccountId := ⟨Uuid.fromU128 1⟩
    ∃ (h : History) (history : AccountId → List EventEnvelope),
      h.appended = createTwoAccounts a b ++ [createTransfer a b ⟨250⟩] ∧
      (∀ c, (new .default).getAccountEvents Crates.sample .quiet c h.db = .ok (history c)) ∧
      (audit a (history a)).1 = some ⟨750⟩ ∧ (audit b (history b)).1 = some ⟨1250⟩ := by
  intro a b
  obtain ⟨h, hReach, hAppended, hSize, hs, hs', hs'', hStored⟩ := exists_transfer_history
  obtain ⟨events, history, hScan, hHistory, hWhole, hBalances, -⟩ := recovery_audits_accounts
    Crates.sample Crates.sample_timeTextReadsBack Crates.sample_lz4DecodesBack (new .default) h
    (hReach.mono fun _ => trivial) .quiet rfl (fun _ => .quiet) (fun _ => rfl)
  have hQuiet : CallEnv.quiet.scanFault = none := rfl
  have hAll := scan_of_stored hQuiet hStored none
  rw [List.take_of_length_le (show 3 ≤ 1000 by decide)] at hAll
  cases hScan.symm.trans hAll
  have hFew : h.db.contents.size ≤ 1000 := by omega
  let first := createTestEnvelope a ⟨Uuid.fromU128 1⟩ newYear2026.time
  let second := createTestEnvelope b ⟨Uuid.fromU128 2⟩ newYear2026.time
  let transfer := createTransfer a b ⟨250⟩
  have hRun : Replay.run [first.rehash hs, second.rehash hs', transfer.rehash hs''] =
      Replay.run [first, second, transfer] := by
    simp only [Replay.run, List.foldl_cons, List.foldl_nil, Replay.step_rehash]
  have hAudit (c : AccountId) : (audit c (history c)).1 =
      (Replay.run [first, second, transfer]).balances c := by
    rw [← congrFun (hWhole hFew) c, ← hBalances c]
    exact congrArg (fun r : Replay => r.balances c) hRun
  have hFirst : (Replay.run [first, second, transfer]).balances a = some ⟨750⟩ := by
    decide +kernel
  have hSecond : (Replay.run [first, second, transfer]).balances b = some ⟨1250⟩ := by
    decide +kernel
  exact ⟨h, history, hAppended, hHistory, (hAudit a).trans hFirst, (hAudit b).trans hSecond⟩

end LedgerFS.Recovery
