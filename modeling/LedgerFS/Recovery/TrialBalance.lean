import LedgerFS.Recovery.Transfers

/-!
# The trial balance

What all accounts hold together is what came into the ledger and has not left it.  An account
that is created brings its first balance; a deposit names no payer and a withdrawal no payee;
a transfer names both and nets to zero.  In a history that is `Regular` the replayed balances
have this total, up to the legs that left the range of an amount and were not booked
(`run_total`).  These are counted as errors, so a clean verdict of the recovery means that no
money was made or lost (`clean_verdict_balances`).
-/

namespace LedgerFS.Recovery

open LedgerFS.Core
open LedgerFS.EventStore
open LedgerFS.Library

/-! ## What comes in and goes out -/

/-- What an event brings into the ledger. -/
def flow (e : EventEnvelope) : Int :=
  match e.eventData with
  | .accountCreated event => event.initialBalance.value.toInt
  | .transactionProcessed event =>
      (if event.toAccount.isSome then event.amount.value.toInt else 0) -
        (if event.fromAccount.isSome then event.amount.value.toInt else 0)
  | _ => 0

theorem flow_rehash (hs : Hashers) (e : EventEnvelope) : flow (e.rehash hs) = flow e := by
  unfold flow EventEnvelope.rehash LedgerEvent.rehash
  cases e.eventData <;> rfl

/-- Accounts are created once, a snapshot records the balance there is, and a transaction
names known accounts only. -/
def Regular (r : Replay) (e : EventEnvelope) : Prop :=
  match e.eventData with
  | .accountCreated event => r.balances event.accountId = none
  | .balanceUpdated event => r.balances event.accountId = some event.newBalance
  | .transactionProcessed event =>
      (∀ a ∈ event.fromAccount, (r.balances a).isSome) ∧
        ∀ b ∈ event.toAccount, (r.balances b).isSome
  | _ => True

namespace Replay

/-- The credit of an event that was not booked, less the debit that was not. -/
def unbooked (r : Replay) (e : EventEnvelope) : Int :=
  match e.eventData with
  | .transactionProcessed event =>
      (if ((r.debited event).credited event).errors = (r.debited event).errors then 0
        else event.amount.value.toInt) -
      (if (r.debited event).errors = r.errors then 0 else event.amount.value.toInt)
  | _ => 0

/-- The legs of a history that were not booked. -/
def unbookedAll : Replay → List EventEnvelope → Int
  | _, [] => 0
  | r, e :: events => r.unbooked e + (r.step e).unbookedAll events

theorem unbookedAll_concat (r : Replay) (events : List EventEnvelope) (e : EventEnvelope) :
    r.unbookedAll (events ++ [e]) = r.unbookedAll events + (events.foldl step r).unbooked e := by
  induction events generalizing r with
  | nil =>
      show r.unbooked e + 0 = 0 + r.unbooked e
      omega
  | cons first events ih =>
      rw [List.cons_append, unbookedAll, unbookedAll, ih, List.foldl_cons, Int.add_assoc]

/-! ## One event -/

/-- **A leg** moves the total by its change, unless it is not booked. -/
theorem total_leg {r : Replay} {total : Int} (h : SumsTo r.values total) (delta : Int)
    (change : Amount → Except LedgerError Amount)
    (hChange : ∀ balance : Amount,
      (∃ c, change balance = .ok c ∧ c.value.toInt = balance.value.toInt + delta) ∨
        ∃ error, change balance = .error error)
    {account : Option AccountId} (hKnown : ∀ a ∈ account, (r.balances a).isSome) :
    SumsTo (r.leg change account).values
      (total + (if account.isSome then delta else 0) -
        (if (r.leg change account).errors = r.errors then 0 else delta)) := by
  cases account with
  | none =>
      show SumsTo r.values (total + 0 - if r.errors = r.errors then 0 else delta)
      rw [if_pos rfl, Int.add_zero, Int.sub_zero]
      exact h
  | some a =>
      obtain ⟨balance, hBalance⟩ := Option.isSome_iff_exists.mp (hKnown a rfl)
      rcases hChange balance with ⟨c, hOk, hSum⟩ | ⟨error, hError⟩
      · have hSame : (r.insert a c).errors = r.errors := rfl
        have hMoved := h.update a c.value.toInt
        rw [values_of_known hBalance, Option.getD_some, hSum] at hMoved
        rw [leg_of_ok hBalance hOk, if_pos hSame, if_pos Option.isSome_some, values_insert, hSum]
        have hTotal : total - balance.value.toInt + (balance.value.toInt + delta) =
            total + delta - 0 := by omega
        rwa [hTotal] at hMoved
      · have hMore : ¬ r.errors + 1 = r.errors := by omega
        rw [leg_of_error hBalance hError, if_neg hMore, if_pos Option.isSome_some,
          Int.add_sub_cancel]
        exact h

theorem leg_isSome {r : Replay} (change : Amount → Except LedgerError Amount)
    (account : Option AccountId) {b : AccountId} (h : (r.balances b).isSome) :
    ((r.leg change account).balances b).isSome := by
  cases account with
  | none => exact h
  | some a =>
      cases hKnown : r.balances a with
      | none => rwa [show r.leg change (some a) = r from leg_of_unknown hKnown change]
      | some balance =>
          cases hChange : change balance with
          | error error => rwa [leg_of_error hKnown hChange]
          | ok newBalance =>
              rw [leg_of_ok hKnown hChange]
              by_cases hb : b = a
              · subst hb
                exact Option.isSome_iff_exists.mpr ⟨newBalance, Function.update_self ..⟩
              · show (Function.update r.balances a _ b).isSome
                rwa [Function.update_of_ne hb]

/-- **Step**: a regular event moves the total by what it brings, up to its unbooked legs. -/
theorem total_step {r : Replay} {total : Int} (h : SumsTo r.values total) {e : EventEnvelope}
    (hRegular : Regular r e) : SumsTo (r.step e).values (total + (flow e - r.unbooked e)) := by
  unfold Regular at hRegular
  unfold flow unbooked
  cases hEvent : e.eventData with
  | accountCreated event =>
      rw [hEvent] at hRegular
      have hNew : r.values event.accountId = none := by
        rw [values, hRegular]
        rfl
      have hMoved := h.update event.accountId event.initialBalance.value.toInt
      rw [hNew, Option.getD_none, Int.sub_zero] at hMoved
      rw [step, hEvent, Int.sub_zero]
      show SumsTo (r.insert event.accountId event.initialBalance).values _
      rwa [values_insert]
  | balanceUpdated event =>
      rw [hEvent] at hRegular
      rw [step, hEvent, Int.sub_self, Int.add_zero]
      show SumsTo (r.insert event.accountId event.newBalance).values total
      rwa [values_insert, ← values_of_known hRegular, Function.update_eq_self]
  | transactionProcessed event =>
      rw [hEvent] at hRegular
      rw [step_of_transaction r hEvent]
      have hDebited := total_leg h (-event.amount.value.toInt)
        (fun currentBalance => currentBalance.subtract event.amount) (fun balance => by
          rcases balance.subtract_cases event.amount with ⟨-, c, hOk, hValue⟩ | ⟨-, hError⟩
          · exact Or.inl ⟨c, hOk, hValue⟩
          · exact Or.inr ⟨_, hError⟩) hRegular.1
      have hCredited := total_leg hDebited event.amount.value.toInt
        (fun currentBalance => currentBalance.add event.amount) (fun balance => by
          rcases balance.add_cases event.amount with ⟨-, c, hOk, hValue⟩ | ⟨-, hError⟩
          · exact Or.inl ⟨c, hOk, hValue⟩
          · exact Or.inr ⟨_, hError⟩) (fun b hb => leg_isSome _ _ (hRegular.2 b hb))
      refine (congrArg (SumsTo _) ?_).mp hCredited
      let amount := event.amount.value.toInt
      let twice := (r.debited event).credited event
      show total + (if event.fromAccount.isSome then -amount else 0) -
            (if (r.debited event).errors = r.errors then 0 else -amount) +
            (if event.toAccount.isSome then amount else 0) -
            (if twice.errors = (r.debited event).errors then 0 else amount) =
          total + ((if event.toAccount.isSome then amount else 0) -
            (if event.fromAccount.isSome then amount else 0) -
            ((if twice.errors = (r.debited event).errors then 0 else amount) -
              (if (r.debited event).errors = r.errors then 0 else amount)))
      split_ifs <;> omega
  | _ =>
      rw [step, hEvent, Int.sub_self, Int.add_zero]
      exact h

/-! ## A history -/

/-- **Run**: what a regular history brought, less what it did not book, is the total. -/
theorem run_total {events : List EventEnvelope}
    (hRegular : AtEach (fun before e => Regular (run before) e) events) :
    SumsTo (run events).values ((events.map flow).sum - empty.unbookedAll events) := by
  induction events using List.reverseRecOn with
  | nil => exact sumsTo_none
  | append_singleton events e ih =>
      rw [atEach_concat] at hRegular
      have hStep := total_step (ih hRegular.1) hRegular.2
      rw [run, List.foldl_concat, unbookedAll_concat, List.map_append, List.sum_append,
        List.map_singleton, List.sum_singleton]
      have hTotal : (events.map flow).sum - empty.unbookedAll events +
          (flow e - (run events).unbooked e) =
            (events.map flow).sum + flow e -
              (empty.unbookedAll events + (events.foldl step empty).unbooked e) := by
        rw [run]
        omega
      rwa [hTotal] at hStep

/-- **Errors**: a leg that is not booked is counted. -/
theorem unbooked_of_clean {r : Replay} {e : EventEnvelope} (h : (r.step e).errors = r.errors) :
    r.unbooked e = 0 := by
  unfold unbooked
  cases hEvent : e.eventData with
  | transactionProcessed event =>
      rw [step_of_transaction r hEvent] at h
      have hDebit : r.errors ≤ (r.debited event).errors := by
        rcases r.debited_cases event with ⟨-, hSame, -⟩ | ⟨-, hMore⟩ <;> omega
      have hCredit : (r.debited event).errors ≤ ((r.debited event).credited event).errors := by
        rcases (r.debited event).credited_cases event with ⟨-, hSame, -⟩ | ⟨-, hMore⟩ <;> omega
      have hFirst : (r.debited event).errors = r.errors := by omega
      have hSecond : ((r.debited event).credited event).errors = (r.debited event).errors := by
        omega
      simp only [if_pos hFirst, if_pos hSecond, Int.sub_self]
  | _ => rfl

theorem unbookedAll_of_clean {events : List EventEnvelope} (h : (run events).errors = 0) :
    empty.unbookedAll events = 0 := by
  induction events using List.reverseRecOn with
  | nil => rfl
  | append_singleton events e ih =>
      rw [run, List.foldl_concat] at h
      have hBefore := replay_follows.errors_le (events.foldl step empty) e
      have hClean : (run events).errors = 0 := by
        rw [run]
        omega
      rw [unbookedAll_concat, ih hClean, Int.zero_add]
      apply unbooked_of_clean
      rw [run] at hClean
      omega

end Replay

/-! ## The verdict -/

/-- **The trial balance**: where the history of a store in reach of the scans is regular, the
balances that a recovery replays have the total of what came in and went out, less the legs it
did not book; and if its verdict is clean there are none. -/
theorem clean_verdict_balances (C : Crates) (store : EventStore)
    (kindText : Bincode.ErrorKind → String) (timeText : DateTime → String) (env : RecoveryEnv)
    (hQuiet : env.Quiet) (options : RecoveryOptions) (db : RocksDb)
    (hCap : db.contents.size ≤ 1000) (events : List EventEnvelope)
    (hEvents : StoredEvents C store env.balances db.contents events)
    (hRegular : AtEach (fun before e => Regular (Replay.run before) e) events) :
    SumsTo (Replay.run events).values
        ((events.map flow).sum - Replay.empty.unbookedAll events) ∧
      ∃ stats, recover C store kindText timeText env options db = .ok stats ∧
        (stats.consistencyErrors = 0 →
          SumsTo (Replay.run events).values (events.map flow).sum) := by
  have hTotal := Replay.run_total hRegular
  obtain ⟨stored, hStored⟩ := exists_stored_of_readable
    (readable_of_decodeAll (decodeAll_eq_ok hEvents))
  obtain ⟨stats, hOk, hClean⟩ := clean_iff kindText timeText hQuiet options hCap hStored
  refine ⟨hTotal, stats, hOk, fun hZero => ?_⟩
  have hFit := (hClean.mp hZero).1
  rw [← run_errors_eq_zero_iff, (hStored env.balances).unique hEvents] at hFit
  rw [Replay.unbookedAll_of_clean hFit, Int.sub_zero] at hTotal
  exact hTotal

/-- Two accounts with 1000 each and a transfer between them: 2000. -/
theorem clean_verdict_balances_test :
    let a : AccountId := ⟨Uuid.fromU128 0⟩
    let b : AccountId := ⟨Uuid.fromU128 1⟩
    ∃ (h : History) (events : List EventEnvelope),
      h.appended = createTwoAccounts a b ++ [createTransfer a b ⟨250⟩] ∧
      StoredEvents Crates.sample (new .default) .quiet h.db.contents events ∧
      SumsTo (Replay.run events).values 2000 := by
  intro a b
  let first := createTestEnvelope a ⟨Uuid.fromU128 1⟩ newYear2026.time
  let second := createTestEnvelope b ⟨Uuid.fromU128 2⟩ newYear2026.time
  let transfer := createTransfer a b ⟨250⟩
  obtain ⟨h, -, hAppended, hSize, hs, hs', hs'', hStored⟩ := exists_transfer_history
  have hne : a ≠ b := by decide
  obtain ⟨hx, hy⟩ := balances_of_two a b
  have hRegular : AtEach (fun before e => Regular (Replay.run before) e)
      ([] ++ [first.rehash hs] ++ [second.rehash hs'] ++ [transfer.rehash hs'']) := by
    rw [atEach_concat, atEach_concat, atEach_concat]
    refine ⟨⟨⟨atEach_nil _, rfl⟩, ?_⟩, ?_, ?_⟩
    · show Function.update (fun _ => none : AccountId → Option Amount) a (some ⟨1000⟩) b = none
      exact Function.update_of_ne hne.symm ..
    · intro c hc
      obtain rfl : a = c := Option.some.inj hc
      exact Option.isSome_iff_exists.mpr ⟨_, hx⟩
    · intro c hc
      obtain rfl : b = c := Option.some.inj hc
      exact Option.isSome_iff_exists.mpr ⟨_, hy⟩
  obtain ⟨hTotal, -⟩ := clean_verdict_balances Crates.sample (new .default) (fun _ => "")
    (fun _ => "") (.still newYear2026) (RecoveryEnv.still_quiet _) .default h.db (by omega) _
    hStored hRegular
  have hRun : Replay.run [first.rehash hs, second.rehash hs', transfer.rehash hs''] =
      Replay.run [first, second, transfer] := by
    simp only [Replay.run, List.foldl_cons, List.foldl_nil, Replay.step_rehash]
  have hClean : (Replay.run [first, second, transfer]).errors = 0 := by decide +kernel
  have hSum : ([first.rehash hs, second.rehash hs', transfer.rehash hs''].map flow).sum = 2000 := by
    simp only [List.map_cons, List.map_nil, flow_rehash]
    decide +kernel
  rw [hSum, Replay.unbookedAll_of_clean (hRun ▸ hClean), Int.sub_zero] at hTotal
  exact ⟨h, _, hAppended, hStored, hTotal⟩

end LedgerFS.Recovery
