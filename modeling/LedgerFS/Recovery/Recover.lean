import LedgerFS.EventStore.Store
import Mathlib.Logic.Function.Basic

/-!
# Recovery (`recovery.rs`)

`recover` makes four passes over the store: it reads the events, validates each of
them, replays the balances and looks at the order of the timestamps.  Every pass
asks `query_events` for the events anew, without a filter (`scan`), and goes over
what it gets; an error of the query ends the recovery, with the statistics lost.

The serializer of the manager is not used by any method, and neither is the option
to create a backup; `create_backup` and `restore_from_backup` do nothing.
-/

namespace LedgerFS.Recovery

open LedgerFS.Core
open LedgerFS.EventStore

/-! ## Data -/

/-- Errors that can occur during recovery operations. -/
inductive RecoveryError
  | eventStoreError (error : EventStoreError)
  | consistencyCheckFailed (message : String)
  | recoveryFailed (message : String)
  | corruptedData (message : String)
deriving DecidableEq

/-- Recovery statistics. -/
structure RecoveryStats where
  totalEventsChecked : Nat
  corruptedEventsFound : Nat
  corruptedEventsRepaired : Nat
  consistencyErrors : Nat
  recoveryDurationMs : Nat
deriving DecidableEq

def RecoveryStats.zero : RecoveryStats := ⟨0, 0, 0, 0, 0⟩

/-- Recovery options. -/
structure RecoveryOptions where
  /-- Whether to attempt automatic repair of corrupted events. -/
  autoRepair : Bool
  /-- Whether to perform deep consistency checks. -/
  deepCheck : Bool
  /-- Maximum number of events to check (0 = all). -/
  maxEventsToCheck : UInt64
deriving DecidableEq

/-- `RecoveryOptions::default`. -/
def RecoveryOptions.default : RecoveryOptions where
  autoRepair := false
  deepCheck := true
  maxEventsToCheck := 0

/-- A reading of `Utc::now()`: counted from the Unix epoch, and never inside a leap
second. -/
structure ClockReading where
  time : DateTime
  sinceEpoch : 0 ≤ time.secs
  nonLeap : time.NonLeap

/-- `now - Duration::days(365 * 10)`. -/
def ClockReading.tenYearsAgo (now : ClockReading) : DateTime where
  secs := now.time.secs - 365 * 10 * 86400
  frac := now.time.frac
  secs_ge := by
    have := now.sinceEpoch
    omega
  secs_le := by
    have := now.time.secs_le
    omega
  frac_lt := now.time.frac_lt

/-- What the outside decides during a recovery. -/
structure RecoveryEnv where
  /-- The query of each pass. -/
  integrity : CallEnv
  events : CallEnv
  balances : CallEnv
  temporal : CallEnv
  /-- The clock when the events are validated, one after the other. -/
  clock : Nat → ClockReading
  durationMs : Nat

/-! ## Validation -/

section Validation

-- chrono's text of an instant
variable (timeText : DateTime → String)

/-- The type that belongs to the event data. -/
def expectedType : LedgerEvent → String
  | .accountCreated _ => "AccountCreated"
  | .accountStatusChanged _ => "AccountStatusChanged"
  | .accountMetadataUpdated _ => "AccountMetadataUpdated"
  | .transactionProcessed _ => "TransactionProcessed"
  | .balanceUpdated _ => "BalanceUpdated"
  | .merkleRootGenerated _ => "MerkleRootGenerated"
  | .digestPublished _ => "DigestPublished"

/-- Validate an individual event envelope. -/
def validateEventEnvelope (now : ClockReading) (envelope : EventEnvelope) :
    Except String Unit :=
  if envelope.eventType.text ≠ expectedType envelope.eventData then
    .error ("Event type mismatch: expected " ++ expectedType envelope.eventData ++ ", got " ++
      envelope.eventType.text)
  else if envelope.aggregateId.text = "" then
    .error "Empty aggregate_id"
  else if envelope.timestamp > now.time then
    .error ("Event timestamp is in the future: " ++ timeText envelope.timestamp)
  else if envelope.timestamp < now.tenYearsAgo then
    .error ("Event timestamp is too old: " ++ timeText envelope.timestamp)
  else
    .ok ()

/-- Attempt to repair a corrupted event. -/
def repairEvent (_envelope : EventEnvelope) : Except RecoveryError Unit :=
  .error (.recoveryFailed "Event repair not implemented")

/-- The loop of `check_event_consistency`, with the number of the event. -/
def eventLoop (options : RecoveryOptions) (clock : Nat → ClockReading) :
    List EventEnvelope → Nat → RecoveryStats → RecoveryStats
  | [], _, stats => stats
  | envelope :: envelopes, i, stats =>
      let stats := { stats with totalEventsChecked := stats.totalEventsChecked + 1 }
      if (validateEventEnvelope timeText (clock i) envelope).isOk then
        eventLoop options clock envelopes (i + 1) stats
      else
        let stats := { stats with corruptedEventsFound := stats.corruptedEventsFound + 1 }
        if options.autoRepair && (repairEvent envelope).isOk then
          eventLoop options clock envelopes (i + 1)
            { stats with corruptedEventsRepaired := stats.corruptedEventsRepaired + 1 }
        else
          eventLoop options clock envelopes (i + 1) stats

end Validation

/-! ## Balances -/

/-- The balances rebuilt so far and the errors met on the way. -/
structure Replay where
  balances : AccountId → Option Amount
  errors : Nat

namespace Replay

def empty : Replay := ⟨fun _ => none, 0⟩

/-- `account_balances.insert`. -/
def insert (r : Replay) (a : AccountId) (balance : Amount) : Replay :=
  { r with balances := Function.update r.balances a (some balance) }

/-- One leg of a transaction: the balance of a known account changes, or an error is
counted. -/
def leg (r : Replay) (change : Amount → Except LedgerError Amount) :
    Option AccountId → Replay
  | none => r
  | some a =>
      match r.balances a with
      | none => r
      | some currentBalance =>
          match change currentBalance with
          | .ok newBalance => r.insert a newBalance
          | .error _ => { r with errors := r.errors + 1 }

/-- One event of the replay. -/
def step (r : Replay) (envelope : EventEnvelope) : Replay :=
  match envelope.eventData with
  | .accountCreated event => r.insert event.accountId event.initialBalance
  | .balanceUpdated event => r.insert event.accountId event.newBalance
  | .transactionProcessed event =>
      let debited := r.leg (fun currentBalance => currentBalance.subtract event.amount)
        event.fromAccount
      debited.leg (fun currentBalance => currentBalance.add event.amount) event.toAccount
  | _ => r

/-- Replay events to calculate expected balances. -/
def run (events : List EventEnvelope) : Replay := events.foldl step empty

end Replay

/-- The loop of `check_temporal_consistency`. -/
def temporalLoop : List EventEnvelope → Option DateTime → RecoveryStats → RecoveryStats
  | [], _, stats => stats
  | envelope :: envelopes, lastTimestamp, stats =>
      if lastTimestamp.any fun last => envelope.timestamp < last then
        temporalLoop envelopes (some envelope.timestamp)
          { stats with consistencyErrors := stats.consistencyErrors + 1 }
      else
        temporalLoop envelopes (some envelope.timestamp) stats

/-! ## The passes -/

section Passes

variable (C : Crates) (store : EventStore) (kindText : Bincode.ErrorKind → String)
  (timeText : DateTime → String)

/-- The events a pass goes over. -/
def scan (env : CallEnv) (limit : Option Nat) (db : RocksDb) :
    Except EventStoreError (List EventEnvelope) := do
  let result ← store.queryEvents C env (.unfiltered none limit) db
  pure result.events

/-- Check basic database integrity. -/
def checkDatabaseIntegrity (env : CallEnv) (stats : RecoveryStats) (db : RocksDb) :
    Except RecoveryError RecoveryStats :=
  match scan C store env none db with
  | .ok events => .ok { stats with totalEventsChecked := events.length }
  | .error e =>
      .error (.consistencyCheckFailed
        ("Database integrity check failed: " ++ e.toText kindText))

/-- Check event-level consistency. -/
def checkEventConsistency (env : CallEnv) (clock : Nat → ClockReading) (stats : RecoveryStats)
    (options : RecoveryOptions) (db : RocksDb) : Except RecoveryError RecoveryStats := do
  let limit :=
    if options.maxEventsToCheck > 0 then some options.maxEventsToCheck.toNat else none
  let events ← (scan C store env limit db).mapError .eventStoreError
  pure (eventLoop timeText options clock events 0 stats)

/-- Check account balance consistency. -/
def checkAccountBalanceConsistency (env : CallEnv) (stats : RecoveryStats) (db : RocksDb) :
    Except RecoveryError RecoveryStats := do
  let events ← (scan C store env none db).mapError .eventStoreError
  pure { stats with consistencyErrors := stats.consistencyErrors + (Replay.run events).errors }

/-- Check temporal consistency (events are in chronological order). -/
def checkTemporalConsistency (env : CallEnv) (stats : RecoveryStats) (db : RocksDb) :
    Except RecoveryError RecoveryStats := do
  let events ← (scan C store env none db).mapError .eventStoreError
  pure (temporalLoop events none stats)

/-- Perform crash recovery and consistency checks. -/
def recover (env : RecoveryEnv) (options : RecoveryOptions) (db : RocksDb) :
    Except RecoveryError RecoveryStats := do
  let stats ← checkDatabaseIntegrity C store kindText env.integrity .zero db
  let stats ←
    if options.deepCheck then
      checkEventConsistency C store timeText env.events env.clock stats options db
    else
      pure stats
  let stats ← checkAccountBalanceConsistency C store env.balances stats db
  let stats ← checkTemporalConsistency C store env.temporal stats db
  pure { stats with recoveryDurationMs := env.durationMs }

end Passes

end LedgerFS.Recovery
