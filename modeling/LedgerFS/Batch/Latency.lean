import LedgerFS.Batch.Flush
import LedgerFS.Library.RunningMean
import Mathlib.Algebra.Order.Field.Basic
import Mathlib.Data.Rat.Cast.Order

/-!
# The average latency

The average latency is kept without the sum of the latencies.  `flush_batch` takes the
number of batches after it has counted the batch, and divides by one more: one batch too
many goes into the mean, and counts as a zero.  So the average is that of a running mean
with one extra value (`averageWriteLatency_eq`), half the latency after the first batch,
and near the mean only as long as the latencies are small (`latency_iff`).
-/

namespace LedgerFS.Batch

open LedgerFS.Core
open LedgerFS.EventStore
open LedgerFS.Library

/-- A flush: the batch, what the outside decides, and the database it finds. -/
structure FlushCall where
  batch : EventBatch
  env : FlushEnv
  db : RocksDb

section Metrics

variable (C : Crates) (store : EventStore) (kindText : Bincode.ErrorKind → String)
  (config : BatchConfig)

/-- There is something to flush, and the append succeeds. -/
def FlushCall.succeeds (flush : FlushCall) : Bool :=
  !flush.batch.isEmpty &&
    ((appendBatch C store config flush.env.call flush.batch.events).exec flush.db).1.isOk

/-- The metrics after some flushes, the last one first. -/
def metricsAfter : List FlushCall → BatchMetrics
  | [] => .default
  | flush :: earlier =>
      (flushBatch C store kindText config flush.env flush.batch (metricsAfter earlier)
        flush.db).metrics

variable {C store}

/-- **Step**: a flush that succeeds is recorded. -/
theorem metrics_of_succeeds {flush : FlushCall} (h : flush.succeeds C store config = true)
    (metrics : BatchMetrics) :
    ∃ result, (flushBatch C store kindText config flush.env flush.batch metrics flush.db).metrics =
      metrics.record kindText flush.batch.len flush.env.duration (.ok result) := by
  rw [FlushCall.succeeds, Bool.and_eq_true, Bool.not_eq_true'] at h
  obtain ⟨hSome, hOk⟩ := h
  rw [flushBatch, if_neg (by simp [hSome])]
  cases hOutcome : ((appendBatch C store config flush.env.call flush.batch.events).exec
      flush.db).1 with
  | ok result =>
      refine ⟨result, ?_⟩
      simp only [hOutcome]
  | error error =>
      rw [hOutcome] at hOk
      cases hOk

/-- **Step**: any other flush leaves the counts and the average. -/
theorem metrics_of_not_succeeds {flush : FlushCall}
    (h : ¬ flush.succeeds C store config = true) (metrics : BatchMetrics) :
    let after := (flushBatch C store kindText config flush.env flush.batch metrics
      flush.db).metrics
    after.totalBatchesProcessed = metrics.totalBatchesProcessed ∧
      after.totalEventsProcessed = metrics.totalEventsProcessed ∧
      after.averageWriteLatency = metrics.averageWriteLatency := by
  rw [flushBatch]
  by_cases hEmpty : flush.batch.isEmpty = true
  · rw [if_pos hEmpty]
    exact ⟨rfl, rfl, rfl⟩
  · rw [if_neg hEmpty]
    cases hOutcome : ((appendBatch C store config flush.env.call flush.batch.events).exec
        flush.db).1 with
    | ok result =>
        refine absurd ?_ h
        rw [FlushCall.succeeds, hOutcome]
        simp [hEmpty, Except.isOk, Except.toBool]
    | error error =>
        simp only [hOutcome]
        exact ⟨rfl, rfl, rfl⟩

variable (C store)

/-- The flushes that succeed. -/
def succeeded (flushes : List FlushCall) : List FlushCall :=
  flushes.filter fun flush => flush.succeeds C store config

/-- How long they took, the last one first. -/
def latencies (flushes : List FlushCall) : List Nat :=
  (succeeded C store config flushes).map fun flush => flush.env.duration

/-- **Run**: the counts are right, and the average is a running mean with one zero too
many. -/
theorem metricsAfter_eq (flushes : List FlushCall) :
    (metricsAfter C store kindText config flushes).totalBatchesProcessed =
        (latencies C store config flushes).length ∧
      (metricsAfter C store kindText config flushes).totalEventsProcessed =
        ((succeeded C store config flushes).map fun flush => flush.batch.len).sum ∧
      (metricsAfter C store kindText config flushes).averageWriteLatency =
        runningMean 1 (latencies C store config flushes) := by
  induction flushes with
  | nil => exact ⟨rfl, rfl, rfl⟩
  | cons flush earlier ih =>
      obtain ⟨ihBatches, ihEvents, ihLatency⟩ := ih
      simp only [latencies, succeeded] at ihBatches ihEvents ihLatency ⊢
      rw [metricsAfter]
      by_cases hOk : flush.succeeds C store config = true
      · rw [List.filter_cons_of_pos hOk]
        obtain ⟨result, hRecorded⟩ := metrics_of_succeeds kindText config hOk
          (metricsAfter C store kindText config earlier)
        rw [hRecorded]
        simp only [BatchMetrics.record, List.map_cons, List.length_cons, List.sum_cons,
          runningMean, ihBatches, ihEvents, ihLatency, true_and, and_true]
        exact Nat.add_comm _ _
      · rw [List.filter_cons_of_neg hOk]
        obtain ⟨hBatches, hEvents, hLatency⟩ := metrics_of_not_succeeds kindText config hOk
          (metricsAfter C store kindText config earlier)
        exact ⟨hBatches.trans ihBatches, hEvents.trans ihEvents, hLatency.trans ihLatency⟩

end Metrics

/-! ## The mean -/

/-- The average is at most the mean of so many latencies, and by at most one nanosecond
for each of them below it. -/
def NearMean (sum number average : Nat) : Prop :=
  (sum : ℚ) / number - number ≤ average ∧ (average : ℚ) ≤ sum / number

theorem nearMean_iff {sum number average : Nat} (hSome : 0 < number) :
    NearMean sum number average ↔
      sum ≤ average * number + number ^ 2 ∧ average * number ≤ sum := by
  have hPos : (0 : ℚ) < number := by exact_mod_cast hSome
  unfold NearMean
  rw [sub_le_iff_le_add, div_le_iff₀ hPos, le_div_iff₀ hPos, add_mul, ← pow_two]
  norm_cast

/-- **Near the mean**: with one zero too many and a rounding loss, only small sums are. -/
theorem nearMean_of_loss_iff {sum number average loss : Nat} (hSome : 0 < number)
    (hSum : average * (number + 1) + loss = sum) :
    NearMean sum number average ↔ sum + number * loss ≤ number ^ 2 * (number + 1) := by
  have hSplit : average * (number + 1) = average * number + average := by ring
  have hScaled : sum + number * loss = (average + loss) * (number + 1) := by
    rw [← hSum]
    ring
  have hUpper : average * number ≤ sum := by omega
  have hLower : sum ≤ average * number + number ^ 2 ↔ average + loss ≤ number ^ 2 := by omega
  rw [nearMean_iff hSome, hScaled, hLower, and_iff_left hUpper]
  exact (Nat.mul_le_mul_right_iff (Nat.succ_pos number)).symm

/-- **When the average latency is near the mean**: the sum of the latencies is small
against the number of batches.  It suffices that twice the sum is at most
`number ^ 2 * (number + 1)`, and the sum must not exceed that.  The counts of batches and
events are always right. -/
theorem latency_iff (C : Crates) (store : EventStore) (kindText : Bincode.ErrorKind → String)
    (config : BatchConfig) (flushes : List FlushCall) :
    let latencies := latencies C store config flushes
    let number := latencies.length
    let metrics := metricsAfter C store kindText config flushes
    metrics.totalBatchesProcessed = number ∧
      metrics.totalEventsProcessed =
        ((succeeded C store config flushes).map fun flush => flush.batch.len).sum ∧
      (0 < number →
        (NearMean latencies.sum number metrics.averageWriteLatency ↔
          latencies.sum + number * roundingLoss 1 latencies ≤ number ^ 2 * (number + 1)) ∧
        (2 * latencies.sum ≤ number ^ 2 * (number + 1) →
          NearMean latencies.sum number metrics.averageWriteLatency) ∧
        (NearMean latencies.sum number metrics.averageWriteLatency →
          latencies.sum ≤ number ^ 2 * (number + 1))) := by
  intro latencies number metrics
  obtain ⟨hBatches, hEvents, hLatency⟩ := metricsAfter_eq C store kindText config flushes
  refine ⟨hBatches, hEvents, fun hSome => ?_⟩
  have hNear : NearMean latencies.sum number metrics.averageWriteLatency ↔
      latencies.sum + number * roundingLoss 1 latencies ≤ number ^ 2 * (number + 1) := by
    apply nearMean_of_loss_iff hSome
    rw [hLatency]
    exact runningMean_add_loss 1 latencies
  have hLoss : 2 * roundingLoss 1 latencies + number ≤ number * (number + 2 * 1) :=
    roundingLoss_le 1 latencies
  refine ⟨hNear, fun hSmall => hNear.mpr ?_, fun h => ?_⟩
  · have hScaled := Nat.mul_le_mul_left number hLoss
    have hLeft : number * (2 * roundingLoss 1 latencies + number) =
        2 * (number * roundingLoss 1 latencies) + number ^ 2 := by ring
    have hRight : number * (number * (number + 2 * 1)) =
        number ^ 2 * (number + 1) + number ^ 2 := by ring
    omega
  · have hEnough := hNear.mp h
    omega

/-- A flush of one envelope into an empty store. -/
def flushOne (duration : Nat) : FlushCall where
  batch := ⟨[createTestEnvelope ⟨Uuid.fromU128 1⟩ ⟨Uuid.fromU128 2⟩ DateTime.epoch], 0⟩
  env := ⟨.quiet, duration, 0⟩
  db := .empty

theorem flushOne_succeeds (duration : Nat) :
    (flushOne duration).succeeds Crates.sample (new .default) .default = true := by
  obtain ⟨batch, hAccepts⟩ := exists_accepts Crates.sample (new .default) .quiet
    Crates.sample_lz4Encodes RocksDb.empty.contents (flushOne duration).batch.events
    (fun _ _ => ⟨rfl, rfl⟩) rfl
  have hSome : (flushOne duration).batch.events ≠ [] := List.cons_ne_nil _ _
  have hAppends :
      Appends Crates.sample (new .default) .quiet (flushOne duration).batch.events _ _ :=
    appendBatch_appends .default .quiet hSome
  rcases hAppends RocksDb.empty with ⟨_, result, -, hExec⟩ | ⟨hNone, -⟩
  · show (true && _) = true
    rw [Bool.true_and]
    exact congrArg (fun outcome => Except.isOk (Prod.fst outcome)) hExec
  · exact absurd hAccepts (hNone batch)

theorem latencies_flushOne (duration : Nat) (earlier : List FlushCall) :
    latencies Crates.sample (new .default) .default (flushOne duration :: earlier) =
      duration :: latencies Crates.sample (new .default) .default earlier := by
  rw [latencies, succeeded, List.filter_cons_of_pos (flushOne_succeeds duration)]
  rfl

/-- A flush of nothing. -/
def flushNone : FlushCall := { flushOne 0 with batch := ⟨[], 0⟩ }

theorem latencies_flushNone (earlier : List FlushCall) :
    latencies Crates.sample (new .default) .default (flushNone :: earlier) =
      latencies Crates.sample (new .default) .default earlier := by
  have hNot : ¬ flushNone.succeeds Crates.sample (new .default) .default = true :=
    Bool.false_ne_true
  rw [latencies, succeeded, List.filter_cons_of_neg hNot]
  rfl

/-- Flushes of 5, 4 and 9 nanoseconds, and one of nothing between them: the average of the three
is near their mean, which is 6. -/
theorem latency_test :
    NearMean 18 3 (metricsAfter Crates.sample (new .default) (fun _ => "") .default
      [flushOne 9, flushNone, flushOne 4, flushOne 5]).averageWriteLatency := by
  have hLatency := latency_iff Crates.sample (new .default) (fun _ => "") .default
    [flushOne 9, flushNone, flushOne 4, flushOne 5]
  rw [latencies_flushOne, latencies_flushNone, latencies_flushOne, latencies_flushOne]
    at hLatency
  exact (hLatency.2.2 (Nat.succ_pos 2)).2.1 (by decide)

/-- One flush of 1000 nanoseconds: the average is 500. -/
theorem latency_halved :
    ¬ ∀ (config : BatchConfig) (flushes : List FlushCall),
      (∀ flush ∈ flushes, flush.succeeds Crates.sample (new .default) config = true) →
      flushes ≠ [] →
      NearMean (flushes.map fun flush => flush.env.duration).sum flushes.length
        (metricsAfter Crates.sample (new .default) (fun _ => "") config
          flushes).averageWriteLatency := by
  intro hAlways
  have hNear := hAlways .default [flushOne 1000]
    (by simpa using flushOne_succeeds 1000) (List.cons_ne_nil _ _)
  rw [(metricsAfter_eq _ _ _ _ _).2.2, latencies_flushOne 1000 []] at hNear
  have hHalf : NearMean 1000 1 500 := hNear
  rw [nearMean_iff Nat.one_pos] at hHalf
  omega

end LedgerFS.Batch
