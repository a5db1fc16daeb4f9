import Mathlib.Algebra.BigOperators.Group.List.Basic
import Mathlib.Tactic.Ring

/-!
# Means kept in whole numbers

The mean of some values is kept without their sum: the next mean is the old one times the
number of values so far, plus the next value, divided by the new number and rounded down.
The number may be off by some `extra` values, which then count as zeros.

What rounding takes away adds up (`roundingLoss`).  The mean times the number and the loss
are the sum (`runningMean_add_loss`), and the loss is at most half the square of the
number, with what the extra values add (`roundingLoss_le`).

A list of values has the last one first.
-/

namespace LedgerFS.Library

/-- The mean kept so far. -/
def runningMean (extra : Nat) : List Nat → Nat
  | [] => 0
  | value :: earlier =>
      (runningMean extra earlier * (earlier.length + extra) + value) /
        (earlier.length + extra + 1)

/-- What rounding has taken off the sum so far. -/
def roundingLoss (extra : Nat) : List Nat → Nat
  | [] => 0
  | value :: earlier =>
      roundingLoss extra earlier +
        (earlier.sum - roundingLoss extra earlier + value) % (earlier.length + extra + 1)

/-- **The sum** is in the mean and the loss. -/
theorem runningMean_add_loss (extra : Nat) (values : List Nat) :
    runningMean extra values * (values.length + extra) + roundingLoss extra values =
      values.sum := by
  induction values with
  | nil => simp [runningMean, roundingLoss]
  | cons value earlier ih =>
      rw [runningMean, roundingLoss, List.length_cons, List.sum_cons]
      have hKept : earlier.sum - roundingLoss extra earlier =
          runningMean extra earlier * (earlier.length + extra) := by omega
      have hNumber : earlier.length + 1 + extra = earlier.length + extra + 1 := by omega
      rw [hKept, hNumber]
      have hRounded := Nat.div_add_mod' (runningMean extra earlier * (earlier.length + extra) +
        value) (earlier.length + extra + 1)
      omega

/-- **The loss** of one step is less than the number of values. -/
theorem roundingLoss_le (extra : Nat) (values : List Nat) :
    2 * roundingLoss extra values + values.length ≤
      values.length * (values.length + 2 * extra) := by
  induction values with
  | nil => simp [roundingLoss]
  | cons value earlier ih =>
      rw [roundingLoss, List.length_cons]
      have hHere : (earlier.sum - roundingLoss extra earlier + value) %
          (earlier.length + extra + 1) < earlier.length + extra + 1 :=
        Nat.mod_lt _ (Nat.succ_pos _)
      have hSquare : (earlier.length + 1) * (earlier.length + 1 + 2 * extra) =
          earlier.length * (earlier.length + 2 * extra) + 2 * (earlier.length + extra) + 1 := by
        ring
      omega

end LedgerFS.Library
