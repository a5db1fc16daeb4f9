import LedgerFS.Core.Types

/-!
# Exact amounts

`add` and `subtract` are checked: they give the exact sum or difference, or an error.
`from_major_units` multiplies without a check and has no error to return, so a product
that is out of range is wrapped or stops the program (`amounts_exact_iff`).
-/

namespace LedgerFS.Core

namespace Amount

/-- An operation comes to the exact integer or to an error: neither to another amount nor,
as nothing at all, to a panic. -/
def GoesRight (exact : Int) : Option (Except LedgerError Amount) → Prop
  | none => False
  | some (.error _) => True
  | some (.ok amount) => amount.value.toInt = exact

theorem goesRight_add (a b : Amount) :
    GoesRight (a.value.toInt + b.value.toInt) (some (a.add b)) := by
  rcases a.add_cases b with ⟨-, c, hOk, hExact⟩ | ⟨-, hError⟩
  · rw [hOk]
    exact hExact
  · rw [hError]
    exact trivial

theorem goesRight_subtract (a b : Amount) :
    GoesRight (a.value.toInt - b.value.toInt) (some (a.subtract b)) := by
  rcases a.subtract_cases b with ⟨-, c, hOk, hExact⟩ | ⟨-, hError⟩
  · rw [hOk]
    exact hExact
  · rw [hError]
    exact trivial

/-- A wrapped product is the product exactly if that is in range. -/
theorem toInt_mul_eq_iff (a b : Int64) :
    (a * b).toInt = a.toInt * b.toInt ↔ InI64 (a.toInt * b.toInt) := by
  constructor
  · intro hExact
    rw [← hExact]
    exact ⟨Int64.le_toInt (a * b), Int64.toInt_lt (a * b)⟩
  · intro hIn
    rw [Int64.toInt_mul]
    unfold InI64 at hIn
    apply Int.bmod_eq_of_le <;> omega

/-- **The product of units** is right exactly if it is in range, however the program was
built. -/
theorem goesRight_fromMajorUnits_iff (overflowChecks : Bool) (major minorUnitsPerMajor : Int64) :
    GoesRight (major.toInt * minorUnitsPerMajor.toInt)
        ((fromMajorUnits overflowChecks major minorUnitsPerMajor).map .ok) ↔
      InI64 (major.toInt * minorUnitsPerMajor.toInt) := by
  by_cases hIn : InI64 (major.toInt * minorUnitsPerMajor.toInt)
  · rw [fromMajorUnits, if_neg (fun h => h.2 hIn)]
    exact iff_of_true ((toInt_mul_eq_iff major minorUnitsPerMajor).mpr hIn) hIn
  · cases overflowChecks with
    | true =>
        rw [fromMajorUnits, if_pos ⟨rfl, hIn⟩]
        exact iff_of_false id hIn
    | false =>
        rw [fromMajorUnits, if_neg (fun h => Bool.false_ne_true h.1)]
        exact toInt_mul_eq_iff major minorUnitsPerMajor

/-- **When amounts are exact**: sums and differences always are, or there is an error; the
product of units is, exactly if it is in range. -/
theorem amounts_exact_iff (a b : Amount) (overflowChecks : Bool)
    (major minorUnitsPerMajor : Int64) :
    GoesRight (a.value.toInt + b.value.toInt) (some (a.add b)) ∧
      GoesRight (a.value.toInt - b.value.toInt) (some (a.subtract b)) ∧
      (GoesRight (major.toInt * minorUnitsPerMajor.toInt)
          ((fromMajorUnits overflowChecks major minorUnitsPerMajor).map .ok) ↔
        InI64 (major.toInt * minorUnitsPerMajor.toInt)) :=
  ⟨goesRight_add a b, goesRight_subtract a b,
    goesRight_fromMajorUnits_iff overflowChecks major minorUnitsPerMajor⟩

/-- 92,233,720,368,547,759 units of 100 are -9,223,372,036,854,775,716. -/
theorem fromMajorUnits_wrong :
    fromMajorUnits false 92233720368547759 100 = some ⟨-9223372036854775716⟩ ∧
      fromMajorUnits true 92233720368547759 100 = none ∧
      ¬ ∀ (overflowChecks : Bool) (major minorUnitsPerMajor : Int64),
        GoesRight (major.toInt * minorUnitsPerMajor.toInt)
          ((fromMajorUnits overflowChecks major minorUnitsPerMajor).map .ok) := by
  refine ⟨by decide, by decide, fun hAlways => ?_⟩
  have hIn := (goesRight_fromMajorUnits_iff false 92233720368547759 100).mp (hAlways _ _ _)
  exact absurd hIn (by decide)

end Amount

end LedgerFS.Core
