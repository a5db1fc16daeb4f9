import Mathlib.Algebra.Group.Int.Defs
import Mathlib.Algebra.Group.Nat.Defs
import Mathlib.Data.Prod.Lex
import Mathlib.Order.Lattice

/-!
# Instants

`DateTime<Utc>` keeps whole seconds since 1970-01-01 and a nanosecond part.
The nanosecond part runs to two billion: chrono writes the inside of a leap
second as a part of one billion or more on the second before it.  Instants are
ordered by seconds first, so a leap-second reading comes before the whole of
the next second, although both have the same count of non-leap nanoseconds.

`timestampNanosOpt` is that count as an `i64`, absent when it does not fit:
outside 1677-09-21 to 2262-04-11, while instants reach from the year -262143
to 262142.

A leap second that ends a minute is written as the 60th second of the minute.
chrono also keeps readings inside leap seconds elsewhere, and writes these like
the second that follows: their texts are read back to that second, as `readBack`
says.
-/

namespace LedgerFS.Core

/-- Numbers an `i64` holds. -/
def InI64 (n : Int) : Prop := -(2 ^ 63) ≤ n ∧ n < 2 ^ 63

instance (n : Int) : Decidable (InI64 n) :=
  inferInstanceAs (Decidable (_ ∧ _))

/-- The result of a checked `i64` operation. -/
def checkedI64 (n : Int) : Option Int := if InI64 n then some n else none

theorem checkedI64_eq_some_iff (n m : Int) :
    checkedI64 n = some m ↔ n = m ∧ InI64 m := by
  unfold checkedI64
  split
  · rename_i h
    constructor
    · intro hm
      obtain rfl := Option.some.inj hm
      exact ⟨rfl, h⟩
    · rintro ⟨rfl, _⟩
      rfl
  · rename_i h
    constructor
    · intro hm
      cases hm
    · rintro ⟨rfl, hIn⟩
      exact absurd hIn h

/-- `chrono::DateTime<Utc>`. -/
structure DateTime where
  secs : Int
  frac : Nat
  secs_ge : -8334601228800 ≤ secs
  secs_le : secs ≤ 8210266876799
  frac_lt : frac < 2000000000
deriving DecidableEq

namespace DateTime

/-- Instants are ordered by seconds, then by the nanosecond part. -/
def sortKey (t : DateTime) : Int ×ₗ Nat := toLex (t.secs, t.frac)

theorem sortKey_injective : Function.Injective sortKey := by
  intro s t h
  have hPair : (s.secs, s.frac) = (t.secs, t.frac) := congrArg ofLex h
  cases s
  cases t
  simp_all

instance : LinearOrder DateTime := LinearOrder.lift' sortKey sortKey_injective

theorem lt_iff (s t : DateTime) :
    s < t ↔ s.secs < t.secs ∨ s.secs = t.secs ∧ s.frac < t.frac :=
  Prod.Lex.toLex_lt_toLex (x := (s.secs, s.frac)) (y := (t.secs, t.frac))

/-- `timestamp_nanos_opt`: non-leap nanoseconds since 1970, as an `i64`.  A
negative second is moved up by one first, as chrono does to keep the product
in range. -/
def timestampNanosOpt (t : DateTime) : Option Int := do
  let timestamp := if t.secs < 0 then t.secs + 1 else t.secs
  let subsecNanos : Int := if t.secs < 0 then t.frac - 1000000000 else t.frac
  let whole ← checkedI64 (timestamp * 1000000000)
  checkedI64 (whole + subsecNanos)

/-- The whole seconds are counted first, before 1970 moved up by one. -/
theorem timestampNanosOpt_eq_some_iff (t : DateTime) (n : Int) : t.timestampNanosOpt = some n ↔
    InI64 ((if t.secs < 0 then t.secs + 1 else t.secs) * 1000000000) ∧ InI64 n ∧
      n = t.secs * 1000000000 + t.frac := by
  simp only [timestampNanosOpt, Option.bind_eq_bind, Option.bind_eq_some_iff,
    checkedI64_eq_some_iff]
  constructor
  · rintro ⟨whole, ⟨rfl, hWhole⟩, hSum, hRange⟩
    refine ⟨hWhole, hRange, ?_⟩
    split_ifs at hSum <;> omega
  · rintro ⟨hWhole, hRange, hCount⟩
    refine ⟨_, ⟨rfl, hWhole⟩, ?_, hRange⟩
    split_ifs <;> omega

/-- The count, where there is one, is the exact number of nanoseconds. -/
theorem timestampNanosOpt_eq_some {t : DateTime} {n : Int}
    (h : t.timestampNanosOpt = some n) :
    n = t.secs * 1000000000 + t.frac ∧ InI64 n := by
  obtain ⟨-, hRange, hCount⟩ := (t.timestampNanosOpt_eq_some_iff n).mp h
  exact ⟨hCount, hRange⟩

/-- From 1970 on there is a count as soon as the nanoseconds fit. -/
theorem timestampNanosOpt_of_nonneg {t : DateTime} (h : 0 ≤ t.secs)
    (hFit : t.secs * 1000000000 + t.frac < 2 ^ 63) :
    t.timestampNanosOpt = some (t.secs * 1000000000 + t.frac) := by
  have hNotNeg : ¬ t.secs < 0 := by omega
  simp only [timestampNanosOpt, hNotNeg, if_false, Option.bind_eq_bind,
    Option.bind_eq_some_iff, checkedI64_eq_some_iff]
  exact ⟨t.secs * 1000000000, ⟨rfl, by unfold InI64; omega⟩, rfl,
    by unfold InI64; omega⟩

/-- Where the nanoseconds do not fit there is no count. -/
theorem timestampNanosOpt_of_large {t : DateTime}
    (hLarge : 2 ^ 63 ≤ t.secs * 1000000000 + t.frac) : t.timestampNanosOpt = none := by
  cases h : t.timestampNanosOpt with
  | none => rfl
  | some n =>
      obtain ⟨hCount, -, hFit⟩ := timestampNanosOpt_eq_some h
      omega

/-- Non-leap nanoseconds since 1970, and 0 where they do not fit an `i64`. -/
def nanosOrZero (t : DateTime) : Int :=
  if t.secs * 1000000000 + t.frac < 2 ^ 63 then t.secs * 1000000000 + t.frac else 0

/-- The largest instant with an `i64` count, on 2262-04-11. -/
def latestCounted : DateTime := ⟨9223372036, 854775807, by decide, by decide, by decide⟩

/-- From 1970-01-01 to the largest instant with an `i64` count. -/
def InNanosRange (t : DateTime) : Prop := 0 ≤ t.secs ∧ t ≤ latestCounted

instance (t : DateTime) : Decidable t.InNanosRange :=
  inferInstanceAs (Decidable (_ ∧ _))

/-- The reading is not inside a leap second. -/
def NonLeap (t : DateTime) : Prop := t.frac < 1000000000

instance (t : DateTime) : Decidable t.NonLeap :=
  inferInstanceAs (Decidable (_ < _))

/-- Outside leap seconds all instants of the range have a count. -/
theorem InNanosRange.fits {t : DateTime} (h : t.InNanosRange) (hNonLeap : t.NonLeap) :
    t.secs * 1000000000 + t.frac < 2 ^ 63 := by
  have hFrac : t.frac < 1000000000 := hNonLeap
  have hNotLater : ¬ latestCounted < t := not_lt_of_ge h.2
  rw [lt_iff] at hNotLater
  simp only [latestCounted] at hNotLater
  omega

/-- Outside leap seconds the counts of the range are ordered like the
instants. -/
theorem nanosOrZero_lt {s t : DateTime} (hLt : s < t) (hRange : t.InNanosRange)
    (hs : s.NonLeap) (ht : t.NonLeap) (hStart : 0 ≤ s.secs) :
    s.nanosOrZero < t.nanosOrZero := by
  have hFrac : s.frac < 1000000000 := hs
  have htFits := hRange.fits ht
  have hOrder := (lt_iff s t).mp hLt
  have hsFits : s.secs * 1000000000 + s.frac < 2 ^ 63 := by
    rcases hOrder with h | h <;> omega
  rw [nanosOrZero, nanosOrZero, if_pos hsFits, if_pos htFits]
  rcases hOrder with h | h <;> omega

/-! ## What a text is read back to -/

/-- The reading is the only one with its text: it is not inside a leap second, or the leap
second ends a minute. -/
def Unambiguous (t : DateTime) : Prop := t.frac < 1000000000 ∨ t.secs % 60 = 59

instance (t : DateTime) : Decidable t.Unambiguous :=
  inferInstanceAs (Decidable (_ ∨ _))

theorem NonLeap.unambiguous {t : DateTime} (h : t.NonLeap) : t.Unambiguous := Or.inl h

private theorem next_ge (t : DateTime) : -8334601228800 ≤ t.secs + 1 := by
  have hGe := t.secs_ge
  omega

private theorem next_le {t : DateTime} (h : ¬ t.Unambiguous) : t.secs + 1 ≤ 8210266876799 := by
  have hLe := t.secs_le
  unfold Unambiguous at h
  omega

private theorem next_lt (t : DateTime) : t.frac - 1000000000 < 2000000000 := by
  have hLt := t.frac_lt
  omega

/-- The reading that the text of a reading is read back to.  Inside a leap second that does not
end a minute it is the next non-leap second. -/
def readBack (t : DateTime) : DateTime :=
  if h : t.Unambiguous then t
  else ⟨t.secs + 1, t.frac - 1000000000, next_ge t, next_le h, next_lt t⟩

theorem readBack_of_unambiguous {t : DateTime} (h : t.Unambiguous) : t.readBack = t := dif_pos h

theorem readBack_unambiguous (t : DateTime) : t.readBack.Unambiguous := by
  by_cases h : t.Unambiguous
  · rwa [readBack_of_unambiguous h]
  · have hLt := t.frac_lt
    rw [readBack, dif_neg h]
    show t.frac - 1000000000 < 1000000000 ∨ _
    omega

@[simp] theorem readBack_readBack (t : DateTime) : t.readBack.readBack = t.readBack :=
  readBack_of_unambiguous t.readBack_unambiguous

/-- **The count is kept**, as an integer. -/
theorem count_readBack (t : DateTime) :
    t.readBack.secs * 1000000000 + t.readBack.frac = t.secs * 1000000000 + t.frac := by
  by_cases h : t.Unambiguous
  · rw [readBack_of_unambiguous h]
  · rw [readBack, dif_neg h]
    show (t.secs + 1) * 1000000000 + ((t.frac - 1000000000 : Nat) : Int) = _
    unfold Unambiguous at h
    omega

/-- No reading before 1970 is read back to one of 1970. -/
theorem secs_readBack_nonneg_iff (t : DateTime) : 0 ≤ t.readBack.secs ↔ 0 ≤ t.secs := by
  by_cases h : t.Unambiguous
  · rw [readBack_of_unambiguous h]
  · rw [readBack, dif_neg h]
    show 0 ≤ t.secs + 1 ↔ 0 ≤ t.secs
    unfold Unambiguous at h
    omega

/-- chrono computes the count of what is read back as it does that of the reading.  The one
exception is inside a leap second of 1677-09-21: there the count of the reading overflows on
the way. -/
theorem timestampNanosOpt_readBack_iff (t : DateTime) :
    t.readBack.timestampNanosOpt = t.timestampNanosOpt ↔
      ¬ (t.secs = -9223372038 ∧ 1145224192 ≤ t.frac) := by
  by_cases h : t.Unambiguous
  · rw [readBack_of_unambiguous h]
    refine iff_of_true rfl ?_
    unfold Unambiguous at h
    omega
  · have hCount := t.count_readBack
    have hSecs : t.readBack.secs = t.secs + 1 := by
      rw [readBack, dif_neg h]
    have hLt := t.frac_lt
    unfold Unambiguous at h
    constructor
    · intro hSame hException
      have hCounted : t.readBack.timestampNanosOpt =
          some (t.secs * 1000000000 + t.frac) := by
        rw [timestampNanosOpt_eq_some_iff, hCount, hSecs]
        unfold InI64
        omega
      obtain ⟨hWhole, -⟩ := (t.timestampNanosOpt_eq_some_iff _).mp (hSame ▸ hCounted)
      unfold InI64 at hWhole
      omega
    · intro hNoException
      apply Option.ext
      intro n
      rw [timestampNanosOpt_eq_some_iff, timestampNanosOpt_eq_some_iff, hCount, hSecs]
      unfold InI64
      omega

/-- From 1970 on there is no exception. -/
theorem timestampNanosOpt_readBack {t : DateTime} (h : 0 ≤ t.secs) :
    t.readBack.timestampNanosOpt = t.timestampNanosOpt := by
  rw [timestampNanosOpt_readBack_iff]
  omega

end DateTime

end LedgerFS.Core
