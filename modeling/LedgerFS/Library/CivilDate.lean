import Mathlib.Tactic.Common

/-!
# The Gregorian calendar

A day count, from 1 March of year 0 on, and the date it falls on.  Years are taken from March to
February, so that the leap day ends a year, and in cycles of 400, of 146097 days each.  A date
leads back to its day (`toDays_ofDays`); that is all a text of instants needs to be read back.
-/

namespace LedgerFS.Library.CivilDate

/-- A date of the proleptic Gregorian calendar. -/
structure Date where
  year : Int
  month : Nat
  day : Nat
deriving DecidableEq

/-! ## A day within its cycle -/

/-- Centuries, then four-year groups, then years, then days. -/
structure Position where
  century : Nat
  group : Nat
  year : Nat
  day : Nat

namespace Position

/-- The last century of a cycle and the last year of a group are a day longer. -/
def ofDay (d : Nat) : Position :=
  let century := min (d / 36524) 3
  let inCentury := d - 36524 * century
  let group := inCentury / 1461
  let inGroup := inCentury - 1461 * group
  let year := min (inGroup / 365) 3
  ⟨century, group, year, inGroup - 365 * year⟩

def toDay (p : Position) : Nat := 36524 * p.century + 1461 * p.group + 365 * p.year + p.day

def yearOfCycle (p : Position) : Nat := 100 * p.century + 4 * p.group + p.year

theorem ofDay_bounds {d : Nat} (h : d < 146097) :
    (ofDay d).century ≤ 3 ∧ (ofDay d).group ≤ 24 ∧ (ofDay d).year ≤ 3 ∧ (ofDay d).day ≤ 365 := by
  simp only [ofDay]
  omega

theorem toDay_ofDay (d : Nat) : (ofDay d).toDay = d := by
  simp only [toDay, ofDay]
  omega

end Position

/-! ## A day within its year -/

/-- Days before a month, counted from March. -/
def daysBeforeMonth (m : Nat) : Nat := (153 * m + 2) / 5

/-- The month of a day, counted from March. -/
def monthOfDay (d : Nat) : Nat := (5 * d + 2) / 153

theorem monthOfDay_le {d : Nat} (h : d ≤ 365) : monthOfDay d ≤ 11 := by
  unfold monthOfDay
  omega

theorem daysBeforeMonth_le (d : Nat) : daysBeforeMonth (monthOfDay d) ≤ d := by
  unfold daysBeforeMonth monthOfDay
  omega

/-! ## Dates -/

/-- The date of a position in a cycle. -/
def ofPosition (era : Int) (p : Position) : Date :=
  let m := monthOfDay p.day
  let year := era * 400 + p.yearOfCycle
  { year := if m < 10 then year else year + 1
    month := if m < 10 then m + 3 else m - 9
    day := p.day - daysBeforeMonth m + 1 }

/-- The date of a day. -/
def ofDays (n : Int) : Date := ofPosition (n / 146097) (.ofDay (n % 146097).toNat)

/-- The year of a date from March on. -/
def marchYear (date : Date) : Int := if date.month ≤ 2 then date.year - 1 else date.year

/-- The month of a date from March on. -/
def marchMonth (date : Date) : Nat := if date.month ≤ 2 then date.month + 9 else date.month - 3

/-- The day of a date. -/
def toDays (date : Date) : Int :=
  let y := (marchYear date % 400).toNat
  let p : Position :=
    ⟨y / 100, y % 100 / 4, y % 4, daysBeforeMonth (marchMonth date) + date.day - 1⟩
  marchYear date / 400 * 146097 + p.toDay

section Back

variable (era : Int) (p : Position)

theorem marchYear_ofPosition (h : monthOfDay p.day ≤ 11) :
    marchYear (ofPosition era p) = era * 400 + p.yearOfCycle := by
  simp only [marchYear, ofPosition]
  split_ifs <;> omega

theorem marchMonth_ofPosition (h : monthOfDay p.day ≤ 11) :
    marchMonth (ofPosition era p) = monthOfDay p.day := by
  simp only [marchMonth, ofPosition]
  split_ifs <;> omega

/-- The cycle of a year, and the year within it. -/
theorem cycle_of_year {y : Nat} (h : y < 400) :
    (era * 400 + y) / 400 = era ∧ ((era * 400 + y) % 400).toNat = y := by
  omega

theorem ofYear (hGroup : p.group ≤ 24) (hYear : p.year ≤ 3) :
    p.yearOfCycle / 100 = p.century ∧ p.yearOfCycle % 100 / 4 = p.group ∧
      p.yearOfCycle % 4 = p.year := by
  unfold Position.yearOfCycle
  omega

theorem toDays_ofPosition (hCentury : p.century ≤ 3) (hGroup : p.group ≤ 24) (hYear : p.year ≤ 3)
    (hDay : p.day ≤ 365) : toDays (ofPosition era p) = era * 146097 + p.toDay := by
  have hMonth := monthOfDay_le hDay
  have hBefore := daysBeforeMonth_le p.day
  have hCycle : p.yearOfCycle < 400 := by
    unfold Position.yearOfCycle
    omega
  obtain ⟨hEra, hOfCycle⟩ := cycle_of_year era hCycle
  obtain ⟨hPart, hPart', hPart''⟩ := ofYear p hGroup hYear
  have hOfDay : daysBeforeMonth (monthOfDay p.day) + (ofPosition era p).day - 1 = p.day := by
    show daysBeforeMonth (monthOfDay p.day) + (p.day - daysBeforeMonth (monthOfDay p.day) + 1) - 1 =
      p.day
    omega
  simp only [toDays, marchYear_ofPosition era p hMonth, marchMonth_ofPosition era p hMonth, hEra,
    hOfCycle, hPart, hPart', hPart'', hOfDay]

end Back

/-- **A date leads back to its day.** -/
theorem toDays_ofDays (n : Int) : toDays (ofDays n) = n := by
  have hCycle : (n % 146097).toNat < 146097 := by omega
  obtain ⟨hCentury, hGroup, hYear, hDay⟩ := Position.ofDay_bounds hCycle
  rw [ofDays, toDays_ofPosition _ _ hCentury hGroup hYear hDay, Position.toDay_ofDay]
  omega

/-- The date of a day is within the years of its cycle. -/
theorem ofDays_bounds (n : Int) : n / 146097 * 400 ≤ (ofDays n).year ∧
    (ofDays n).year ≤ n / 146097 * 400 + 400 ∧ (ofDays n).month ≤ 12 ∧ (ofDays n).day ≤ 366 := by
  have hCycle : (n % 146097).toNat < 146097 := by omega
  obtain ⟨hCentury, hGroup, hYear, hDay⟩ := Position.ofDay_bounds hCycle
  have hMonth := monthOfDay_le hDay
  simp only [ofDays, ofPosition, Position.yearOfCycle]
  split_ifs <;> omega

/-- 1 January 1970. -/
example : ofDays 719468 = ⟨1970, 1, 1⟩ := by decide

/-- A leap day. -/
example : ofDays (719468 + 19782) = ⟨2024, 2, 29⟩ := by decide

end LedgerFS.Library.CivilDate
