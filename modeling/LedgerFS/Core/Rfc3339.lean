import LedgerFS.Core.Collections
import LedgerFS.Core.Time
import LedgerFS.Library.CivilDate
import Mathlib.Data.List.TakeDrop

/-!
# The text of an instant

What chrono writes for a `DateTime<Utc>`: the RFC 3339 text in UTC, with as many digits of the
second's fraction as it takes, three, six or nine.  Years of more than four digits and years
before year 0 have a sign.  Inside a leap second the seconds are one more and the fraction starts
anew, so a leap second that ends a minute is its 60th second, and any other has the text of the
second that follows it.

`parse` reads these texts, and reads `readBack` (`parse_text`).
-/

namespace LedgerFS.Core.Rfc3339

open LedgerFS.Library

/-! ## Numbers -/

/-- A number in at least `width` digits. -/
def padded (width n : Nat) : List Char :=
  List.replicate (width - (Nat.toDigits 10 n).length) '0' ++ Nat.toDigits 10 n

/-- The number at the front, and what follows it. -/
def number (cs : List Char) : Nat × List Char :=
  (Nat.ofDigitChars 10 (cs.takeWhile Char.isDigit) 0, cs.dropWhile Char.isDigit)

theorem isDigit_padded {width n : Nat} {c : Char} (h : c ∈ padded width n) : c.isDigit = true := by
  rcases List.mem_append.mp h with hZero | hDigit
  · rw [(List.mem_replicate.mp hZero).2]
    rfl
  · exact Nat.isDigit_of_mem_toDigits (by decide) (by decide) hDigit

theorem ofDigitChars_padded (width n : Nat) : Nat.ofDigitChars 10 (padded width n) 0 = n := by
  rw [padded, Nat.ofDigitChars_append, Nat.ofDigitChars_replicate_zero, Nat.mul_zero,
    Nat.ofDigitChars_ten_toDigits]

theorem length_padded {width n : Nat} (h : n < 10 ^ width) (hWidth : 0 < width) :
    (padded width n).length = width := by
  have hDigits := (Nat.length_toDigits_le_iff (by decide) hWidth).mpr h
  rw [padded, List.length_append, List.length_replicate]
  omega

theorem length_padded_le {width bound n : Nat} (h : n < 10 ^ bound) (hWidth : width ≤ bound)
    (hBound : 0 < bound) : (padded width n).length ≤ bound := by
  have hDigits := (Nat.length_toDigits_le_iff (by decide) hBound).mpr h
  rw [padded, List.length_append, List.length_replicate]
  omega

theorem exists_padded_eq_cons (width n : Nat) :
    ∃ d ds, padded width n = d :: ds ∧ d.isDigit = true := by
  cases hDigits : padded width n with
  | nil => exact absurd (List.append_eq_nil_iff.mp hDigits).2 Nat.toDigits_ne_nil
  | cons d ds => exact ⟨d, ds, rfl, isDigit_padded (hDigits ▸ List.mem_cons_self)⟩

theorem takeWhile_padded (width n : Nat) {c : Char} (hc : c.isDigit = false) (rest : List Char) :
    (padded width n ++ c :: rest).takeWhile Char.isDigit = padded width n := by
  rw [List.takeWhile_append_of_pos fun _ => isDigit_padded, List.takeWhile_cons, hc]
  exact List.append_nil _

theorem dropWhile_padded (width n : Nat) {c : Char} (hc : c.isDigit = false) (rest : List Char) :
    (padded width n ++ c :: rest).dropWhile Char.isDigit = c :: rest := by
  rw [List.dropWhile_append_of_pos fun _ => isDigit_padded, List.dropWhile_cons, hc]
  rfl

/-- **A number is read back** up to the first character that is no digit. -/
theorem number_padded (width n : Nat) {c : Char} (hc : c.isDigit = false) (rest : List Char) :
    number (padded width n ++ c :: rest) = (n, c :: rest) := by
  rw [number, takeWhile_padded width n hc, dropWhile_padded width n hc, ofDigitChars_padded]

/-- A character that has to come next. -/
def expect (c : Char) : List Char → Option (List Char)
  | [] => none
  | d :: cs => if d = c then some cs else none

@[simp] theorem expect_cons (c : Char) (cs : List Char) : expect c (c :: cs) = some cs := if_pos rfl

/-! ## Years -/

/-- The year, from `width` 4 on; it is signed where RFC 3339 has no text for it. -/
def yearText (year : Int) : List Char :=
  if 0 ≤ year ∧ year ≤ 9999 then padded 4 year.toNat
  else if 0 ≤ year then '+' :: padded 4 year.toNat
  else '-' :: padded 4 (-year).toNat

def readYear : List Char → Int × List Char
  | '+' :: cs => ((number cs).1, (number cs).2)
  | '-' :: cs => (-(number cs).1, (number cs).2)
  | cs => ((number cs).1, (number cs).2)

theorem readYear_yearText (year : Int) {c : Char} (hc : c.isDigit = false) (rest : List Char) :
    readYear (yearText year ++ c :: rest) = (year, c :: rest) := by
  unfold yearText
  by_cases hShort : 0 ≤ year ∧ year ≤ 9999
  · have hNumber := number_padded 4 year.toNat hc rest
    obtain ⟨d, ds, hDigits, hDigit⟩ := exists_padded_eq_cons 4 year.toNat
    rw [hDigits] at hNumber
    have hUnsigned : readYear (d :: ds ++ c :: rest) =
        (((number (d :: ds ++ c :: rest)).1 : Int), (number (d :: ds ++ c :: rest)).2) := by
      rw [List.cons_append]
      unfold readYear
      split <;> first | rfl | exact absurd hDigit (by simp_all)
    rw [if_pos hShort, hDigits, hUnsigned, hNumber]
    exact Prod.ext (Int.toNat_of_nonneg hShort.1) rfl
  · rw [if_neg hShort]
    by_cases hLate : 0 ≤ year
    · rw [if_pos hLate, List.cons_append]
      show (((number (padded 4 year.toNat ++ c :: rest)).1 : Int), _) = _
      rw [number_padded _ _ hc]
      exact Prod.ext (Int.toNat_of_nonneg hLate) rfl
    · rw [if_neg hLate, List.cons_append]
      show (-((number (padded 4 (-year).toNat ++ c :: rest)).1 : Int), _) = _
      rw [number_padded _ _ hc]
      have hBack : -(((-year).toNat : Nat) : Int) = year := by omega
      exact Prod.ext hBack rfl

/-! ## Fractions of a second -/

/-- No fraction, or three, six or nine digits and the point before them. -/
def fractionText (nanos : Nat) : List Char :=
  if nanos = 0 then []
  else if nanos % 1000000 = 0 then '.' :: padded 3 (nanos / 1000000)
  else if nanos % 1000 = 0 then '.' :: padded 6 (nanos / 1000)
  else '.' :: padded 9 nanos

def readFraction : List Char → Nat × List Char
  | '.' :: cs =>
      ((number cs).1 * 10 ^ (9 - (cs.takeWhile Char.isDigit).length), (number cs).2)
  | cs => (0, cs)

theorem readFraction_point {width n : Nat} (h : n < 10 ^ width) (hWidth : 0 < width) {c : Char}
    (hc : c.isDigit = false) (rest : List Char) :
    readFraction ('.' :: padded width n ++ c :: rest) = (n * 10 ^ (9 - width), c :: rest) := by
  show ((number (padded width n ++ c :: rest)).1 * 10 ^ (9 - (List.takeWhile Char.isDigit
    (padded width n ++ c :: rest)).length), (number (padded width n ++ c :: rest)).2) = _
  rw [number_padded width n hc, takeWhile_padded width n hc, length_padded h hWidth]

theorem readFraction_fractionText {nanos : Nat} (h : nanos < 1000000000) (rest : List Char) :
    readFraction (fractionText nanos ++ 'Z' :: rest) = (nanos, 'Z' :: rest) := by
  have hZ : Char.isDigit 'Z' = false := rfl
  unfold fractionText
  by_cases hNone : nanos = 0
  · rw [if_pos hNone, hNone]
    rfl
  · rw [if_neg hNone]
    by_cases hMillis : nanos % 1000000 = 0
    · rw [if_pos hMillis, readFraction_point (by omega) (by decide) hZ]
      exact Prod.ext (Nat.div_mul_cancel (Nat.dvd_of_mod_eq_zero hMillis)) rfl
    · rw [if_neg hMillis]
      by_cases hMicros : nanos % 1000 = 0
      · rw [if_pos hMicros, readFraction_point (by omega) (by decide) hZ]
        exact Prod.ext (Nat.div_mul_cancel (Nat.dvd_of_mod_eq_zero hMicros)) rfl
      · rw [if_neg hMicros, readFraction_point (by omega) (by decide) hZ]
        exact Prod.ext (Nat.mul_one nanos) rfl

/-! ## Instants -/

/-- The day of an instant, counted as dates count them. -/
def dayOf (secs : Int) : Int := secs / 86400 + 719468

/-- The second of the day. -/
def secondOfDay (secs : Int) : Nat := (secs % 86400).toNat

/-- One second more inside a leap second. -/
def leap (t : DateTime) : Nat := if t.frac < 1000000000 then 0 else 1

/-- The text of an instant. -/
def textChars (t : DateTime) : List Char :=
  let date := CivilDate.ofDays (dayOf t.secs)
  let second := secondOfDay t.secs
  yearText date.year ++ '-' :: (padded 2 date.month ++ '-' :: (padded 2 date.day ++ 'T' ::
    (padded 2 (second / 3600) ++ ':' :: (padded 2 (second / 60 % 60) ++ ':' ::
      (padded 2 (second % 60 + leap t) ++ (fractionText (t.frac % 1000000000) ++ ['Z']))))))

/-- The whole seconds with these parts. -/
def secsOfParts (date : CivilDate.Date) (hour minute second : Nat) : Int :=
  (CivilDate.toDays date - 719468) * 86400 + (hour * 3600 + minute * 60 + second : Nat)

/-- The reading of some seconds and a fraction, if there is one. -/
def reading (secs : Int) (frac : Nat) : Option DateTime :=
  if h : -8334601228800 ≤ secs ∧ secs ≤ 8210266876799 ∧ frac < 2000000000 then
    some ⟨secs, frac, h.1, h.2.1, h.2.2⟩
  else none

theorem reading_eq (t : DateTime) : reading t.secs t.frac = some t :=
  dif_pos ⟨t.secs_ge, t.secs_le, t.frac_lt⟩

/-- The reading with these parts, if there is one.  The 60th second is inside a leap second. -/
def ofParts (date : CivilDate.Date) (hour minute second nanos : Nat) : Option DateTime :=
  if second = 60 then reading (secsOfParts date hour minute 59) (nanos + 1000000000)
  else reading (secsOfParts date hour minute second) nanos

/-- Reads the text of an instant. -/
def parseChars (cs : List Char) : Option DateTime := do
  let (year, cs) := readYear cs
  let (month, cs) := number (← expect '-' cs)
  let (day, cs) := number (← expect '-' cs)
  let (hour, cs) := number (← expect 'T' cs)
  let (minute, cs) := number (← expect ':' cs)
  let (second, cs) := number (← expect ':' cs)
  let (nanos, cs) := readFraction cs
  if cs = ['Z'] then ofParts ⟨year, month, day⟩ hour minute second nanos else none

/-- What follows the seconds is no digit. -/
theorem exists_fractionText_eq_cons (nanos : Nat) (rest : List Char) :
    ∃ c cs, fractionText nanos ++ 'Z' :: rest = c :: cs ∧ c.isDigit = false := by
  unfold fractionText
  split_ifs
  · exact ⟨'Z', rest, rfl, rfl⟩
  all_goals exact ⟨'.', _, rfl, rfl⟩

/-- **The parts are read back** one after the other. -/
theorem parseChars_textChars (t : DateTime) : parseChars (textChars t) =
    ofParts (CivilDate.ofDays (dayOf t.secs)) (secondOfDay t.secs / 3600)
      (secondOfDay t.secs / 60 % 60) (secondOfDay t.secs % 60 + leap t) (t.frac % 1000000000) := by
  have hDash : Char.isDigit '-' = false := rfl
  have hT : Char.isDigit 'T' = false := rfl
  have hColon : Char.isDigit ':' = false := rfl
  obtain ⟨c, cs, hRest, hc⟩ := exists_fractionText_eq_cons (t.frac % 1000000000) []
  have hFraction := readFraction_fractionText (Nat.mod_lt t.frac (by decide : 0 < 1000000000)) []
  rw [hRest] at hFraction
  simp only [parseChars, textChars, hRest, readYear_yearText _ hDash, expect_cons,
    number_padded _ _ hDash, number_padded _ _ hT, number_padded _ _ hColon, number_padded _ _ hc,
    hFraction, Option.bind_eq_bind, Option.bind_some, if_true]

/-- The seconds are the sum of their parts. -/
theorem secsOfParts_eq (secs : Int) : secsOfParts (CivilDate.ofDays (dayOf secs))
    (secondOfDay secs / 3600) (secondOfDay secs / 60 % 60) (secondOfDay secs % 60) = secs := by
  rw [secsOfParts, CivilDate.toDays_ofDays]
  unfold dayOf secondOfDay
  omega

theorem secondOfDay_mod (secs : Int) : secondOfDay secs % 60 = (secs % 60).toNat := by
  unfold secondOfDay
  omega

theorem secsOfParts_succ (date : CivilDate.Date) (hour minute second : Nat) :
    secsOfParts date hour minute (second + 1) = secsOfParts date hour minute second + 1 := by
  unfold secsOfParts
  omega

/-- **The text of an instant is read back to `readBack`.** -/
theorem parseChars_text (t : DateTime) : parseChars (textChars t) = some t.readBack := by
  have hSecond := secondOfDay_mod t.secs
  have hSecs := secsOfParts_eq t.secs
  have hLt := t.frac_lt
  rw [parseChars_textChars, ofParts]
  by_cases hNonLeap : t.frac < 1000000000
  · have hNotLast : ¬ secondOfDay t.secs % 60 + leap t = 60 := by
      rw [leap, if_pos hNonLeap]
      omega
    rw [if_neg hNotLast, leap, if_pos hNonLeap, Nat.add_zero, hSecs, Nat.mod_eq_of_lt hNonLeap,
      reading_eq, DateTime.readBack_of_unambiguous (Or.inl hNonLeap)]
  · have hFrac : t.frac % 1000000000 = t.frac - 1000000000 := by omega
    rw [leap, if_neg hNonLeap, hFrac]
    by_cases hEnds : t.secs % 60 = 59
    · have hLast : secondOfDay t.secs % 60 = 59 := by omega
      have hBack : t.frac - 1000000000 + 1000000000 = t.frac := by omega
      rw [hLast] at hSecs
      rw [hLast, if_pos rfl, hSecs, hBack, reading_eq,
        DateTime.readBack_of_unambiguous (Or.inr hEnds)]
    · have hNotLast : ¬ secondOfDay t.secs % 60 + 1 = 60 := by omega
      have hAmbiguous : ¬ t.Unambiguous := by
        unfold DateTime.Unambiguous
        omega
      rw [if_neg hNotLast, secsOfParts_succ, hSecs, DateTime.readBack, dif_neg hAmbiguous]
      exact reading_eq ⟨t.secs + 1, t.frac - 1000000000, _, _, _⟩

/-- **What is read back has the same text.** -/
theorem textChars_readBack (t : DateTime) : textChars t.readBack = textChars t := by
  by_cases h : t.Unambiguous
  · rw [DateTime.readBack_of_unambiguous h]
  · have hLt := t.frac_lt
    rw [DateTime.readBack, dif_neg h]
    unfold DateTime.Unambiguous at h
    have hDay : dayOf (t.secs + 1) = dayOf t.secs := by
      unfold dayOf
      omega
    have hHour : secondOfDay (t.secs + 1) / 3600 = secondOfDay t.secs / 3600 := by
      unfold secondOfDay
      omega
    have hMinute : secondOfDay (t.secs + 1) / 60 % 60 = secondOfDay t.secs / 60 % 60 := by
      unfold secondOfDay
      omega
    have hSecond : secondOfDay (t.secs + 1) % 60 = secondOfDay t.secs % 60 + 1 := by
      unfold secondOfDay
      omega
    have hNanos : (t.frac - 1000000000) % 1000000000 = t.frac % 1000000000 := by omega
    have hBefore : t.frac - 1000000000 < 1000000000 := by omega
    have hInside : ¬ t.frac < 1000000000 := by omega
    simp only [textChars, leap, hDay, hHour, hMinute, hSecond, hNanos, if_pos hBefore,
      if_neg hInside, Nat.add_zero]

/-- Half a second into the leap second that ended 2016. -/
example : textChars ⟨1483228799, 1500000000, by decide, by decide, by decide⟩ =
    "2016-12-31T23:59:60.500Z".toList := by decide

/-! ## Texts -/

theorem length_yearText_le {year : Int} (h : -(10 ^ 18) < year ∧ year < 10 ^ 18) :
    (yearText year).length ≤ 20 := by
  have hBound {n : Nat} (hn : n < 10 ^ 18) : (padded 4 n).length ≤ 18 :=
    length_padded_le hn (by decide) (by decide)
  have hPos := @hBound year.toNat (by omega)
  have hNeg := @hBound (-year).toNat (by omega)
  unfold yearText
  split_ifs
  · omega
  · rw [List.length_cons]
    omega
  · rw [List.length_cons]
    omega

theorem length_fractionText_le {nanos : Nat} (h : nanos < 1000000000) :
    (fractionText nanos).length ≤ 10 := by
  have hBound {width n : Nat} (hn : n < 10 ^ 9) (hWidth : width ≤ 9) :
      (padded width n).length ≤ 9 := length_padded_le hn hWidth (by decide)
  unfold fractionText
  split_ifs
  · exact Nat.zero_le _
  all_goals
    rw [List.length_cons]
    exact Nat.succ_le_succ (hBound (by omega) (by decide))

theorem length_textChars_le (t : DateTime) : (textChars t).length ≤ 100 := by
  obtain ⟨hYear, hYear', hMonth, hDay⟩ := CivilDate.ofDays_bounds (dayOf t.secs)
  have hSecs := t.secs_ge
  have hSecs' := t.secs_le
  have hBound {n : Nat} (hn : n < 10 ^ 5) : (padded 2 n).length ≤ 5 :=
    length_padded_le hn (by decide) (by decide)
  have hSecondOfDay : secondOfDay t.secs < 86400 := by
    unfold secondOfDay
    omega
  have hLeap : leap t ≤ 1 := by
    unfold leap
    split_ifs <;> omega
  have hDays : -(10 ^ 15) < dayOf t.secs ∧ dayOf t.secs < 10 ^ 15 := by
    unfold dayOf
    omega
  have hYears := @length_yearText_le (CivilDate.ofDays (dayOf t.secs)).year (by omega)
  have hMonths := @hBound (CivilDate.ofDays (dayOf t.secs)).month (by omega)
  have hDaysOfMonth := @hBound (CivilDate.ofDays (dayOf t.secs)).day (by omega)
  have hHours := @hBound (secondOfDay t.secs / 3600) (by omega)
  have hMinutes := @hBound (secondOfDay t.secs / 60 % 60) (by omega)
  have hSeconds := @hBound (secondOfDay t.secs % 60 + leap t) (by omega)
  have hFraction := length_fractionText_le (Nat.mod_lt t.frac (by decide : 0 < 1000000000))
  simp only [textChars, List.length_append, List.length_cons, List.length_nil]
  omega

/-- The text of an instant. -/
def text (t : DateTime) : RustString :=
  RustString.ofChars (textChars t)
    (Nat.lt_of_le_of_lt (Nat.mul_le_mul_left 4 (length_textChars_le t)) (by decide))

/-- Reads the text of an instant. -/
def parse (s : RustString) : Option DateTime := parseChars s.text.toList

theorem parse_text (t : DateTime) : parse (text t) = some t.readBack := by
  rw [parse, text, RustString.ofChars, String.toList_ofList, parseChars_text]

theorem text_readBack (t : DateTime) : text t.readBack = text t := by
  apply RustString.ext
  exact congrArg String.ofList (textChars_readBack t)

/-- A text starts with a sign or a digit. -/
theorem exists_text_eq_cons (t : DateTime) :
    ∃ c cs, (text t).text.toList = c :: cs ∧ c ≠ '@' := by
  have hChars : (text t).text.toList = textChars t := String.toList_ofList
  have hYear : ∃ c cs, yearText (CivilDate.ofDays (dayOf t.secs)).year = c :: cs ∧ c ≠ '@' := by
    unfold yearText
    split_ifs
    · obtain ⟨d, ds, hDigits, hDigit⟩ := exists_padded_eq_cons 4
        (CivilDate.ofDays (dayOf t.secs)).year.toNat
      refine ⟨d, ds, hDigits, ?_⟩
      rintro rfl
      cases hDigit
    · exact ⟨'+', _, rfl, by decide⟩
    · exact ⟨'-', _, rfl, by decide⟩
  obtain ⟨c, cs, hCons, hc⟩ := hYear
  simp only [textChars, hCons, List.cons_append] at hChars
  exact ⟨c, _, hChars, hc⟩

end LedgerFS.Core.Rfc3339
