import Mathlib.Tactic.Ring
import Mathlib.Order.Compare

/-!
# Fixed-width integers as byte strings

A `w`-byte number is written most significant byte first (`toBE`) or least
significant byte first (`toLE`).  Little-endian words are what a binary wire
format reads back (`ofLE_toLE`); big-endian words are what an ordered byte
store sorts by, since byte strings compare as the numbers they spell
(`compare_toBE`).

Byte strings are compared the way a bytewise comparator does it: `compare` on
`List UInt8` is lexicographic, and a proper prefix comes first.  Of two
concatenations the equally long heads decide first (`compare_append`).
-/

namespace LedgerFS.Library.ByteOrder

/-- The `w` low-order bytes of `n`, least significant first. -/
def toLE : Nat → Nat → List UInt8
  | 0, _ => []
  | w + 1, n => UInt8.ofNat n :: toLE w (n / 256)

/-- The number a least-significant-first byte string spells. -/
def ofLE : List UInt8 → Nat
  | [] => 0
  | b :: bs => b.toNat + 256 * ofLE bs

/-- The `w` low-order bytes of `n`, most significant first. -/
def toBE : Nat → Nat → List UInt8
  | 0, _ => []
  | w + 1, n => UInt8.ofNat (n / 256 ^ w) :: toBE w n

@[simp] theorem length_toLE (w n : Nat) : (toLE w n).length = w := by
  induction w generalizing n with
  | zero => rfl
  | succ w ih => simp [toLE, ih]

@[simp] theorem length_toBE (w n : Nat) : (toBE w n).length = w := by
  induction w with
  | zero => rfl
  | succ w ih => simp [toBE, ih]

/-- **Little-endian round trip**: a number that fits its width is read back. -/
theorem ofLE_toLE (w n : Nat) (h : n < 256 ^ w) : ofLE (toLE w n) = n := by
  induction w generalizing n with
  | zero =>
      have : n = 0 := by simpa using h
      simp [toLE, ofLE, this]
  | succ w ih =>
      have hTail : n / 256 < 256 ^ w := by
        rw [Nat.div_lt_iff_lt_mul (by decide)]
        simpa [Nat.pow_succ] using h
      simp only [toLE, ofLE, ih _ hTail, UInt8.toNat_ofNat']
      exact Nat.mod_add_div n 256

/-! ## Order -/

/-- Big-endian bytes only see the low `w` bytes of the number. -/
theorem toBE_mod (w k n : Nat) : toBE w (n % (256 ^ w * k)) = toBE w n := by
  induction w generalizing k with
  | zero => rfl
  | succ w ih =>
      have hByte : UInt8.ofNat (n % (256 ^ (w + 1) * k) / 256 ^ w) =
          UInt8.ofNat (n / 256 ^ w) := by
        apply UInt8.toNat_inj.mp
        simp only [UInt8.toNat_ofNat']
        rw [Nat.pow_succ, Nat.mul_assoc, Nat.mod_mul_right_div_self,
          Nat.mod_mul_right_mod]
      have hTail : toBE w (n % (256 ^ (w + 1) * k)) = toBE w n := by
        rw [Nat.pow_succ, Nat.mul_assoc]
        exact ih (256 * k)
      simp only [toBE, hByte, hTail]

/-- Comparing two numbers is comparing their leading digit and, when it ties,
what is left below it. -/
private theorem compare_div_mod (B m n : Nat) (hB : 0 < B) :
    compare m n = (compare (m / B) (n / B)).then (compare (m % B) (n % B)) := by
  have hm := Nat.div_add_mod m B
  have hn := Nat.div_add_mod n B
  have hmLt := Nat.mod_lt m hB
  have hnLt := Nat.mod_lt n hB
  rcases Nat.lt_trichotomy (m / B) (n / B) with hlt | heq | hgt
  · have hStep : B * (m / B + 1) ≤ B * (n / B) := Nat.mul_le_mul_left B hlt
    have hmn : m < n := by rw [Nat.mul_add] at hStep; omega
    rw [Nat.compare_eq_lt.mpr hmn, Nat.compare_eq_lt.mpr hlt]
    rfl
  · rw [Nat.compare_eq_eq.mpr heq, Ordering.then]
    rw [heq] at hm
    rcases Nat.lt_trichotomy (m % B) (n % B) with h | h | h
    · rw [Nat.compare_eq_lt.mpr h, Nat.compare_eq_lt.mpr (by omega)]
    · rw [Nat.compare_eq_eq.mpr h, Nat.compare_eq_eq.mpr (by omega)]
    · rw [Nat.compare_eq_gt.mpr h, Nat.compare_eq_gt.mpr (by omega)]
  · have hStep : B * (n / B + 1) ≤ B * (m / B) := Nat.mul_le_mul_left B hgt
    have hnm : n < m := by rw [Nat.mul_add] at hStep; omega
    rw [Nat.compare_eq_gt.mpr hnm, Nat.compare_eq_gt.mpr hgt]
    rfl

private theorem compare_ofNat (x y : Nat) (hx : x < 256) (hy : y < 256) :
    compare (UInt8.ofNat x) (UInt8.ofNat y) = compare x y := by
  have hxv : (UInt8.ofNat x).toNat = x := by
    simpa using Nat.mod_eq_of_lt hx
  have hyv : (UInt8.ofNat y).toNat = y := by
    simpa using Nat.mod_eq_of_lt hy
  simp only [compare, compareOfLessAndEq, UInt8.lt_iff_toNat_lt,
    ← UInt8.toNat_inj, hxv, hyv]

/-- **Big-endian order**: byte strings of one width compare as the numbers
they spell. -/
theorem compare_toBE (w m n : Nat) (hm : m < 256 ^ w) (hn : n < 256 ^ w) :
    compare (toBE w m) (toBE w n) = compare m n := by
  induction w generalizing m n with
  | zero =>
      have hm0 : m = 0 := by simpa using hm
      have hn0 : n = 0 := by simpa using hn
      simp [hm0, hn0]
  | succ w ih =>
      have hPos : 0 < 256 ^ w := Nat.pow_pos (by decide)
      have hmTop : m / 256 ^ w < 256 := by
        rw [Nat.div_lt_iff_lt_mul hPos]; rw [Nat.pow_succ] at hm; omega
      have hnTop : n / 256 ^ w < 256 := by
        rw [Nat.div_lt_iff_lt_mul hPos]; rw [Nat.pow_succ] at hn; omega
      have hmTail : toBE w m = toBE w (m % 256 ^ w) := by
        simpa using (toBE_mod w 1 m).symm
      have hnTail : toBE w n = toBE w (n % 256 ^ w) := by
        simpa using (toBE_mod w 1 n).symm
      rw [compare_div_mod (256 ^ w) m n hPos, toBE, toBE, hmTail, hnTail,
        List.compare_eq_compareLex, List.compareLex_cons_cons,
        ← List.compare_eq_compareLex,
        ih _ _ (Nat.mod_lt _ hPos) (Nat.mod_lt _ hPos),
        compare_ofNat _ _ hmTop hnTop]

/-- Equally long heads decide first, the tails only on a tie. -/
theorem compare_append (a b x y : List UInt8) (h : a.length = b.length) :
    compare (a ++ x) (b ++ y) = (compare a b).then (compare x y) := by
  induction a generalizing b with
  | nil =>
      have hb : b = [] := List.eq_nil_of_length_eq_zero h.symm
      simp [hb]
  | cons p a ih =>
      cases b with
      | nil => simp at h
      | cons q b =>
          have hLen : a.length = b.length := by simpa using h
          simp only [List.cons_append]
          rw [List.compare_eq_compareLex, List.compareLex_cons_cons,
            List.compareLex_cons_cons, ← List.compare_eq_compareLex, ih b hLen,
            Ordering.then_assoc]

end LedgerFS.Library.ByteOrder
