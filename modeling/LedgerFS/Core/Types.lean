import LedgerFS.Core.Collections
import LedgerFS.Core.Time
import LedgerFS.Library.ByteOrder

/-!
# Identifiers and value types (`types.rs`)

The identifiers wrap a 16-byte `Uuid`, whose text is the lower-case
hyphenated form.  The remaining types are the ones events are made of.  Of
those that no event carries, `Account` and `Balance` are declared beside the
filesystem, which reads them, and the Merkle nodes are not modelled.
-/

namespace LedgerFS.Core

open LedgerFS.Library.ByteOrder

/-- `uuid::Uuid`: sixteen bytes. -/
structure Uuid where
  bytes : List UInt8
  size : bytes.length = 16
deriving DecidableEq

namespace Uuid

@[ext] theorem ext {u v : Uuid} (h : u.bytes = v.bytes) : u = v := by
  cases u
  cases v
  simp_all

/-- `Uuid::from_u128`: the big-endian bytes of the number. -/
def fromU128 (n : Nat) : Uuid := ⟨toBE 16 n, length_toBE 16 n⟩

theorem fromU128_inj {m n : Nat} (hm : m < 2 ^ 128) (hn : n < 2 ^ 128)
    (h : fromU128 m = fromU128 n) : m = n := by
  have hBytes : toBE 16 m = toBE 16 n := congrArg bytes h
  have hCompare := compare_toBE 16 m n (by omega) (by omega)
  have hSelf : compare (toBE 16 n) (toBE 16 n) = .eq := Std.ReflCmp.compare_self
  rw [hBytes, hSelf] at hCompare
  exact Nat.compare_eq_eq.mp hCompare.symm

/-- Two lower-case hexadecimal digits. -/
def hexByte (b : UInt8) : List Char :=
  [Nat.digitChar (b.toNat / 16), Nat.digitChar (b.toNat % 16)]

def hex (bs : List UInt8) : List Char := bs.flatMap hexByte

/-- The hyphenated form: groups of 4, 2, 2, 2 and 6 bytes. -/
def hyphenated (u : Uuid) : List Char :=
  hex (u.bytes.take 4) ++ '-' ::
    (hex ((u.bytes.drop 4).take 2) ++ '-' ::
      (hex ((u.bytes.drop 6).take 2) ++ '-' ::
        (hex ((u.bytes.drop 8).take 2) ++ '-' :: hex (u.bytes.drop 10))))

private theorem digitChar_injective_of_lt (m n : Nat) (hm : m < 16) (hn : n < 16)
    (h : Nat.digitChar m = Nat.digitChar n) : m = n := by
  have hAll : ∀ i j : Fin 16, Nat.digitChar i = Nat.digitChar j → i = j := by
    decide
  exact congrArg Fin.val (hAll ⟨m, hm⟩ ⟨n, hn⟩ h)

theorem hexByte_injective : Function.Injective hexByte := by
  intro a b h
  simp only [hexByte, List.cons.injEq, and_true] at h
  have ha := a.toNat_lt
  have hb := b.toNat_lt
  have hHigh := digitChar_injective_of_lt _ _ (by omega) (by omega) h.1
  have hLow := digitChar_injective_of_lt _ _ (by omega) (by omega) h.2
  apply UInt8.toNat_inj.mp
  omega

@[simp] theorem length_hex (bs : List UInt8) : (hex bs).length = 2 * bs.length := by
  induction bs with
  | nil => rfl
  | cons b bs ih =>
      simp only [hex, List.flatMap_cons, List.length_append, List.length_cons] at ih ⊢
      simp only [ih, hexByte, List.length_cons, List.length_nil]
      omega

theorem hex_injective : Function.Injective hex := by
  intro as
  induction as with
  | nil =>
      intro bs h
      have hLen := congrArg List.length h
      simp only [length_hex, List.length_nil] at hLen
      exact (List.eq_nil_of_length_eq_zero (by omega)).symm
  | cons a as ih =>
      intro bs h
      cases bs with
      | nil =>
          have hLen := congrArg List.length h
          simp at hLen
      | cons b bs =>
          have hSplit : hexByte a ++ hex as = hexByte b ++ hex bs := h
          obtain ⟨hHead, hTail⟩ := List.append_inj hSplit rfl
          rw [hexByte_injective hHead, ih hTail]

@[simp] theorem length_hyphenated (u : Uuid) : u.hyphenated.length = 36 := by
  simp [hyphenated, u.size]

/-- `to_string`. -/
def toText (u : Uuid) : RustString :=
  RustString.ofChars u.hyphenated (by rw [length_hyphenated]; decide)

/-- The groups are all the bytes. -/
theorem bytes_eq_groups (u : Uuid) : u.bytes = u.bytes.take 4 ++ ((u.bytes.drop 4).take 2 ++
    ((u.bytes.drop 6).take 2 ++ ((u.bytes.drop 8).take 2 ++ u.bytes.drop 10))) := by
  conv_lhs => rw [← List.take_append_drop 4 u.bytes,
    ← List.take_append_drop 2 (u.bytes.drop 4),
    ← List.take_append_drop 2 ((u.bytes.drop 4).drop 2),
    ← List.take_append_drop 2 (((u.bytes.drop 4).drop 2).drop 2)]
  simp only [List.drop_drop]

/-- **The hyphenated form names one identifier.** -/
theorem hyphenated_injective : Function.Injective hyphenated := by
  intro u v h
  have hu := u.size
  have hv := v.size
  unfold hyphenated at h
  obtain ⟨h₁, h⟩ := List.append_inj h (by simp [hu, hv])
  obtain ⟨h₂, h⟩ := List.append_inj (List.cons.inj h).2 (by simp [hu, hv])
  obtain ⟨h₃, h⟩ := List.append_inj (List.cons.inj h).2 (by simp [hu, hv])
  obtain ⟨h₄, h⟩ := List.append_inj (List.cons.inj h).2 (by simp [hu, hv])
  have h₅ := (List.cons.inj h).2
  apply Uuid.ext
  rw [u.bytes_eq_groups, v.bytes_eq_groups, hex_injective h₁, hex_injective h₂, hex_injective h₃,
    hex_injective h₄, hex_injective h₅]

end Uuid

/-- Unique identifier for an account. -/
structure AccountId where
  uuid : Uuid
deriving DecidableEq

/-- Unique identifier for a transaction. -/
structure TransactionId where
  uuid : Uuid
deriving DecidableEq

/-- Unique identifier for an event. -/
structure EventId where
  uuid : Uuid
deriving DecidableEq

/-- Monetary amount in the smallest currency unit. -/
structure Amount where
  value : Int64
deriving DecidableEq

/-- The errors of `Amount`'s arithmetic. -/
inductive LedgerError
  | amountOverflow
  | amountUnderflow
deriving DecidableEq

namespace Amount

/-- `checked_add`. -/
def add (a b : Amount) : Except LedgerError Amount :=
  match checkedI64 (a.value.toInt + b.value.toInt) with
  | some value => .ok ⟨Int64.ofInt value⟩
  | none => .error .amountOverflow

/-- `checked_sub`. -/
def subtract (a b : Amount) : Except LedgerError Amount :=
  match checkedI64 (a.value.toInt - b.value.toInt) with
  | some value => .ok ⟨Int64.ofInt value⟩
  | none => .error .amountUnderflow

/-- `from_major_units`: a plain multiplication.  Where the product overflows, a build with
overflow checks panics (`none`), and any other build wraps. -/
def fromMajorUnits (overflowChecks : Bool) (major minorUnitsPerMajor : Int64) : Option Amount :=
  if overflowChecks ∧ ¬ InI64 (major.toInt * minorUnitsPerMajor.toInt) then none
  else some ⟨major * minorUnitsPerMajor⟩

private theorem toInt_ofInt_of_inI64 {n : Int} (h : InI64 n) : (Int64.ofInt n).toInt = n :=
  Int64.toInt_ofInt_of_le h.1 h.2

/-- **Addition is exact or fails.** -/
theorem add_cases (a b : Amount) :
    (InI64 (a.value.toInt + b.value.toInt) ∧
        ∃ c, a.add b = .ok c ∧ c.value.toInt = a.value.toInt + b.value.toInt) ∨
      (¬ InI64 (a.value.toInt + b.value.toInt) ∧ a.add b = .error .amountOverflow) := by
  unfold add checkedI64
  by_cases hIn : InI64 (a.value.toInt + b.value.toInt)
  · rw [if_pos hIn]
    exact Or.inl ⟨hIn, _, rfl, toInt_ofInt_of_inI64 hIn⟩
  · rw [if_neg hIn]
    exact Or.inr ⟨hIn, rfl⟩

/-- **Subtraction is exact or fails.** -/
theorem subtract_cases (a b : Amount) :
    (InI64 (a.value.toInt - b.value.toInt) ∧
        ∃ c, a.subtract b = .ok c ∧ c.value.toInt = a.value.toInt - b.value.toInt) ∨
      (¬ InI64 (a.value.toInt - b.value.toInt) ∧ a.subtract b = .error .amountUnderflow) := by
  unfold subtract checkedI64
  by_cases hIn : InI64 (a.value.toInt - b.value.toInt)
  · rw [if_pos hIn]
    exact Or.inl ⟨hIn, _, rfl, toInt_ofInt_of_inI64 hIn⟩
  · rw [if_neg hIn]
    exact Or.inr ⟨hIn, rfl⟩

end Amount

/-- Currency code. -/
structure Currency where
  code : RustString
deriving DecidableEq

def Currency.usd : Currency := ⟨⟨"USD", by decide⟩⟩

inductive AccountStatus
  | active
  | suspended
  | closed
deriving DecidableEq

inductive AccountType
  | customer
  | operational
  | safeguarding
  | nostro
  | vostro
deriving DecidableEq

inductive TransactionType
  | debit
  | credit
  | transfer
deriving DecidableEq

/-- `HashMap<String, String>`. -/
abbrev Tags : Type := HashMap RustString RustString

structure AccountMetadata where
  accountType : AccountType
  currency : Currency
  tags : Tags
  regulatoryFlags : RustVec RustString
deriving DecidableEq

structure TransactionMetadata where
  reference : Option RustString
  description : Option RustString
  tags : Tags
  regulatoryFlags : RustVec RustString
deriving DecidableEq

/-- Ledger digest for external verification. -/
structure LedgerDigest where
  rootHash : RustString
  blockHeight : UInt64
  timestamp : DateTime
  transactionCount : UInt64
deriving DecidableEq

namespace AccountMetadata

/-- The derived `==`. -/
def PartialEq (m n : AccountMetadata) : Prop :=
  m.accountType = n.accountType ∧ m.currency = n.currency ∧
    m.tags.PartialEq n.tags ∧ m.regulatoryFlags = n.regulatoryFlags

instance (m n : AccountMetadata) : Decidable (m.PartialEq n) :=
  inferInstanceAs (Decidable (_ ∧ _))

def rehash (rs : HashMap.RandomState RustString RustString)
    (m : AccountMetadata) : AccountMetadata :=
  { m with tags := m.tags.rehash rs }

theorem rehash_partialEq (rs : HashMap.RandomState RustString RustString)
    (m : AccountMetadata) : (m.rehash rs).PartialEq m :=
  ⟨rfl, rfl, m.tags.rehash_partialEq rs, rfl⟩

theorem PartialEq.symm {m n : AccountMetadata} (h : m.PartialEq n) : n.PartialEq m :=
  ⟨h.1.symm, h.2.1.symm, HashMap.PartialEq.symm h.2.2.1, h.2.2.2.symm⟩

theorem PartialEq.trans {l m n : AccountMetadata} (h : l.PartialEq m) (h' : m.PartialEq n) :
    l.PartialEq n :=
  ⟨h.1.trans h'.1, h.2.1.trans h'.2.1, HashMap.PartialEq.trans h.2.2.1 h'.2.2.1,
    h.2.2.2.trans h'.2.2.2⟩

end AccountMetadata

namespace TransactionMetadata

/-- The derived `==`. -/
def PartialEq (m n : TransactionMetadata) : Prop :=
  m.reference = n.reference ∧ m.description = n.description ∧
    m.tags.PartialEq n.tags ∧ m.regulatoryFlags = n.regulatoryFlags

instance (m n : TransactionMetadata) : Decidable (m.PartialEq n) :=
  inferInstanceAs (Decidable (_ ∧ _))

def rehash (rs : HashMap.RandomState RustString RustString)
    (m : TransactionMetadata) : TransactionMetadata :=
  { m with tags := m.tags.rehash rs }

theorem rehash_partialEq (rs : HashMap.RandomState RustString RustString)
    (m : TransactionMetadata) : (m.rehash rs).PartialEq m :=
  ⟨rfl, rfl, m.tags.rehash_partialEq rs, rfl⟩

theorem PartialEq.symm {m n : TransactionMetadata} (h : m.PartialEq n) : n.PartialEq m :=
  ⟨h.1.symm, h.2.1.symm, HashMap.PartialEq.symm h.2.2.1, h.2.2.2.symm⟩

theorem PartialEq.trans {l m n : TransactionMetadata} (h : l.PartialEq m) (h' : m.PartialEq n) :
    l.PartialEq n :=
  ⟨h.1.trans h'.1, h.2.1.trans h'.2.1, HashMap.PartialEq.trans h.2.2.1 h'.2.2.1,
    h.2.2.2.trans h'.2.2.2⟩

end TransactionMetadata

end LedgerFS.Core
