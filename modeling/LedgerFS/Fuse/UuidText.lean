import LedgerFS.Fuse.Filesystem

/-!
# Texts of an identifier

`Uuid::parse_str` takes more texts than `to_string` makes: digits of either case, with
the hyphens or without, and the hyphenated text in braces or as a URN.  `Uuid.parseStr` is
such a parser, and gives back what was printed (`parseStr_toText`).
-/

namespace LedgerFS.Core

namespace Uuid

/-- The value of a hexadecimal digit of either case. -/
def hexValue (c : Char) : Option Nat :=
  ("0123456789abcdef".toList.idxOf? c).or ("0123456789ABCDEF".toList.idxOf? c)

/-- Two digits for each byte. -/
def parseHex : List Char → Option (List UInt8)
  | [] => some []
  | [_] => none
  | high :: low :: rest =>
      match hexValue high, hexValue low, parseHex rest with
      | some h, some l, some bytes => some (UInt8.ofNat (16 * h + l) :: bytes)
      | _, _, _ => none

/-- Thirty-two digits. -/
def parseSimple (digits : List Char) : Option Uuid :=
  match parseHex digits with
  | none => none
  | some bytes => if h : bytes.length = 16 then some ⟨bytes, h⟩ else none

/-- The digits, when the hyphens are where they belong. -/
def parseHyphenated (cs : List Char) : Option Uuid :=
  if cs[8]? = some '-' ∧ cs[13]? = some '-' ∧ cs[18]? = some '-' ∧ cs[23]? = some '-' then
    parseSimple (cs.take 8 ++ ((cs.drop 9).take 4 ++ ((cs.drop 14).take 4 ++
      ((cs.drop 19).take 4 ++ cs.drop 24))))
  else none

/-- The form of a text is told by its length. -/
def parseStr (text : String) : Option Uuid :=
  let cs := text.toList
  if cs.length = 32 then parseSimple cs
  else if cs.length = 36 then parseHyphenated cs
  else if cs.length = 38 ∧ cs.head? = some '{' ∧ cs.getLast? = some '}' then
    parseHyphenated (cs.drop 1).dropLast
  else if cs.length = 45 ∧ "urn:uuid:".toList.isPrefixOf cs then parseHyphenated (cs.drop 9)
  else none

/-! ## Parsing what was printed -/

theorem hexValue_digitChar {n : Nat} (hn : n < 16) : hexValue (Nat.digitChar n) = some n := by
  have hAll : ∀ i : Fin 16, hexValue (Nat.digitChar i) = some i.val := by decide
  exact hAll ⟨n, hn⟩

theorem parseHex_hex (bytes : List UInt8) : parseHex (hex bytes) = some bytes := by
  induction bytes with
  | nil => rfl
  | cons b bytes ih =>
      have hb := b.toNat_lt
      have hHigh := hexValue_digitChar (show b.toNat / 16 < 16 by omega)
      have hLow := hexValue_digitChar (show b.toNat % 16 < 16 by omega)
      have hBack : 16 * (b.toNat / 16) + b.toNat % 16 = b.toNat := by omega
      show parseHex (Nat.digitChar (b.toNat / 16) :: Nat.digitChar (b.toNat % 16) :: hex bytes) = _
      simp only [parseHex, hHigh, hLow, ih, hBack, UInt8.ofNat_toNat]

theorem hex_append (as bs : List UInt8) : hex (as ++ bs) = hex as ++ hex bs := List.flatMap_append

/-- The hyphens are dropped. -/
theorem parseHyphenated_groups {a b c d : List Char} (ha : a.length = 8) (hb : b.length = 4)
    (hc : c.length = 4) (hd : d.length = 4) (e : List Char) :
    parseHyphenated (a ++ '-' :: (b ++ '-' :: (c ++ '-' :: (d ++ '-' :: e)))) =
      parseSimple (a ++ (b ++ (c ++ (d ++ e)))) := by
  unfold parseHyphenated
  rw [if_pos]
  · simp [List.drop_append, ha, hb, hc, hd, List.drop_eq_nil_of_le]
  · simp [List.getElem?_append_right, ha, hb, hc, hd]

theorem parseHyphenated_hyphenated (u : Uuid) : parseHyphenated u.hyphenated = some u := by
  have hSize := u.size
  rw [hyphenated, parseHyphenated_groups (by simp [hSize]) (by simp [hSize]) (by simp [hSize])
    (by simp [hSize])]
  rw [← hex_append, ← hex_append, ← hex_append, ← hex_append, ← u.bytes_eq_groups, parseSimple,
    parseHex_hex]
  exact dif_pos hSize

/-- **What was printed is parsed.** -/
theorem parseStr_toText (u : Uuid) : parseStr u.toText.text = some u := by
  have hChars : u.toText.text.toList = u.hyphenated := String.toList_ofList
  have hLength : u.hyphenated.length = 36 := u.length_hyphenated
  unfold parseStr
  rw [hChars]
  simp only [hLength, Nat.reduceEqDiff, if_false, if_true]
  exact u.parseHyphenated_hyphenated

end Uuid

end LedgerFS.Core

namespace LedgerFS.Fuse

open LedgerFS.Core

/-- A set of crates that parses every spelling. -/
def FuseCrates.standard : FuseCrates where
  toCrates := Crates.sample
  parseStr := Uuid.parseStr

theorem FuseCrates.standard_parses (u : Uuid) :
    FuseCrates.standard.parseStr u.toText.text = some u := by
  have hParser : FuseCrates.standard.parseStr = Uuid.parseStr := rfl
  rw [hParser]
  exact u.parseStr_toText

end LedgerFS.Fuse
