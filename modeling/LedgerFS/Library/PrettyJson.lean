import Mathlib.Data.List.Sort
import Mathlib.Data.String.Basic
import LedgerFS.Library.CompactJson

/-!
# Pretty JSON

The rendering of `serde_json::to_string_pretty`: one element or field a line,
indented by two spaces a level, an empty array or object closed at once.

A `serde_json::Value` keeps the fields of an object in a `BTreeMap`, in the
order of their names.  `toValue` puts the fields of every object of a value in
that order; names are compared by their characters, which for UTF-8 is the
order of their bytes.
-/

namespace LedgerFS.Library.PrettyJson

open LedgerFS.Library.CompactJson

/-! ## Values with sorted fields -/

mutual

/-- The same value with the fields of every object in the order of their
names. -/
def toValue : Json → Json
  | .null => .null
  | .num n => .num n
  | .str s => .str s
  | .arr xs => .arr (toValues xs)
  | .obj fields => .obj ((toFields fields).mergeSort fun f g => decide (f.1 ≤ g.1))

def toValues : List Json → List Json
  | [] => []
  | x :: xs => toValue x :: toValues xs

def toFields : List (String × Json) → List (String × Json)
  | [] => []
  | (k, x) :: fields => (k, toValue x) :: toFields fields

end

/-! ## Rendering -/

/-- A new line at an indentation level. -/
def newLine (level : Nat) : List Char := '\n' :: List.replicate (2 * level) ' '

mutual

/-- The pretty rendering of a value that starts at an indentation level. -/
def pretty (level : Nat) : Json → List Char
  | .null => ['n', 'u', 'l', 'l']
  | .num n => renderInt n
  | .str s => quote s
  | .arr xs => '[' :: prettyElems level true xs
  | .obj fields => openBrace :: prettyFields level true fields

/-- The elements still to be written and the closing bracket. -/
def prettyElems (level : Nat) (first : Bool) : List Json → List Char
  | [] => (if first then [] else newLine level) ++ [']']
  | x :: xs =>
      (if first then [] else [',']) ++ (newLine (level + 1) ++
        (pretty (level + 1) x ++ prettyElems level false xs))

/-- The fields still to be written and the closing brace. -/
def prettyFields (level : Nat) (first : Bool) : List (String × Json) → List Char
  | [] => (if first then [] else newLine level) ++ [closeBrace]
  | (k, x) :: fields =>
      (if first then [] else [',']) ++ (newLine (level + 1) ++
        (quote k ++ ':' :: ' ' :: (pretty (level + 1) x ++ prettyFields level false fields)))

end

/-- `serde_json::to_string_pretty` of a `Value`. -/
def toStringPretty (x : Json) : String := String.ofList (pretty 0 (toValue x))

/-- An object starts with its opening brace. -/
theorem toStringPretty_obj (fields : List (String × Json)) :
    ∃ cs, (toStringPretty (.obj fields)).toList = openBrace :: cs := by
  rw [toStringPretty, String.toList_ofList, toValue, pretty]
  exact ⟨_, rfl⟩

/-- The text of an object is not empty. -/
theorem toStringPretty_obj_pos (fields : List (String × Json)) :
    0 < (toStringPretty (.obj fields)).utf8ByteSize := by
  obtain ⟨cs, hText⟩ := toStringPretty_obj fields
  have hNotEmpty : toStringPretty (.obj fields) ≠ "" := by
    intro h
    rw [h] at hText
    cases hText
  exact Nat.pos_of_ne_zero fun hZero =>
    hNotEmpty (String.utf8ByteSize_eq_zero_iff.mp hZero)

end LedgerFS.Library.PrettyJson
