import Mathlib.Data.List.Nodup
import LedgerFS.Library.PrettyJson

/-!
# What a pretty text determines

`squeeze` drops the blanks and line ends of a text that are not inside a string.  What it
leaves of a pretty text is the compact one (`squeeze_pretty`), so that the pretty rendering
is injective as well (`pretty_injective`).

A `serde_json::Value` has forgotten in which order the fields of an object came, and
nothing else: two objects become one value exactly if they have the same fields
(`toValue_obj_eq_iff`).
-/

namespace LedgerFS.Library.PrettyJson

open LedgerFS.Library.CompactJson

/-! ## Dropping blanks -/

/-- Where in the text a character stands. -/
inductive Place
  | outside
  | inString
  | escaped

/-- The text without the blanks and line ends outside its strings. -/
def squeeze : Place → List Char → List Char
  | _, [] => []
  | .outside, c :: cs =>
      if c = quoteMark then c :: squeeze .inString cs
      else if c = ' ' ∨ c = '\n' then squeeze .outside cs
      else c :: squeeze .outside cs
  | .inString, c :: cs =>
      if c = backslash then c :: squeeze .escaped cs
      else if c = quoteMark then c :: squeeze .outside cs
      else c :: squeeze .inString cs
  | .escaped, c :: cs => c :: squeeze .inString cs

@[simp] theorem squeeze_nil (place : Place) : squeeze place [] = [] := by
  cases place <;> rfl

/-- Blanks go. -/
theorem squeeze_blanks (n : Nat) (rest : List Char) :
    squeeze .outside (List.replicate n ' ' ++ rest) = squeeze .outside rest := by
  induction n with
  | zero => rfl
  | succ n ih =>
      rw [List.replicate_succ, List.cons_append, squeeze, if_neg (by decide),
        if_pos (Or.inl rfl), ih]

theorem squeeze_newLine (level : Nat) (rest : List Char) :
    squeeze .outside (newLine level ++ rest) = squeeze .outside rest := by
  rw [newLine, List.cons_append, squeeze, if_neg (by decide), if_pos (Or.inr rfl),
    squeeze_blanks]

/-- Neither a quotation mark nor dropped. -/
def Solid (c : Char) : Prop := c ≠ quoteMark ∧ c ≠ ' ' ∧ c ≠ '\n'

instance (c : Char) : Decidable (Solid c) := inferInstanceAs (Decidable (_ ∧ _))

/-- Anything else outside strings stays. -/
theorem squeeze_solid {c : Char} (h : Solid c) (rest : List Char) :
    squeeze .outside (c :: rest) = c :: squeeze .outside rest := by
  rw [squeeze, if_neg h.1, if_neg (not_or.mpr h.2)]

theorem squeeze_solids {cs : List Char} (h : ∀ c ∈ cs, Solid c) (rest : List Char) :
    squeeze .outside (cs ++ rest) = cs ++ squeeze .outside rest := by
  induction cs with
  | nil => rfl
  | cons c cs ih =>
      rw [List.cons_append, squeeze_solid (h c List.mem_cons_self),
        ih fun d hd => h d (List.mem_cons_of_mem c hd), List.cons_append]

/-- A number is solid. -/
theorem solid_renderInt (n : Int) : ∀ c ∈ renderInt n, Solid c := by
  have hDigit (k : Nat) : ∀ c ∈ digits k, Solid c := by
    intro c hc
    have hIs : c.isDigit = true := Nat.isDigit_of_mem_toDigits (by decide) (by decide) hc
    refine ⟨?_, ?_, ?_⟩ <;> rintro rfl <;> exact absurd hIs (by decide)
  intro c hc
  unfold renderInt at hc
  split at hc
  · rcases List.mem_cons.mp hc with rfl | hTail
    · exact ⟨by decide, by decide, by decide⟩
    · exact hDigit _ c hTail
  · exact hDigit _ c hc

/-! ### Strings stay as they are -/

private theorem squeeze_plain {c : Char} (hEscape : c ≠ backslash) (hQuote : c ≠ quoteMark)
    (rest : List Char) : squeeze .inString (c :: rest) = c :: squeeze .inString rest := by
  rw [squeeze, if_neg hEscape, if_neg hQuote]

private theorem squeeze_escape (c : Char) (rest : List Char) :
    squeeze .inString (backslash :: c :: rest) = backslash :: c :: squeeze .inString rest := by
  rw [squeeze, if_pos rfl, squeeze]

private theorem hexDigit_plain {n : Nat} (h : n < 16) :
    Nat.digitChar n ≠ backslash ∧ Nat.digitChar n ≠ quoteMark := by
  have hAll : ∀ i : Fin 16, Nat.digitChar i ≠ backslash ∧ Nat.digitChar i ≠ quoteMark := by
    decide
  exact hAll ⟨n, h⟩

theorem squeeze_escapeChar (c : Char) (rest : List Char) :
    squeeze .inString (escapeChar c ++ rest) = escapeChar c ++ squeeze .inString rest := by
  unfold escapeChar
  cases hShort : shortEscape c with
  | some k => exact squeeze_escape k rest
  | none =>
      by_cases hControl : c.toNat < 32
      · obtain ⟨hHigh, hHigh'⟩ := hexDigit_plain (n := c.toNat / 16) (by omega)
        obtain ⟨hLow, hLow'⟩ := hexDigit_plain (n := c.toNat % 16) (by omega)
        simp only [hControl, if_true, List.cons_append, List.nil_append]
        rw [squeeze_escape, squeeze_plain (by decide) (by decide),
          squeeze_plain (by decide) (by decide), squeeze_plain hHigh hHigh',
          squeeze_plain hLow hLow']
      · have hPlain : c ≠ backslash ∧ c ≠ quoteMark := by
          constructor <;> rintro rfl <;> cases hShort
        simp only [hControl, if_false, List.cons_append, List.nil_append]
        exact squeeze_plain hPlain.1 hPlain.2 rest

theorem squeeze_quote (s : String) (rest : List Char) :
    squeeze .outside (quote s ++ rest) = quote s ++ squeeze .outside rest := by
  have hInside (cs : List Char) :
      squeeze .inString (escape cs ++ quoteMark :: rest) =
        escape cs ++ quoteMark :: squeeze .outside rest := by
    induction cs with
    | nil => exact (if_neg (by decide)).trans (if_pos rfl)
    | cons c cs ih =>
        rw [escape, List.flatMap_cons, List.append_assoc, squeeze_escapeChar, List.append_assoc]
        exact congrArg _ ih
  rw [quote, List.cons_append, squeeze, if_pos rfl, List.append_assoc, List.singleton_append,
    hInside]
  simp only [List.cons_append, List.append_assoc, List.nil_append]

/-! ### The compact text is left -/

/-- The comma before all but the first. -/
private theorem squeeze_comma (first : Bool) (rest : List Char) :
    squeeze .outside ((if first then [] else [',']) ++ rest) =
      (if first then [] else [',']) ++ squeeze .outside rest := by
  cases first with
  | true => rfl
  | false => exact squeeze_solid (by decide) rest

/-- The line of the closing bracket. -/
private theorem squeeze_close (level : Nat) (first : Bool) {c : Char} (h : Solid c)
    (rest : List Char) :
    squeeze .outside (((if first then [] else newLine level) ++ [c]) ++ rest) =
      c :: squeeze .outside rest := by
  cases first with
  | true => exact squeeze_solid h rest
  | false =>
      rw [if_neg Bool.false_ne_true, List.append_assoc, squeeze_newLine]
      exact squeeze_solid h rest

mutual

/-- **A pretty text without its blanks** is the compact text. -/
theorem squeeze_pretty (level : Nat) (x : Json) (rest : List Char) :
    squeeze .outside (pretty level x ++ rest) = render x ++ squeeze .outside rest := by
  match x with
  | .null =>
      rw [pretty, render]
      simp only [List.cons_append, List.nil_append]
      rw [squeeze_solid (by decide), squeeze_solid (by decide), squeeze_solid (by decide),
        squeeze_solid (by decide)]
  | .num n =>
      rw [pretty, render]
      exact squeeze_solids (solid_renderInt n) rest
  | .str s =>
      rw [pretty, render]
      exact squeeze_quote s rest
  | .arr xs =>
      rw [pretty, render, List.cons_append, squeeze_solid (by decide),
        squeeze_prettyElems, List.cons_append]
  | .obj fields =>
      rw [pretty, render, List.cons_append, squeeze_solid (by decide),
        squeeze_prettyFields, List.cons_append]

theorem squeeze_prettyElems (level : Nat) (first : Bool) (xs : List Json) (rest : List Char) :
    squeeze .outside (prettyElems level first xs ++ rest) =
      elemsFrom first xs ++ squeeze .outside rest := by
  match xs with
  | [] =>
      rw [prettyElems, elemsFrom, squeeze_close level first (by decide), List.singleton_append]
  | x :: xs =>
      rw [prettyElems, elemsFrom]
      simp only [List.append_assoc]
      rw [squeeze_comma, squeeze_newLine, squeeze_pretty, squeeze_prettyElems]

theorem squeeze_prettyFields (level : Nat) (first : Bool) (fields : List (String × Json))
    (rest : List Char) :
    squeeze .outside (prettyFields level first fields ++ rest) =
      fieldsFrom first fields ++ squeeze .outside rest := by
  match fields with
  | [] =>
      rw [prettyFields, fieldsFrom, squeeze_close level first (by decide), List.singleton_append]
  | (k, x) :: fields =>
      rw [prettyFields, fieldsFrom]
      simp only [List.append_assoc, List.cons_append]
      rw [squeeze_comma, squeeze_newLine, squeeze_quote, squeeze_solid (by decide)]
      have hBlank := squeeze_blanks 1 (pretty (level + 1) x ++
        (prettyFields level false fields ++ rest))
      rw [show List.replicate 1 ' ' = [' '] from rfl, List.singleton_append] at hBlank
      rw [hBlank, squeeze_pretty, squeeze_prettyFields]

end

/-- **Injectivity**: the pretty rendering determines the value. -/
theorem pretty_injective (level : Nat) : Function.Injective (pretty level) := by
  intro x y h
  have hSqueezed := squeeze_pretty level x []
  rw [h, squeeze_pretty, squeeze_nil, List.append_nil, List.append_nil] at hSqueezed
  exact render_injective hSqueezed.symm

/-! ## The order of the fields -/

theorem toFields_eq (fields : List (String × Json)) :
    toFields fields = fields.map fun field => (field.1, toValue field.2) := by
  induction fields with
  | nil => rw [toFields, List.map_nil]
  | cons field fields ih =>
      rw [toFields, ih, List.map_cons]

theorem toValues_eq (xs : List Json) : toValues xs = xs.map toValue := by
  induction xs with
  | nil => rw [toValues, List.map_nil]
  | cons x xs ih => rw [toValues, ih, List.map_cons]

theorem names_toFields (fields : List (String × Json)) :
    (toFields fields).map Prod.fst = fields.map Prod.fst := by
  rw [toFields_eq, List.map_map]
  rfl

/-- Sorted by different names, lists are the same exactly if they have the same entries. -/
theorem mergeSort_eq_iff_perm {α : Type} {fs gs : List (String × α)}
    (hNames : (fs.map Prod.fst).Nodup) :
    (fs.mergeSort fun f g => decide (f.1 ≤ g.1)) = (gs.mergeSort fun f g => decide (f.1 ≤ g.1)) ↔
      fs.Perm gs := by
  have hSorted (l : List (String × α)) :
      (l.mergeSort fun f g => decide (f.1 ≤ g.1)).Pairwise fun f g => f.1 ≤ g.1 := by
    have hTrans (a b c : String × α) (hab : decide (a.1 ≤ b.1) = true)
        (hbc : decide (b.1 ≤ c.1) = true) : decide (a.1 ≤ c.1) = true :=
      decide_eq_true (le_trans (of_decide_eq_true hab) (of_decide_eq_true hbc))
    have hTotal (a b : String × α) : (decide (a.1 ≤ b.1) || decide (b.1 ≤ a.1)) = true := by
      rw [Bool.or_eq_true, decide_eq_true_eq, decide_eq_true_eq]
      exact le_total a.1 b.1
    exact (List.pairwise_mergeSort hTrans hTotal l).imp fun h => of_decide_eq_true h
  constructor
  · intro h
    exact (List.mergeSort_perm fs _).symm.trans (h ▸ List.mergeSort_perm gs _)
  · intro hPerm
    refine List.Perm.eq_of_pairwise ?_ (hSorted fs) (hSorted gs)
      ((List.mergeSort_perm fs _).trans (hPerm.trans (List.mergeSort_perm gs _).symm))
    intro f g hf hg hfg hgf
    have hMemF := (List.mergeSort_perm fs _).mem_iff.mp hf
    have hMemG := hPerm.mem_iff.mpr ((List.mergeSort_perm gs _).mem_iff.mp hg)
    exact List.inj_on_of_nodup_map hNames hMemF hMemG (le_antisymm hfg hgf)

/-- **Objects** are one value exactly if they have the same fields. -/
theorem toValue_obj_eq_iff {fs gs : List (String × Json)} (hNames : (fs.map Prod.fst).Nodup) :
    toValue (.obj fs) = toValue (.obj gs) ↔ (toFields fs).Perm (toFields gs) := by
  rw [toValue, toValue, Json.obj.injEq]
  exact mergeSort_eq_iff_perm (by rwa [names_toFields])

/-- Lists with the same different names in the same order and the same entries. -/
theorem eq_of_perm_of_names {α : Type} {fs gs : List (String × α)}
    (hSame : fs.map Prod.fst = gs.map Prod.fst) (hNames : (fs.map Prod.fst).Nodup)
    (hPerm : fs.Perm gs) : fs = gs := by
  induction fs generalizing gs with
  | nil => exact hPerm.nil_eq
  | cons f fs ih =>
      cases gs with
      | nil => exact absurd hPerm.length_eq (Nat.succ_ne_zero _)
      | cons g gs =>
          rw [List.map_cons, List.map_cons, List.cons.injEq] at hSame
          rw [List.map_cons, List.nodup_cons] at hNames
          have hHead : f = g := by
            rcases List.mem_cons.mp (hPerm.mem_iff.mp List.mem_cons_self) with hEq | hLater
            · exact hEq
            · exact absurd (hSame.2 ▸ List.mem_map_of_mem hLater) hNames.1
          subst hHead
          rw [ih hSame.2 hNames.2 (List.Perm.cons_inv hPerm)]

/-- **Records**: objects with the same names in the same order are one value exactly if they
are so field by field. -/
theorem toValue_record_eq_iff {fs gs : List (String × Json)}
    (hSame : fs.map Prod.fst = gs.map Prod.fst) (hNames : (fs.map Prod.fst).Nodup) :
    toValue (.obj fs) = toValue (.obj gs) ↔ toFields fs = toFields gs := by
  rw [toValue_obj_eq_iff hNames]
  constructor
  · intro hPerm
    refine eq_of_perm_of_names ?_ ?_ hPerm
    · rw [names_toFields, names_toFields, hSame]
    · rwa [names_toFields]
  · intro h
    rw [h]

/-- Texts are equal exactly if the values are. -/
theorem toStringPretty_eq_iff (x y : Json) :
    toStringPretty x = toStringPretty y ↔ toValue x = toValue y := by
  rw [toStringPretty, toStringPretty, String.ofList_inj, (pretty_injective 0).eq_iff]

end LedgerFS.Library.PrettyJson
