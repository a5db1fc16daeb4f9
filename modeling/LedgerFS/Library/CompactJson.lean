import Mathlib.Data.List.TakeDrop
import Mathlib.Tactic.SplitIfs

/-!
# Compact JSON

A JSON value with ordered object fields and its compact rendering: no spaces,
integers in decimal, strings escaped as `serde_json` escapes them.  The
rendering is injective (`render_injective`).

The proof reads the text from the front.  Two values whose renderings agree
up to what follows them are equal, and so is what follows (`render_append_inj`);
for numbers this needs that no further digit follows (`Stops`), which the
punctuation inside arrays and objects provides.
-/

namespace LedgerFS.Library.CompactJson

/-- JSON values, with the fields of an object in their order. -/
inductive Json
  | null
  | num (n : Int)
  | str (s : String)
  | arr (xs : List Json)
  | obj (fields : List (String × Json))

/-! ## Strings -/

/-- The double quote, the reverse solidus and the braces. -/
abbrev quoteMark : Char := '\x22'

abbrev backslash : Char := '\x5c'

abbrev openBrace : Char := '\x7b'

abbrev closeBrace : Char := '\x7d'

/-- The short escape of a character, if it has one. -/
def shortEscape (c : Char) : Option Char :=
  if c = quoteMark then some quoteMark
  else if c = backslash then some backslash
  else if c = '\x08' then some 'b'
  else if c = '\x09' then some 't'
  else if c = '\x0a' then some 'n'
  else if c = '\x0c' then some 'f'
  else if c = '\x0d' then some 'r'
  else none

/-- The remaining control characters are written as `u00xx`. -/
def escapeChar (c : Char) : List Char :=
  match shortEscape c with
  | some k => [backslash, k]
  | none =>
      if c.toNat < 32 then
        [backslash, 'u', '0', '0', Nat.digitChar (c.toNat / 16),
          Nat.digitChar (c.toNat % 16)]
      else [c]

def escape (cs : List Char) : List Char := cs.flatMap escapeChar

/-- The character a short escape stands for. -/
def ofShortEscape (k : Char) : Char :=
  if k = 'b' then '\x08'
  else if k = 't' then '\x09'
  else if k = 'n' then '\x0a'
  else if k = 'f' then '\x0c'
  else if k = 'r' then '\x0d'
  else k

def hexValue (c : Char) : Nat :=
  if c.isDigit then c.toNat - 48 else c.toNat - 87

/-- Read one character off an escaped text. -/
def unescapeChar : List Char → Option (Char × List Char)
  | [] => none
  | c :: rest =>
      if c = backslash then
        match rest with
        | [] => none
        | k :: rest =>
            if k = 'u' then
              match rest with
              | _ :: _ :: h :: l :: rest =>
                  some (Char.ofNat (hexValue h * 16 + hexValue l), rest)
              | _ => none
            else some (ofShortEscape k, rest)
      else some (c, rest)

private theorem shortEscape_spec {c k : Char} (h : shortEscape c = some k) :
    k ≠ 'u' ∧ ofShortEscape k = c := by
  unfold shortEscape at h
  split_ifs at h <;> cases h <;> subst_vars <;> decide

private theorem hexValue_digits (n : Nat) (h : n < 32) :
    hexValue (Nat.digitChar (n / 16)) * 16 + hexValue (Nat.digitChar (n % 16)) = n := by
  have hAll : ∀ i : Fin 32, hexValue (Nat.digitChar (i / 16)) * 16 +
      hexValue (Nat.digitChar (i % 16)) = i := by decide
  exact hAll ⟨n, h⟩

/-- Reading undoes escaping. -/
theorem unescapeChar_escapeChar (c : Char) (rest : List Char) :
    unescapeChar (escapeChar c ++ rest) = some (c, rest) := by
  unfold escapeChar
  cases hShort : shortEscape c with
  | some k =>
      obtain ⟨hNotU, hBack⟩ := shortEscape_spec hShort
      simp [unescapeChar, hNotU, hBack]
  | none =>
      by_cases hControl : c.toNat < 32
      · simp [unescapeChar, hControl, hexValue_digits _ hControl]
      · have hNot : c ≠ backslash := by
          rintro rfl
          cases hShort
        simp [unescapeChar, hControl, hNot]

private theorem head_escapeChar (c : Char) (rest : List Char) :
    ∃ d ds, escapeChar c ++ rest = d :: ds ∧ d ≠ quoteMark := by
  unfold escapeChar
  cases hShort : shortEscape c with
  | some k => exact ⟨backslash, k :: rest, rfl, by decide⟩
  | none =>
      by_cases hControl : c.toNat < 32
      · exact ⟨backslash, _, by simp only [hControl, if_true]; rfl, by decide⟩
      · refine ⟨c, rest, by simp [hControl], ?_⟩
        rintro rfl
        cases hShort

/-- Two escaped texts that agree up to their closing quotes are one text. -/
theorem escape_append_inj (cs ds r r' : List Char)
    (h : escape cs ++ quoteMark :: r = escape ds ++ quoteMark :: r') :
    cs = ds ∧ r = r' := by
  induction cs generalizing ds with
  | nil =>
      cases ds with
      | nil => exact ⟨rfl, (List.cons.inj h).2⟩
      | cons d ds =>
          obtain ⟨x, xs, hx, hNot⟩ := head_escapeChar d (escape ds ++ quoteMark :: r')
          simp only [escape, List.flatMap_cons, List.flatMap_nil, List.nil_append,
            List.append_assoc] at h hx
          rw [hx] at h
          exact absurd (List.cons.inj h).1.symm hNot
  | cons c cs ih =>
      cases ds with
      | nil =>
          obtain ⟨x, xs, hx, hNot⟩ := head_escapeChar c (escape cs ++ quoteMark :: r)
          simp only [escape, List.flatMap_cons, List.flatMap_nil, List.nil_append,
            List.append_assoc] at h hx
          rw [hx] at h
          exact absurd (List.cons.inj h).1 hNot
      | cons d ds =>
          simp only [escape, List.flatMap_cons, List.append_assoc] at h ih
          have hRead := congrArg unescapeChar h
          rw [unescapeChar_escapeChar, unescapeChar_escapeChar, Option.some.injEq,
            Prod.mk.injEq] at hRead
          obtain ⟨hChar, hRest⟩ := ih ds hRead.2
          exact ⟨by rw [hRead.1, hChar], hRest⟩

def quote (s : String) : List Char := quoteMark :: (escape s.toList ++ [quoteMark])

theorem quote_append_inj (s t : String) (r r' : List Char)
    (h : quote s ++ r = quote t ++ r') : s = t ∧ r = r' := by
  simp only [quote, List.cons_append, List.append_assoc, List.cons.injEq, true_and] at h
  obtain ⟨hText, hRest⟩ := escape_append_inj _ _ _ _ h
  exact ⟨String.toList_inj.mp hText, hRest⟩

/-! ## Numbers -/

def digits (n : Nat) : List Char := Nat.toDigits 10 n

def renderInt (n : Int) : List Char :=
  if n < 0 then '-' :: digits n.natAbs else digits n.natAbs

/-- No digit comes next. -/
def Stops (r : List Char) : Prop := r.takeWhile Char.isDigit = []

private theorem digits_append_inj (m n : Nat) (r r' : List Char) (hr : Stops r)
    (hr' : Stops r') (h : digits m ++ r = digits n ++ r') : m = n ∧ r = r' := by
  have hDigit (k : Nat) : ∀ c ∈ digits k, Char.isDigit c = true := fun c hc =>
    Nat.isDigit_of_mem_toDigits (by decide) (by decide) hc
  have hBack (k : Nat) : Nat.ofDigitChars 10 (digits k) 0 = k :=
    Nat.ofDigitChars_toDigits (by decide) (by decide)
  have hTake := congrArg (List.takeWhile Char.isDigit) h
  rw [List.takeWhile_append_of_pos (hDigit m), List.takeWhile_append_of_pos (hDigit n),
    hr, hr', List.append_nil, List.append_nil] at hTake
  have hEq : m = n := by rw [← hBack m, hTake, hBack n]
  subst hEq
  exact ⟨rfl, List.append_cancel_left h⟩

private theorem digits_head (n : Nat) :
    ∃ d ds, digits n = d :: ds ∧ d.isDigit = true := by
  cases h : digits n with
  | nil => exact absurd h Nat.toDigits_ne_nil
  | cons d ds =>
      refine ⟨d, ds, rfl, ?_⟩
      have hMem : d ∈ Nat.toDigits 10 n := by
        rw [show Nat.toDigits 10 n = d :: ds from h]
        exact List.mem_cons_self
      exact Nat.isDigit_of_mem_toDigits (by decide) (by decide) hMem

private theorem minus_ne_digits (n : Nat) (r r' : List Char) :
    '-' :: r ≠ digits n ++ r' := by
  obtain ⟨d, ds, hDigits, hIs⟩ := digits_head n
  rw [hDigits]
  intro h
  rw [← (List.cons.inj h).1] at hIs
  exact absurd hIs (by decide)

theorem renderInt_append_inj (m n : Int) (r r' : List Char) (hr : Stops r)
    (hr' : Stops r') (h : renderInt m ++ r = renderInt n ++ r') : m = n ∧ r = r' := by
  unfold renderInt at h
  by_cases hm : m < 0 <;> by_cases hn : n < 0
  · rw [if_pos hm, if_pos hn] at h
    obtain ⟨hAbs, hRest⟩ := digits_append_inj _ _ _ _ hr hr' (List.cons.inj h).2
    exact ⟨by omega, hRest⟩
  · rw [if_pos hm, if_neg hn] at h
    exact absurd h (minus_ne_digits _ _ _)
  · rw [if_neg hm, if_pos hn] at h
    exact absurd h.symm (minus_ne_digits _ _ _)
  · rw [if_neg hm, if_neg hn] at h
    obtain ⟨hAbs, hRest⟩ := digits_append_inj _ _ _ _ hr hr' h
    exact ⟨by omega, hRest⟩

/-! ## Values -/

mutual

/-- The compact rendering. -/
def render : Json → List Char
  | .null => ['n', 'u', 'l', 'l']
  | .num n => renderInt n
  | .str s => quote s
  | .arr xs => '[' :: elemsFrom true xs
  | .obj fields => openBrace :: fieldsFrom true fields

/-- The elements still to be written and the closing bracket. -/
def elemsFrom (first : Bool) : List Json → List Char
  | [] => [']']
  | x :: xs => (if first then [] else [',']) ++ (render x ++ elemsFrom false xs)

/-- The fields still to be written and the closing brace. -/
def fieldsFrom (first : Bool) : List (String × Json) → List Char
  | [] => [closeBrace]
  | (k, x) :: fields =>
      (if first then [] else [',']) ++
        (quote k ++ ':' :: (render x ++ fieldsFrom false fields))

end

/-- What the first character of a rendering says about the value. -/
private def kindOfChar (c : Char) : Nat :=
  if c = 'n' then 0
  else if c = '-' ∨ c.isDigit then 1
  else if c = quoteMark then 2
  else if c = '[' then 3
  else if c = openBrace then 4
  else 5

private def kind : Json → Nat
  | .null => 0
  | .num _ => 1
  | .str _ => 2
  | .arr _ => 3
  | .obj _ => 4

private theorem head_render (x : Json) :
    ∃ c cs, render x = c :: cs ∧ kindOfChar c = kind x := by
  cases x with
  | null => exact ⟨_, _, by rw [render], rfl⟩
  | num n =>
      obtain ⟨d, ds, hDigits, hIs⟩ := digits_head n.natAbs
      by_cases hNeg : n < 0
      · exact ⟨'-', digits n.natAbs, by rw [render, renderInt, if_pos hNeg], rfl⟩
      · refine ⟨d, ds, by rw [render, renderInt, if_neg hNeg, hDigits], ?_⟩
        have hNot : d ≠ 'n' := by
          rintro rfl
          cases hIs
        simp [kindOfChar, kind, hNot, hIs]
  | str s => exact ⟨quoteMark, _, by rw [render, quote], rfl⟩
  | arr xs => exact ⟨'[', _, by rw [render], rfl⟩
  | obj fields => exact ⟨openBrace, _, by rw [render], rfl⟩

/-- Renderings that start alike are of one kind. -/
private theorem kind_eq_of_render {x y : Json} {r r' : List Char}
    (h : render x ++ r = render y ++ r') : kind x = kind y := by
  obtain ⟨c, cs, hx, hc⟩ := head_render x
  obtain ⟨d, ds, hy, hd⟩ := head_render y
  rw [hx, hy] at h
  rw [← hc, ← hd, (List.cons.inj h).1]

/-- No rendering starts with a closing bracket. -/
private theorem bracket_ne_render (x : Json) (r r' : List Char) :
    ']' :: r ≠ render x ++ r' := by
  obtain ⟨c, cs, hx, hc⟩ := head_render x
  rw [hx]
  intro h
  rw [← (List.cons.inj h).1] at hc
  cases x <;> cases hc

private theorem stops_elemsFrom (xs : List Json) (r : List Char) :
    Stops (elemsFrom false xs ++ r) := by
  cases xs with
  | nil =>
      rw [elemsFrom]
      rfl
  | cons x xs =>
      rw [elemsFrom]
      rfl

private theorem stops_fieldsFrom (fields : List (String × Json)) (r : List Char) :
    Stops (fieldsFrom false fields ++ r) := by
  cases fields with
  | nil =>
      rw [fieldsFrom]
      rfl
  | cons field fields =>
      rw [fieldsFrom]
      rfl

mutual

/-- **Prefix property**: two renderings that agree up to what follows are of
one value. -/
theorem render_append_inj (x y : Json) (r r' : List Char) (hr : Stops r)
    (hr' : Stops r') (h : render x ++ r = render y ++ r') : x = y ∧ r = r' := by
  have hKind := kind_eq_of_render h
  match x, y with
  | .null, .null =>
      rw [render] at h
      exact ⟨rfl, List.append_cancel_left h⟩
  | .num m, .num n =>
      rw [render, render] at h
      obtain ⟨hNum, hRest⟩ := renderInt_append_inj m n r r' hr hr' h
      exact ⟨by rw [hNum], hRest⟩
  | .str s, .str t =>
      rw [render, render] at h
      obtain ⟨hText, hRest⟩ := quote_append_inj s t r r' h
      exact ⟨by rw [hText], hRest⟩
  | .arr xs, .arr ys =>
      rw [render, render] at h
      obtain ⟨hElems, hRest⟩ := elemsFrom_append_inj true xs ys r r' (List.cons.inj h).2
      exact ⟨by rw [hElems], hRest⟩
  | .obj fs, .obj gs =>
      rw [render, render] at h
      obtain ⟨hFields, hRest⟩ := fieldsFrom_append_inj true fs gs r r' (List.cons.inj h).2
      exact ⟨by rw [hFields], hRest⟩

theorem elemsFrom_append_inj (first : Bool) (xs ys : List Json) (r r' : List Char)
    (h : elemsFrom first xs ++ r = elemsFrom first ys ++ r') : xs = ys ∧ r = r' := by
  match xs, ys with
  | [], [] =>
      rw [elemsFrom] at h
      exact ⟨rfl, (List.cons.inj h).2⟩
  | [], y :: ys =>
      rw [elemsFrom, elemsFrom] at h
      cases first with
      | true =>
          simp only [if_true, List.nil_append, List.append_assoc, List.singleton_append] at h
          exact absurd h (bracket_ne_render y r _)
      | false =>
          exact absurd (List.cons.inj h).1 (by decide)
  | x :: xs, [] =>
      rw [elemsFrom, elemsFrom] at h
      cases first with
      | true =>
          simp only [if_true, List.nil_append, List.append_assoc, List.singleton_append] at h
          exact absurd h.symm (bracket_ne_render x r' _)
      | false =>
          exact absurd (List.cons.inj h).1 (by decide)
  | x :: xs, y :: ys =>
      rw [elemsFrom, elemsFrom, List.append_assoc, List.append_assoc,
        List.append_assoc, List.append_assoc] at h
      obtain ⟨hHead, hTail⟩ := render_append_inj x y _ _ (stops_elemsFrom xs r)
        (stops_elemsFrom ys r') (List.append_cancel_left h)
      obtain ⟨hElems, hRest⟩ := elemsFrom_append_inj false xs ys r r' hTail
      exact ⟨by rw [hHead, hElems], hRest⟩

theorem fieldsFrom_append_inj (first : Bool) (fs gs : List (String × Json))
    (r r' : List Char) (h : fieldsFrom first fs ++ r = fieldsFrom first gs ++ r') :
    fs = gs ∧ r = r' := by
  match fs, gs with
  | [], [] =>
      rw [fieldsFrom] at h
      exact ⟨rfl, (List.cons.inj h).2⟩
  | [], (l, y) :: gs =>
      rw [fieldsFrom, fieldsFrom] at h
      cases first with
      | true => exact absurd (List.cons.inj h).1 (by decide)
      | false => exact absurd (List.cons.inj h).1 (by decide)
  | (k, x) :: fs, [] =>
      rw [fieldsFrom, fieldsFrom] at h
      cases first with
      | true => exact absurd (List.cons.inj h).1 (by decide)
      | false => exact absurd (List.cons.inj h).1 (by decide)
  | (k, x) :: fs, (l, y) :: gs =>
      rw [fieldsFrom, fieldsFrom, List.append_assoc, List.append_assoc,
        List.append_assoc, List.append_assoc] at h
      obtain ⟨hName, hValue⟩ := quote_append_inj k l _ _ (List.append_cancel_left h)
      rw [List.cons_append, List.cons_append, List.append_assoc, List.append_assoc,
        List.cons.injEq] at hValue
      obtain ⟨hHead, hTail⟩ := render_append_inj x y _ _ (stops_fieldsFrom fs r)
        (stops_fieldsFrom gs r') hValue.2
      obtain ⟨hFields, hRest⟩ := fieldsFrom_append_inj false fs gs r r' hTail
      exact ⟨by rw [hName, hHead, hFields], hRest⟩

end

/-- **Injectivity**: the compact rendering determines the value. -/
theorem render_injective : Function.Injective render := by
  intro x y h
  have hStops : Stops [] := rfl
  exact (render_append_inj x y [] [] hStops hStops (by rw [h])).1

end LedgerFS.Library.CompactJson
