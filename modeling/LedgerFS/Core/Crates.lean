import LedgerFS.Core.Rfc3339
import LedgerFS.Core.Types

/-!
# The crates the repository calls

The functions of `chrono`, `lz4_flex`, `sha2` and the standard library that
the code calls and whose source it does not contain, as one parameter of the
model.  What the code relies on about them is named by the predicates below
and is a hypothesis wherever a result needs it; `sample` shows that they can
be met together.

The text of an instant is read back, but not every reading is: chrono keeps
readings inside leap seconds that do not end a minute and says of them that
their text is ambiguous and would be read back to the next non-leap second.
`TimeTextReadsBack` says that.  `TimeTextParsesBack` and `TimeTextInjective` ask
for more, and are used only where a statement is about crates that keep every
reading apart.
-/

namespace LedgerFS.Core

/-- Third-party functions. -/
structure Crates where
  /-- The text `serde` writes for a `DateTime<Utc>`. -/
  formatDateTime : DateTime → RustString
  parseDateTime : RustString → Option DateTime
  /-- `lz4_flex::frame`, an error carrying its text. -/
  lz4Compress : List UInt8 → Except String (List UInt8)
  lz4Decompress : List UInt8 → Except String (List UInt8)
  sha256 : List UInt8 → List UInt8
  /-- `{:?}` of `String::from_utf8_lossy`. -/
  debugLossy : List UInt8 → String

namespace Crates

/-- The text of an instant is read as its image. -/
def TimeTextReadsAs (C : Crates) (back : DateTime → DateTime) : Prop :=
  ∀ t, C.parseDateTime (C.formatDateTime t) = some (back t)

/-- The text of an instant parses, to the reading it is read back to, and that
one has the same text. -/
structure TimeTextReadsBack (C : Crates) : Prop where
  parses : C.TimeTextReadsAs DateTime.readBack
  sameText : ∀ t, C.formatDateTime t.readBack = C.formatDateTime t

/-- The text of an instant parses back to that instant. -/
def TimeTextParsesBack (C : Crates) : Prop :=
  ∀ t, C.parseDateTime (C.formatDateTime t) = some t

/-- Different instants have different texts. -/
def TimeTextInjective (C : Crates) : Prop := Function.Injective C.formatDateTime

/-- Decoding a frame undoes the encoding that made it. -/
def Lz4DecodesBack (C : Crates) : Prop :=
  ∀ data frame, C.lz4Compress data = .ok frame → C.lz4Decompress frame = .ok data

/-- Encoding into memory does not fail. -/
def Lz4Encodes (C : Crates) : Prop := ∀ data, ∃ frame, C.lz4Compress data = .ok frame

/-- How an LZ4 frame starts. -/
def lz4Magic : List UInt8 := [0x04, 0x22, 0x4D, 0x18]

/-- The encoder starts every frame with the magic number. -/
def Lz4FramesStart (C : Crates) : Prop :=
  ∀ data frame, C.lz4Compress data = .ok frame → lz4Magic <+: frame

/-- The decoder rejects what does not start with it. -/
def Lz4RejectsOthers (C : Crates) : Prop :=
  ∀ data, data ≠ [] → ¬ lz4Magic <+: data → ∃ message, C.lz4Decompress data = .error message

end Crates

/-! ## Sample instances

Instants have their RFC 3339 texts.  A frame is the LZ4 magic number and one
stored block.
-/

/-- 1970-01-01T00:00:00Z. -/
def DateTime.epoch : DateTime := ⟨0, 0, by decide, by decide, by decide⟩

/-- One second later. -/
def DateTime.oneSecond : DateTime := ⟨1, 0, by decide, by decide, by decide⟩

namespace Crates

/-- Crates with chrono's texts. -/
def sample : Crates where
  formatDateTime := Rfc3339.text
  parseDateTime := Rfc3339.parse
  lz4Compress data := .ok ([0x04, 0x22, 0x4D, 0x18] ++ data)
  lz4Decompress frame :=
    if frame.take 4 = [0x04, 0x22, 0x4D, 0x18] then .ok (frame.drop 4)
    else .error "wrong magic number"
  sha256 data := data
  debugLossy _ := ""

theorem sample_timeTextReadsBack : sample.TimeTextReadsBack where
  parses := Rfc3339.parse_text
  sameText := Rfc3339.text_readBack

/-- Readings with one text are read back alike. -/
theorem TimeTextReadsBack.text_eq_iff {C : Crates} (h : C.TimeTextReadsBack) (s t : DateTime) :
    C.formatDateTime s = C.formatDateTime t ↔ s.readBack = t.readBack := by
  constructor
  · intro hText
    have hs := h.parses s
    rw [hText, h.parses t] at hs
    exact (Option.some.inj hs).symm
  · intro hBack
    rw [← h.sameText s, hBack, h.sameText]

/-! The readings that have no RFC 3339 text of their own can be given another one, their second
count (moved up to be non-negative) and their nanosecond part. -/

private def ownChars (t : DateTime) : List Char :=
  '@' :: (Nat.toDigits 10 (t.secs + 8334601228800).toNat ++
    '.' :: Nat.toDigits 10 t.frac)

private theorem length_ownChars (t : DateTime) : (ownChars t).length ≤ 40 := by
  have hSecs : (Nat.toDigits 10 (t.secs + 8334601228800).toNat).length ≤ 19 := by
    rw [Nat.length_toDigits_le_iff (by decide) (by decide)]
    have := t.secs_le
    omega
  have hFrac : (Nat.toDigits 10 t.frac).length ≤ 19 := by
    rw [Nat.length_toDigits_le_iff (by decide) (by decide)]
    have := t.frac_lt
    omega
  simp only [ownChars, List.length_cons, List.length_append]
  omega

private def ownText (t : DateTime) : RustString :=
  RustString.ofChars (ownChars t) (by
    have := length_ownChars t
    omega)

private def exactParse (s : RustString) : Option DateTime :=
  match s.text.toList with
  | '@' :: cs =>
      Rfc3339.reading (Nat.ofDigitChars 10 (cs.takeWhile Char.isDigit) 0 - 8334601228800)
        (Nat.ofDigitChars 10 ((cs.dropWhile Char.isDigit).drop 1) 0)
  | _ => Rfc3339.parse s

/-- Crates whose texts keep every reading apart. -/
def exact : Crates where
  formatDateTime t := if t.Unambiguous then Rfc3339.text t else ownText t
  parseDateTime := exactParse
  lz4Compress := sample.lz4Compress
  lz4Decompress := sample.lz4Decompress
  sha256 := sample.sha256
  debugLossy := sample.debugLossy

private theorem exactParse_ownText (t : DateTime) : exactParse (ownText t) = some t := by
  have hDigits : ∀ c ∈ Nat.toDigits 10 (t.secs + 8334601228800).toNat,
      Char.isDigit c = true := fun c hc =>
    Nat.isDigit_of_mem_toDigits (by decide) (by decide) hc
  have hTake : ((Nat.toDigits 10 (t.secs + 8334601228800).toNat ++
      '.' :: Nat.toDigits 10 t.frac).takeWhile Char.isDigit) =
      Nat.toDigits 10 (t.secs + 8334601228800).toNat := by
    rw [List.takeWhile_append_of_pos hDigits]
    simp
  have hDrop : ((Nat.toDigits 10 (t.secs + 8334601228800).toNat ++
      '.' :: Nat.toDigits 10 t.frac).dropWhile Char.isDigit) =
      '.' :: Nat.toDigits 10 t.frac := by
    rw [List.dropWhile_append_of_pos hDigits]
    simp
  have hSecs := t.secs_ge
  have hBack : ((t.secs + 8334601228800).toNat : Int) - 8334601228800 = t.secs := by
    omega
  simp only [exactParse, ownText, RustString.ofChars, String.toList_ofList, ownChars, hTake,
    hDrop, List.drop_succ_cons, List.drop_zero, Nat.ofDigitChars_ten_toDigits, hBack]
  exact Rfc3339.reading_eq t

theorem exact_timeTextParsesBack : exact.TimeTextParsesBack := by
  intro t
  show exactParse (if t.Unambiguous then Rfc3339.text t else ownText t) = some t
  by_cases h : t.Unambiguous
  · obtain ⟨c, cs, hText, hc⟩ := Rfc3339.exists_text_eq_cons t
    rw [if_pos h, exactParse, hText]
    split
    · rename_i hAt
      cases hAt
      exact absurd rfl hc
    · rw [Rfc3339.parse_text, DateTime.readBack_of_unambiguous h]
  · rw [if_neg h, exactParse_ownText]

theorem TimeTextParsesBack.injective {C : Crates} (h : C.TimeTextParsesBack) :
    C.TimeTextInjective := by
  intro s t hText
  have hs := h s
  rw [hText, h t] at hs
  exact (Option.some.inj hs).symm

theorem sample_lz4DecodesBack : sample.Lz4DecodesBack := by
  intro data frame h
  have hFrame : [0x04, 0x22, 0x4D, 0x18] ++ data = frame := Except.ok.inj h
  subst hFrame
  rfl

theorem sample_lz4Encodes : sample.Lz4Encodes := fun _ => ⟨_, rfl⟩

theorem exact_lz4DecodesBack : exact.Lz4DecodesBack := sample_lz4DecodesBack

theorem exact_lz4Encodes : exact.Lz4Encodes := sample_lz4Encodes

theorem sample_lz4FramesStart : sample.Lz4FramesStart := by
  intro data frame h
  have hFrame : lz4Magic ++ data = frame := Except.ok.inj h
  exact ⟨data, hFrame⟩

theorem sample_lz4RejectsOthers : sample.Lz4RejectsOthers := by
  intro data _ hOther
  refine ⟨"wrong magic number", if_neg fun hMagic => hOther ?_⟩
  exact ⟨data.drop 4, by
    rw [lz4Magic, ← hMagic]
    exact List.take_append_drop 4 data⟩

end Crates

end LedgerFS.Core
