import LedgerFS.Library.ByteOrder

/-!
# Prefix wire formats

A decoder reads a value off the front of a byte string and leaves the rest,
or fails.  `Reads p bytes a` says that `p` reads `a` off `bytes` whatever
follows.  It is closed under sequencing (`Reads.bind`), so the round trip of a
structure is the chain of the round trips of its fields and no proof ever
looks at offsets.

A `Format` pairs an encoder with a decoder; it is `Lawful` when the decoder
reads back what the encoder wrote, and `ReadsAs g` when it reads back the image
of that under `g`.  The combinators at the end build formats
of options, counted sequences and tagged alternatives from lawful parts.  The
reader may fail with any error type `ε`; the errors themselves are supplied by
the caller.
-/

namespace LedgerFS.Library.WireFormat

open LedgerFS.Library.ByteOrder

variable {ε α β : Type}

/-- A reader of values off the front of a byte string. -/
abbrev Decoder (ε α : Type) : Type := StateT (List UInt8) (Except ε) α

/-- `p` reads `a` off `bytes` and leaves exactly what follows. -/
def Reads (p : Decoder ε α) (bytes : List UInt8) (a : α) : Prop :=
  ∀ rest, p.run (bytes ++ rest) = .ok (a, rest)

theorem Reads.pure (a : α) : Reads (Pure.pure a : Decoder ε α) [] a :=
  fun _ => rfl

/-- **Sequencing**: a reader continues where the previous one stopped. -/
theorem Reads.bind {p : Decoder ε α} {f : α → Decoder ε β}
    {bytes bytes' : List UInt8} {a : α} {b : β}
    (hp : Reads p bytes a) (hf : Reads (f a) bytes' b) :
    Reads (p >>= f) (bytes ++ bytes') b := by
  intro rest
  have hHead := hp (bytes' ++ rest)
  have hTail := hf rest
  rw [List.append_assoc, StateT.run_bind, hHead]
  exact hTail

/-- A sequence that reads something reads it in two parts. -/
theorem bind_eq_ok {p : Decoder ε α} {f : α → Decoder ε β} {bytes : List UInt8}
    {result : β × List UInt8} (h : (p >>= f).run bytes = .ok result) :
    ∃ a rest, p.run bytes = .ok (a, rest) ∧ (f a).run rest = .ok result := by
  rw [StateT.run_bind] at h
  cases hp : p.run bytes with
  | error error =>
      rw [hp] at h
      cases h
  | ok head =>
      rw [hp] at h
      exact ⟨head.1, head.2, rfl, h⟩

/-- The last field of a structure: nothing follows but the constructor. -/
theorem Reads.map {p : Decoder ε α} {f : α → β} {bytes : List UInt8} {a : α}
    (hp : Reads p bytes a) :
    Reads (p >>= fun x => Pure.pure (f x)) bytes (f a) := by
  have h := hp.bind (f := fun x => Pure.pure (f x)) (Reads.pure (f a))
  rwa [List.append_nil] at h

/-- A reader whose result must pass `accept`, or reading fails with `bad`. -/
def checked (p : Decoder ε α) (accept : α → Option β) (bad : ε) : Decoder ε β :=
  p >>= fun a =>
    match accept a with
    | some b => pure b
    | none => throw bad

theorem Reads.checked {p : Decoder ε α} {accept : α → Option β} {bad : ε}
    {bytes : List UInt8} {a : α} {b : β} (hp : Reads p bytes a)
    (hAccept : accept a = some b) : Reads (checked p accept bad) bytes b := by
  intro rest
  have h := hp rest
  rw [WireFormat.checked, StateT.run_bind, h]
  simp only [Bind.bind, Except.bind, hAccept]
  rfl

/-- An encoder and a decoder for one type. -/
structure Format (ε α : Type) where
  encode : α → List UInt8
  decode : Decoder ε α

/-- What is written is read back. -/
def Format.Lawful (fmt : Format ε α) : Prop :=
  ∀ a, Reads fmt.decode (fmt.encode a) a

/-- What is written is read back as its image. -/
def Format.ReadsAs (fmt : Format ε α) (g : α → α) : Prop :=
  ∀ a, Reads fmt.decode (fmt.encode a) (g a)

/-! ## Fixed-width words -/

/-- Take exactly `n` bytes, or fail with `short`. -/
def takeBytes (short : ε) (n : Nat) : Decoder ε (List UInt8) := fun bytes =>
  if n ≤ bytes.length then .ok (bytes.take n, bytes.drop n) else .error short

theorem takeBytes_reads (short : ε) (bytes : List UInt8) :
    Reads (takeBytes short bytes.length) bytes bytes := by
  intro rest
  simp [takeBytes, StateT.run]

/-- A `w`-byte little-endian natural number. -/
def word (short : ε) (w : Nat) : Decoder ε Nat :=
  takeBytes short w >>= fun bytes => pure (ofLE bytes)

theorem word_reads (short : ε) (w n : Nat) (h : n < 256 ^ w) :
    Reads (word short w) (toLE w n) n := by
  have hTake : Reads (takeBytes short w) (toLE w n) (toLE w n) := by
    simpa using takeBytes_reads short (toLE w n)
  have hWord := hTake.map (f := ofLE)
  rwa [ofLE_toLE w n h] at hWord

/-- What was taken is what was asked for. -/
theorem takeBytes_eq_ok {short : ε} {n : Nat} {bytes taken rest : List UInt8}
    (h : (takeBytes short n).run bytes = .ok (taken, rest)) : taken.length = n := by
  change (if n ≤ bytes.length then .ok (bytes.take n, bytes.drop n) else .error short :
    Except ε _) = _ at h
  by_cases hEnough : n ≤ bytes.length
  · rw [if_pos hEnough] at h
    cases h
    rw [List.length_take, Nat.min_eq_left hEnough]
  · rw [if_neg hEnough] at h
    cases h

/-- A word is read off the front. -/
theorem word_eq_ok {short : ε} {w n : Nat} {bytes rest : List UInt8}
    (h : (word short w).run bytes = .ok (n, rest)) : n = ofLE (bytes.take w) := by
  obtain ⟨taken, rest', hTake, hWord⟩ := bind_eq_ok h
  cases hWord
  change (if w ≤ bytes.length then .ok (bytes.take w, bytes.drop w) else .error short :
    Except ε _) = _ at hTake
  by_cases hEnough : w ≤ bytes.length
  · rw [if_pos hEnough] at hTake
    cases hTake
    rfl
  · rw [if_neg hEnough] at hTake
    cases hTake

/-! ## Combinators -/

/-- The format of a type that is another type under a different name. -/
def Format.wrap (fmt : Format ε α) (into : α → β) (out : β → α) : Format ε β where
  encode b := fmt.encode (out b)
  decode := fmt.decode >>= fun a => pure (into a)

theorem Format.Lawful.wrap {fmt : Format ε α} (h : fmt.Lawful) {into : α → β}
    {out : β → α} (hBack : ∀ b, into (out b) = b) : (fmt.wrap into out).Lawful := by
  intro b
  have hReads := (h (out b)).map (f := into)
  rwa [hBack b] at hReads

/-- Two values in a row. -/
def pair (f : Format ε α) (g : Format ε β) : Format ε (α × β) where
  encode ab := f.encode ab.1 ++ g.encode ab.2
  decode := do
    let a ← f.decode
    let b ← g.decode
    pure (a, b)

theorem pair_lawful {f : Format ε α} {g : Format ε β} (hf : f.Lawful)
    (hg : g.Lawful) : (pair f g).Lawful :=
  fun ab => (hf ab.1).bind (hg ab.2).map

/-- Read `n` values one after the other. -/
def replicateM (p : Decoder ε α) : Nat → Decoder ε (List α)
  | 0 => pure []
  | n + 1 => p >>= fun a => replicateM p n >>= fun as => pure (a :: as)

theorem Format.Lawful.replicateM_reads {fmt : Format ε α} (h : fmt.Lawful)
    (as : List α) :
    Reads (replicateM fmt.decode as.length) (as.flatMap fmt.encode) as := by
  induction as with
  | nil => exact Reads.pure _
  | cons a as ih => exact (h a).bind ih.map

/-- An option: a zero byte, or a one byte and the value. -/
def option (short bad : ε) (fmt : Format ε α) : Format ε (Option α) where
  encode
    | none => toLE 1 0
    | some a => toLE 1 1 ++ fmt.encode a
  decode := do
    let tag ← word short 1
    match tag with
    | 0 => pure none
    | 1 => fmt.decode >>= fun a => pure (some a)
    | _ => throw bad

theorem option_lawful (short bad : ε) {fmt : Format ε α} (h : fmt.Lawful) :
    (option short bad fmt).Lawful := by
  intro a
  cases a with
  | none =>
      exact (word_reads short 1 0 (by decide)).bind (Reads.pure none)
  | some a =>
      exact (word_reads short 1 1 (by decide)).bind (h a).map

/-- Reading a `w`-byte tag and then what the tag selects. -/
theorem tagged_reads {f : Nat → Decoder ε α} {bytes : List UInt8} {a : α}
    (short : ε) (w tag : Nat) (hTag : tag < 256 ^ w)
    (h : Reads (f tag) bytes a) :
    Reads (word short w >>= f) (toLE w tag ++ bytes) a :=
  (word_reads short w tag hTag).bind h

/-- An enumeration without payload, written as its `w`-byte index. -/
def enumeration (short bad : ε) (w : Nat) (index : α → Nat)
    (ofIndex : Nat → Option α) : Format ε α where
  encode a := toLE w (index a)
  decode := checked (word short w) ofIndex bad

theorem enumeration_lawful (short bad : ε) (w : Nat) {index : α → Nat}
    {ofIndex : Nat → Option α} (hFit : ∀ a, index a < 256 ^ w)
    (hBack : ∀ a, ofIndex (index a) = some a) :
    (enumeration short bad w index ofIndex).Lawful :=
  fun a => (word_reads short w (index a) (hFit a)).checked (hBack a)

end LedgerFS.Library.WireFormat
