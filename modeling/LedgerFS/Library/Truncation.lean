import LedgerFS.Library.WireFormat

/-!
# Input that ends too soon

A reader is incremental when more input changes its outcome only where it failed because
the input was too short (`Incremental`).  The readers of wire formats are, since they take
their bytes off the front and fail with `short` when there are too few of them.

Where a reader is incremental and reads every encoding, every proper beginning of an encoding
is refused, and with that one error (`Format.ReadsAs.truncated`).
-/

namespace LedgerFS.Library.WireFormat

variable {ε α β : Type}

/-- More input changes nothing but failures for want of input. -/
structure Incremental (short : ε) (p : Decoder ε α) : Prop where
  ok : ∀ {bytes a rest}, p.run bytes = .ok (a, rest) →
    ∀ more, p.run (bytes ++ more) = .ok (a, rest ++ more)
  error : ∀ {bytes bad}, p.run bytes = .error bad → bad ≠ short →
    ∀ more, p.run (bytes ++ more) = .error bad

namespace Incremental

variable {short : ε}

theorem pure (a : α) : Incremental short (Pure.pure a : Decoder ε α) where
  ok h _ := by
    cases h
    rfl
  error h := by cases h

theorem throw (bad : ε) : Incremental short (MonadExcept.throw bad : Decoder ε α) where
  ok h := by cases h
  error h _ _ := by
    cases h
    rfl

/-- **Sequencing**. -/
theorem bind {p : Decoder ε α} {f : α → Decoder ε β} (hp : Incremental short p)
    (hf : ∀ a, Incremental short (f a)) : Incremental short (p >>= f) where
  ok h more := by
    obtain ⟨a, rest, hHead, hTail⟩ := bind_eq_ok h
    rw [StateT.run_bind, hp.ok hHead more]
    exact (hf a).ok hTail more
  error {bytes bad} h hBad more := by
    rw [StateT.run_bind] at h ⊢
    cases hHead : p.run bytes with
    | error bad' =>
        rw [hHead] at h
        cases h
        rw [hp.error hHead hBad more]
        rfl
    | ok head =>
        rw [hHead] at h
        rw [hp.ok hHead more]
        exact (hf head.1).error h hBad more

theorem map {p : Decoder ε α} (hp : Incremental short p) (f : α → β) :
    Incremental short (p >>= fun a => Pure.pure (f a)) :=
  hp.bind fun a => pure (f a)

theorem checked {p : Decoder ε α} (hp : Incremental short p) (accept : α → Option β)
    (bad : ε) : Incremental short (checked p accept bad) := by
  refine hp.bind fun a => ?_
  cases accept a with
  | some b => exact pure b
  | none => exact throw bad

theorem takeBytes (short : ε) (n : Nat) : Incremental short (takeBytes short n) where
  ok {bytes _ _} h more := by
    change (if n ≤ bytes.length then .ok (bytes.take n, bytes.drop n) else .error short :
      Except ε _) = _ at h
    by_cases hEnough : n ≤ bytes.length
    · rw [if_pos hEnough] at h
      cases h
      have hMore : n ≤ (bytes ++ more).length := by
        rw [List.length_append]
        omega
      show (if n ≤ (bytes ++ more).length then
        .ok ((bytes ++ more).take n, (bytes ++ more).drop n) else .error short :
          Except ε _) = _
      rw [if_pos hMore, List.take_append_of_le_length hEnough,
        List.drop_append_of_le_length hEnough]
    · rw [if_neg hEnough] at h
      cases h
  error {bytes bad} h hBad _ := by
    change (if n ≤ bytes.length then .ok (bytes.take n, bytes.drop n) else .error short :
      Except ε _) = _ at h
    by_cases hEnough : n ≤ bytes.length
    · rw [if_pos hEnough] at h
      cases h
    · rw [if_neg hEnough] at h
      cases h
      exact absurd rfl hBad

theorem word (short : ε) (w : Nat) : Incremental short (word short w) :=
  (takeBytes short w).map _

theorem replicateM {p : Decoder ε α} (hp : Incremental short p) (n : Nat) :
    Incremental short (replicateM p n) := by
  induction n with
  | zero => exact pure []
  | succ n ih => exact hp.bind fun a => ih.map fun as => a :: as

theorem wrap {fmt : Format ε α} (h : Incremental short fmt.decode) (into : α → β)
    (out : β → α) : Incremental short (fmt.wrap into out).decode :=
  h.map into

theorem pair {f : Format ε α} {g : Format ε β} (hf : Incremental short f.decode)
    (hg : Incremental short g.decode) : Incremental short (pair f g).decode :=
  hf.bind fun _ => hg.map _

theorem option (short bad : ε) {fmt : Format ε α} (h : Incremental short fmt.decode) :
    Incremental short (option short bad fmt).decode := by
  refine (word short 1).bind fun tag => ?_
  split
  · exact pure none
  · exact h.map some
  · exact throw bad

theorem enumeration (short bad : ε) (w : Nat) (index : α → Nat) (ofIndex : Nat → Option α) :
    Incremental short (enumeration short bad w index ofIndex).decode :=
  (word short w).checked ofIndex bad

end Incremental

/-- **Truncation**: what is left of an encoding that was cut is refused as too short. -/
theorem Format.ReadsAs.truncated {short : ε} {fmt : Format ε α} {g : α → α} (h : fmt.ReadsAs g)
    (hIncremental : Incremental short fmt.decode) (a : α) {n : Nat}
    (hn : n < (fmt.encode a).length) :
    fmt.decode.run ((fmt.encode a).take n) = .error short := by
  have hWhole : fmt.decode.run ((fmt.encode a).take n ++ (fmt.encode a).drop n) =
      .ok (g a, []) := by
    rw [List.take_append_drop]
    have hAll := h a []
    rwa [List.append_nil] at hAll
  cases hCut : fmt.decode.run ((fmt.encode a).take n) with
  | ok result =>
      obtain ⟨b, rest⟩ := result
      have hMore := hIncremental.ok hCut ((fmt.encode a).drop n)
      rw [hWhole] at hMore
      have hRest : rest ++ (fmt.encode a).drop n = [] := (Prod.mk.inj (Except.ok.inj hMore)).2.symm
      have hDrop : (fmt.encode a).length ≤ n :=
        List.drop_eq_nil_iff.mp (List.append_eq_nil_iff.mp hRest).2
      omega
  | error bad =>
      by_cases hBad : bad = short
      · rw [hBad]
      · have hMore := hIncremental.error hCut hBad ((fmt.encode a).drop n)
        rw [hWhole] at hMore
        cases hMore

end LedgerFS.Library.WireFormat
