import Mathlib.Data.List.Nodup

/-!
# Interned keys

A table that numbers keys in the order in which they are first seen.  The
table is the list of its keys, without repetition: the handle of a key is its
position, counted from one, and the key of a handle is what stands there.

* `key?_eq_some_iff` — handles and keys are inverse to each other.
* `intern` — a known key changes nothing, a new one is put at the end under
  the next handle (`key?_push`).
* `Extends` — one table continues another.  What is bound in a table stays
  bound to the same handle in every table that extends it
  (`Extends.key?_eq_some`).
-/

namespace LedgerFS.Library.Interning

variable {κ : Type}

/-- Distinct keys, in their order of arrival. -/
structure Interned (κ : Type) where
  keys : List κ
  nodup : keys.Nodup

namespace Interned

/-- What handle `n` stands for. -/
def key? (t : Interned κ) : Nat → Option κ
  | 0 => none
  | n + 1 => t.keys[n]?

/-- The key bound to a handle is in the table. -/
theorem mem_of_key? {t : Interned κ} {n : Nat} {k : κ} (h : t.key? n = some k) :
    k ∈ t.keys := by
  cases n with
  | zero => cases h
  | succ n => exact List.mem_of_getElem? h

/-- Handles in use run from one to the number of keys. -/
theorem handle_bounds {t : Interned κ} {n : Nat} {k : κ} (h : t.key? n = some k) :
    1 ≤ n ∧ n ≤ t.keys.length := by
  cases n with
  | zero => cases h
  | succ n =>
      have hLt : n < t.keys.length := (List.getElem?_eq_some_iff.mp h).1
      omega

/-- A key has one handle. -/
theorem key?_injective {t : Interned κ} {m n : Nat} {k : κ} (hm : t.key? m = some k)
    (hn : t.key? n = some k) : m = n := by
  have hmBounds := handle_bounds hm
  have hnBounds := handle_bounds hn
  obtain ⟨m, rfl⟩ : ∃ m', m = m' + 1 := ⟨m - 1, by omega⟩
  obtain ⟨n, rfl⟩ : ∃ n', n = n' + 1 := ⟨n - 1, by omega⟩
  have hLt : m < t.keys.length := by omega
  have hSame : t.keys[m]? = t.keys[n]? := Eq.trans hm (Eq.symm hn)
  rw [(List.getElem?_inj hLt t.nodup).mp hSame]

section Handles

variable [DecidableEq κ]

/-- The handle of `k`, if it has been interned. -/
def handle? (t : Interned κ) (k : κ) : Option Nat :=
  if k ∈ t.keys then some (t.keys.idxOf k + 1) else none

/-- **Handles and keys are inverse.** -/
theorem key?_eq_some_iff (t : Interned κ) (n : Nat) (k : κ) :
    t.key? n = some k ↔ t.handle? k = some n := by
  have hFound (hMem : k ∈ t.keys) : t.key? (t.keys.idxOf k + 1) = some k :=
    List.getElem?_idxOf hMem
  constructor
  · intro h
    have hMem := mem_of_key? h
    rw [handle?, if_pos hMem, key?_injective h (hFound hMem)]
  · intro h
    by_cases hMem : k ∈ t.keys
    · rw [handle?, if_pos hMem] at h
      rw [← Option.some.inj h]
      exact hFound hMem
    · rw [handle?, if_neg hMem] at h
      cases h

theorem handle?_eq_none_iff (t : Interned κ) (k : κ) : t.handle? k = none ↔ k ∉ t.keys := by
  unfold handle?
  split <;> simp [*]

end Handles

/-! ## Interning one more key -/

/-- A new key, put at the end. -/
def push (t : Interned κ) (k : κ) (h : k ∉ t.keys) : Interned κ where
  keys := t.keys ++ [k]
  nodup := by
    rw [List.nodup_append]
    refine ⟨t.nodup, List.nodup_singleton k, ?_⟩
    intro a ha b hb hEq
    rw [List.mem_singleton] at hb
    exact h (hb ▸ hEq ▸ ha)

/-- The new key takes the next handle; every other handle is as before. -/
theorem key?_push (t : Interned κ) (k : κ) (h : k ∉ t.keys) (n : Nat) :
    (t.push k h).key? n = if n = t.keys.length + 1 then some k else t.key? n := by
  cases n with
  | zero =>
      rw [if_neg (by omega)]
      rfl
  | succ n =>
      show (t.keys ++ [k])[n]? = _
      by_cases hEnd : n = t.keys.length
      · subst hEnd
        rw [if_pos rfl, List.getElem?_concat_length]
      · rw [if_neg (by omega)]
        by_cases hIn : n < t.keys.length
        · rw [List.getElem?_append_left hIn]
          rfl
        · show _ = t.keys[n]?
          rw [List.getElem?_eq_none (by simp; omega), List.getElem?_eq_none (by omega)]

theorem handle?_push [DecidableEq κ] (t : Interned κ) (k : κ) (h : k ∉ t.keys) (l : κ) :
    (t.push k h).handle? l = if l = k then some (t.keys.length + 1) else t.handle? l := by
  apply Option.ext
  intro n
  rw [← key?_eq_some_iff, key?_push]
  by_cases hl : l = k
  · subst hl
    rw [if_pos rfl]
    by_cases hn : n = t.keys.length + 1
    · simp [hn]
    · rw [if_neg hn]
      constructor
      · intro hKey
        exact absurd (mem_of_key? hKey) h
      · intro hEnd
        exact absurd (Option.some.inj hEnd).symm hn
  · rw [if_neg hl, ← key?_eq_some_iff]
    by_cases hn : n = t.keys.length + 1
    · rw [if_pos hn]
      constructor
      · intro hNew
        exact absurd (Option.some.inj hNew).symm hl
      · intro hKey
        have hBounds := handle_bounds hKey
        omega
    · rw [if_neg hn]

/-! ## Tables that continue one another -/

/-- `u` has the keys of `t`, in their places, and perhaps more. -/
def Extends (t u : Interned κ) : Prop := t.keys <+: u.keys

theorem Extends.refl (t : Interned κ) : t.Extends t := List.prefix_rfl

theorem Extends.trans {t u v : Interned κ} (h : t.Extends u) (h' : u.Extends v) :
    t.Extends v :=
  List.IsPrefix.trans h h'

theorem Extends.mem {t u : Interned κ} (h : t.Extends u) {k : κ} (hk : k ∈ t.keys) :
    k ∈ u.keys :=
  h.subset hk

/-- **A binding is for good.** -/
theorem Extends.key?_eq_some {t u : Interned κ} (h : t.Extends u) {n : Nat} {k : κ}
    (hk : t.key? n = some k) : u.key? n = some k := by
  obtain ⟨more, hMore⟩ := h
  cases n with
  | zero => cases hk
  | succ n =>
      have hLt : n < t.keys.length := (List.getElem?_eq_some_iff.mp hk).1
      show u.keys[n]? = some k
      rw [← hMore, List.getElem?_append_left hLt]
      exact hk

/-! ## Interning -/

section Interning

variable [DecidableEq κ]

/-- A key is put into the table unless it is there. -/
def intern (t : Interned κ) (k : κ) : Interned κ :=
  if h : k ∈ t.keys then t else t.push k h

theorem intern_of_mem {t : Interned κ} {k : κ} (h : k ∈ t.keys) : t.intern k = t :=
  dif_pos h

theorem intern_of_not_mem {t : Interned κ} {k : κ} (h : k ∉ t.keys) :
    t.intern k = t.push k h :=
  dif_neg h

theorem mem_intern (t : Interned κ) (k l : κ) :
    l ∈ (t.intern k).keys ↔ l ∈ t.keys ∨ l = k := by
  by_cases h : k ∈ t.keys
  · rw [intern_of_mem h]
    constructor
    · exact Or.inl
    · intro hl
      rcases hl with hl | rfl
      · exact hl
      · exact h
  · rw [intern_of_not_mem h]
    show l ∈ t.keys ++ [k] ↔ _
    rw [List.mem_append, List.mem_singleton]

theorem extends_intern (t : Interned κ) (k : κ) : t.Extends (t.intern k) := by
  by_cases h : k ∈ t.keys
  · rw [intern_of_mem h]
    exact Extends.refl t
  · rw [intern_of_not_mem h]
    exact List.prefix_append t.keys [k]

/-- Keys interned one after another. -/
def internAll (t : Interned κ) (ks : List κ) : Interned κ := ks.foldl intern t

theorem mem_internAll (t : Interned κ) (ks : List κ) (l : κ) :
    l ∈ (t.internAll ks).keys ↔ l ∈ t.keys ∨ l ∈ ks := by
  induction ks generalizing t with
  | nil => simp [internAll]
  | cons k ks ih =>
      show l ∈ ((t.intern k).internAll ks).keys ↔ _
      rw [ih, mem_intern, List.mem_cons, or_assoc]

theorem extends_internAll (t : Interned κ) (ks : List κ) : t.Extends (t.internAll ks) := by
  induction ks generalizing t with
  | nil => exact Extends.refl t
  | cons k ks ih => exact (extends_intern t k).trans (ih (t.intern k))

end Interning

end Interned

end LedgerFS.Library.Interning
