import Mathlib.Algebra.Group.Nat.Defs
import Mathlib.Data.List.Induction
import Mathlib.Data.List.Nodup
import Mathlib.Data.List.Perm.Subperm
import Mathlib.Tactic.Tauto

/-!
# Strings, vectors and hash maps of the source

Rust never allocates more than `isize::MAX` bytes for one value, so every
string and vector of the program is shorter than `2 ^ 63`.  `RustString` and
`RustVec` carry that bound, which is what makes a 64-bit length prefix faithful
for every value of the program.

A `HashMap` is modelled with the order in which the instance iterates: equal
maps may iterate differently, since every instance gets its own `RandomState`.
`PartialEq` is the source's `==` on maps, which looks keys up and does not see
the order (`HashMap.partialEq_iff_perm`); `rehash` is the same map built again
under another `RandomState`.
-/

namespace LedgerFS.Core

/-- `String`: UTF-8 text of at most `isize::MAX` bytes. -/
structure RustString where
  text : String
  fits : text.utf8ByteSize < 2 ^ 63
deriving DecidableEq

@[ext] theorem RustString.ext {s t : RustString} (h : s.text = t.text) : s = t := by
  cases s
  cases t
  simp_all

/-- A character takes at most four bytes. -/
theorem utf8ByteSize_ofList_le (cs : List Char) :
    (String.ofList cs).utf8ByteSize ≤ 4 * cs.length := by
  induction cs with
  | nil => simp
  | cons c cs ih =>
      have hSplit : String.ofList (c :: cs) = String.singleton c ++ String.ofList cs := by
        rw [← String.toList_inj]
        simp
      have hChar := Char.utf8Size_le_four c
      rw [hSplit, String.utf8ByteSize_append, String.utf8ByteSize_singleton,
        List.length_cons]
      omega

/-- A short text, by its characters. -/
def RustString.ofChars (cs : List Char) (h : 4 * cs.length < 2 ^ 63) : RustString :=
  ⟨String.ofList cs, Nat.lt_of_le_of_lt (utf8ByteSize_ofList_le cs) h⟩

/-- `Vec<T>`: at most `isize::MAX` elements. -/
structure RustVec (α : Type) where
  items : List α
  fits : items.length < 2 ^ 63
deriving DecidableEq

@[ext] theorem RustVec.ext {α : Type} {v w : RustVec α} (h : v.items = w.items) :
    v = w := by
  cases v
  cases w
  simp_all

/-- `Vec::new`. -/
def RustVec.empty {α : Type} : RustVec α := ⟨[], Nat.two_pow_pos 63⟩

variable {κ υ : Type}

/-- `HashMap<K, V>`: the entries in the instance's iteration order. -/
structure HashMap (κ υ : Type) where
  entries : List (κ × υ)
  nodup : (entries.map Prod.fst).Nodup
  fits : entries.length < 2 ^ 63
deriving DecidableEq

namespace HashMap

@[ext] theorem ext {m n : HashMap κ υ} (h : m.entries = n.entries) : m = n := by
  cases m
  cases n
  simp_all

/-- `HashMap::new`. -/
def empty : HashMap κ υ := ⟨[], List.nodup_nil, Nat.two_pow_pos 63⟩

def len (m : HashMap κ υ) : Nat := m.entries.length

/-- What `insert` does to the stored entries. -/
def insertEntry [DecidableEq κ] : List (κ × υ) → κ × υ → List (κ × υ)
  | [], e => [e]
  | x :: xs, e => if x.1 = e.1 then (x.1, e.2) :: xs else x :: insertEntry xs e

/-- `HashMap::get`. -/
def get [DecidableEq κ] (m : HashMap κ υ) (k : κ) : Option υ :=
  (m.entries.find? fun e => e.1 = k).map Prod.snd

/-- `HashMap`'s `==`: equal length, and every entry of one is found in the
other. -/
def PartialEq [DecidableEq κ] (m n : HashMap κ υ) : Prop :=
  m.len = n.len ∧ ∀ e ∈ m.entries, n.get e.1 = some e.2

instance [DecidableEq κ] [DecidableEq υ] (m n : HashMap κ υ) :
    Decidable (m.PartialEq n) :=
  inferInstanceAs (Decidable (_ ∧ _))

section Equality

variable [DecidableEq κ]

theorem get_eq_some_iff (m : HashMap κ υ) (k : κ) (v : υ) :
    m.get k = some v ↔ (k, v) ∈ m.entries := by
  have hNodup := m.nodup
  unfold get
  generalize m.entries = es at hNodup
  induction es with
  | nil => simp
  | cons x xs ih =>
      simp only [List.map_cons, List.nodup_cons] at hNodup
      obtain ⟨hFresh, hRest⟩ := hNodup
      by_cases hx : x.1 = k
      · have hNot : (k, v) ∉ xs := by
          intro hMem
          exact hFresh (hx ▸ List.mem_map_of_mem (f := Prod.fst) hMem)
        simp only [List.find?_cons, hx, decide_true, Option.map_some,
          Option.some.injEq, List.mem_cons, hNot, or_false]
        constructor
        · intro hv
          exact Prod.ext hx.symm hv.symm
        · intro hv
          exact (congrArg Prod.snd hv).symm
      · have hNe : (k, v) ≠ x := fun h => hx (congrArg Prod.fst h).symm
        simp only [List.find?_cons, hx, decide_false, ih hRest, List.mem_cons,
          hNe, false_or]

/-- **Equality of maps** forgets the iteration order and nothing else. -/
theorem partialEq_iff_perm (m n : HashMap κ υ) :
    m.PartialEq n ↔ m.entries.Perm n.entries := by
  have hm : m.entries.Nodup := List.Nodup.of_map Prod.fst m.nodup
  constructor
  · rintro ⟨hLen, hGet⟩
    have hSub : m.entries ⊆ n.entries := fun e he =>
      (n.get_eq_some_iff e.1 e.2).mp (hGet e he)
    exact (List.subperm_of_subset hm hSub).perm_of_length_le (Nat.le_of_eq hLen.symm)
  · intro hPerm
    refine ⟨hPerm.length_eq, fun e he => ?_⟩
    exact (n.get_eq_some_iff e.1 e.2).mpr (hPerm.mem_iff.mp he)

theorem PartialEq.refl (m : HashMap κ υ) : m.PartialEq m :=
  (partialEq_iff_perm m m).mpr (List.Perm.refl _)

theorem PartialEq.symm {m n : HashMap κ υ} (h : m.PartialEq n) : n.PartialEq m :=
  (partialEq_iff_perm n m).mpr ((partialEq_iff_perm m n).mp h).symm

theorem PartialEq.trans {l m n : HashMap κ υ} (h : l.PartialEq m) (h' : m.PartialEq n) :
    l.PartialEq n :=
  (partialEq_iff_perm l n).mpr
    (((partialEq_iff_perm l m).mp h).trans ((partialEq_iff_perm m n).mp h'))

/-- A map with at most one entry has only one iteration order. -/
theorem PartialEq.eq_of_len_le_one {m n : HashMap κ υ} (h : m.PartialEq n)
    (hLen : m.len ≤ 1) : m = n := by
  have hPerm := (partialEq_iff_perm m n).mp h
  apply HashMap.ext
  match hm : m.entries, hLen with
  | [], _ =>
      rw [hm] at hPerm
      exact hPerm.nil_eq
  | [e], _ =>
      rw [hm] at hPerm
      exact List.singleton_perm.mp hPerm
  | _ :: _ :: _, hLen => simp [len, hm] at hLen

end Equality

/-! ## Building a map -/

section Build

variable [DecidableEq κ]

/-- Inserting entries one by one, a later value replacing an earlier one. -/
def insertAll (es : List (κ × υ)) : List (κ × υ) := es.foldl insertEntry []

private theorem mem_keys_insertEntry (es : List (κ × υ)) (e : κ × υ) (k : κ) :
    k ∈ (insertEntry es e).map Prod.fst ↔ k ∈ es.map Prod.fst ∨ k = e.1 := by
  induction es with
  | nil => simp [insertEntry]
  | cons x xs ih =>
      unfold insertEntry
      by_cases hx : x.1 = e.1
      · simp only [hx, if_true, List.map_cons, List.mem_cons]
        tauto
      · simp only [hx, if_false, List.map_cons, List.mem_cons, ih]
        tauto

private theorem nodup_insertEntry (es : List (κ × υ)) (e : κ × υ)
    (h : (es.map Prod.fst).Nodup) : ((insertEntry es e).map Prod.fst).Nodup := by
  induction es with
  | nil => simp [insertEntry]
  | cons x xs ih =>
      simp only [List.map_cons, List.nodup_cons] at h
      unfold insertEntry
      by_cases hx : x.1 = e.1
      · simpa only [hx, if_true, List.map_cons, List.nodup_cons] using hx ▸ h
      · simp only [hx, if_false, List.map_cons, List.nodup_cons]
        refine ⟨fun hMem => ?_, ih h.2⟩
        rcases (mem_keys_insertEntry xs e x.1).mp hMem with hOld | hNew
        · exact h.1 hOld
        · exact hx hNew

private theorem length_insertEntry_le (es : List (κ × υ)) (e : κ × υ) :
    (insertEntry es e).length ≤ es.length + 1 := by
  induction es with
  | nil => simp [insertEntry]
  | cons x xs ih =>
      unfold insertEntry
      split
      · simp
      · simpa using ih

private theorem insertEntry_fresh (es : List (κ × υ)) (e : κ × υ)
    (h : e.1 ∉ es.map Prod.fst) : insertEntry es e = es ++ [e] := by
  induction es with
  | nil => rfl
  | cons x xs ih =>
      simp only [List.map_cons, List.mem_cons, not_or] at h
      simp [insertEntry, Ne.symm h.1, ih h.2]

private theorem insertAll_append (es : List (κ × υ)) (e : κ × υ) :
    insertAll (es ++ [e]) = insertEntry (insertAll es) e := by
  simp [insertAll]

theorem nodup_insertAll (es : List (κ × υ)) :
    ((insertAll es).map Prod.fst).Nodup := by
  induction es using List.reverseRecOn with
  | nil => simp [insertAll]
  | append_singleton es e ih =>
      rw [insertAll_append]
      exact nodup_insertEntry _ e ih

theorem length_insertAll_le (es : List (κ × υ)) :
    (insertAll es).length ≤ es.length := by
  induction es using List.reverseRecOn with
  | nil => simp [insertAll]
  | append_singleton es e ih =>
      rw [insertAll_append]
      have := length_insertEntry_le (insertAll es) e
      simp only [List.length_append, List.length_singleton]
      omega

/-- Entries with distinct keys are kept as they come. -/
theorem insertAll_eq_self (es : List (κ × υ)) (h : (es.map Prod.fst).Nodup) :
    insertAll es = es := by
  induction es using List.reverseRecOn with
  | nil => rfl
  | append_singleton es e ih =>
      rw [List.map_append, List.nodup_append] at h
      obtain ⟨hes, -, hDisjoint⟩ := h
      have hFresh : e.1 ∉ es.map Prod.fst := fun hMem =>
        hDisjoint e.1 hMem e.1 (by simp) rfl
      rw [insertAll_append, ih hes, insertEntry_fresh es e hFresh]

/-- A map filled from entries, in their order of arrival. -/
def ofEntries (es : List (κ × υ)) (h : es.length < 2 ^ 63) : HashMap κ υ where
  entries := insertAll es
  nodup := nodup_insertAll es
  fits := Nat.lt_of_le_of_lt (length_insertAll_le es) h

@[simp] theorem ofEntries_entries (m : HashMap κ υ) :
    ofEntries m.entries m.fits = m :=
  HashMap.ext (insertAll_eq_self m.entries m.nodup)

end Build

/-! ## Iteration order -/

/-- `RandomState`: the seed of one map instance, which settles the order in
which it iterates. -/
structure RandomState (κ υ : Type) where
  order : List (κ × υ) → List (κ × υ)
  perm : ∀ es, (order es).Perm es

/-- Entries in their order of arrival. -/
def RandomState.arrival : RandomState κ υ := ⟨id, fun _ => List.Perm.refl _⟩

/-- The same map, built by an instance with its own seed. -/
def rehash (rs : RandomState κ υ) (m : HashMap κ υ) : HashMap κ υ where
  entries := rs.order m.entries
  nodup := ((rs.perm m.entries).map Prod.fst).nodup_iff.mpr m.nodup
  fits := (rs.perm m.entries).length_eq ▸ m.fits

theorem rehash_partialEq [DecidableEq κ] (rs : RandomState κ υ) (m : HashMap κ υ) :
    (m.rehash rs).PartialEq m :=
  (partialEq_iff_perm _ _).mpr (rs.perm m.entries)

end HashMap

end LedgerFS.Core
