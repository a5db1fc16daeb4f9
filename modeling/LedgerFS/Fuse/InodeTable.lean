import Mathlib.Logic.Relation
import LedgerFS.Fuse.Filesystem
import LedgerFS.Library.Interning

/-!
# The inode table

Both maps and the counter together are one table of interned paths: inode `i`
stands for the path interned as the `i`-th (`Represents`).  Every action on a
filesystem interns some paths, each the path of a name below a known inode,
and does nothing else to the table (`after_enters`, `after_eq`).

A world is the filesystem built by `new` with the clones made of it and of
them; each of these acts by itself.  Inodes are `u64`: a run hands out fewer
than `2 ^ 64 - 5` of them in any one filesystem.

* `inodeTable_stable` — in every reachable world the two maps of each
  filesystem are inverse to each other, inodes in use are below the counter
  and the four fixed paths keep their inodes; and no pair is ever lost.
-/

namespace LedgerFS.Fuse

open LedgerFS.Core
open LedgerFS.Library.Interning

variable {ε : Type}

/-! ## Runs -/

/-- What is asked of one filesystem. -/
inductive Action
  | lookup (parent : UInt64) (name : String)
  | getattr (ino : UInt64)
  | read (ino : UInt64) (offset : Int64) (size : UInt32)
  | readdir (full : Full) (ino : UInt64) (offset : Int64)

namespace LedgerFilesystem

/-- The filesystem after an action.  `getattr` and `read` have none to give. -/
def after (fs : LedgerFilesystem) (repos : Repositories ε) (now : UInt64) :
    Action → LedgerFilesystem
  | .lookup parent name => (fs.lookup now parent name).2
  | .getattr _ => fs
  | .read _ _ _ => fs
  | .readdir full ino offset => (fs.readdir repos full ino offset).2

/-- How many inodes have been handed out: `new` starts with four paths. -/
def allocations (fs : LedgerFilesystem) : Nat := fs.pathMap.size - 4

end LedgerFilesystem

/-- A filesystem and its clones, in the order in which they were made. -/
abbrev World : Type := List LedgerFilesystem

/-- One of the filesystems acts, or is cloned. -/
inductive Step (ε : Type) : World → World → Prop
  | act {w : World} {k : Nat} {fs : LedgerFilesystem} (repos : Repositories ε)
      (now : UInt64) (action : Action) (here : w[k]? = some fs)
      (room : (fs.after repos now action).allocations < 2 ^ 64 - 5) :
      Step ε w (w.set k (fs.after repos now action))
  | clone {w : World} {k : Nat} {fs : LedgerFilesystem} (here : w[k]? = some fs) :
      Step ε w (w ++ [fs.clone])

/-- Any number of steps. -/
abbrev Run (ε : Type) : World → World → Prop := Relation.ReflTransGen (Step ε)

/-- Reached from the filesystem `new` builds. -/
def Reachable (ε : Type) (w : World) : Prop := Run ε [LedgerFilesystem.new] w

/-! ## What an action does to the table -/

namespace LedgerFilesystem

/-- The paths named one after another. -/
def allocate (fs : LedgerFilesystem) (paths : List String) : LedgerFilesystem :=
  paths.foldl (fun fs path => (fs.getOrCreateInode path).2) fs

@[simp] theorem allocate_nil (fs : LedgerFilesystem) : fs.allocate [] = fs := rfl

@[simp] theorem allocate_cons (fs : LedgerFilesystem) (path : String) (paths : List String) :
    fs.allocate (path :: paths) = (fs.getOrCreateInode path).2.allocate paths := rfl

theorem listEntries_snd (fs : LedgerFilesystem) (accounts : List String) :
    (fs.listEntries accounts).2 = fs.allocate (accounts.map fun id => "/accounts/" ++ id) := by
  induction accounts generalizing fs with
  | nil => rfl
  | cons account accounts ih => exact ih _

/-- The path of a name below a known inode. -/
def IsChild (fs : LedgerFilesystem) (path : String) : Prop :=
  ∃ ino parent name, fs.getPath ino = some parent ∧ path = childPath parent name

/-- The paths an action names: the one that is looked for, or some below
`/accounts` when that or an account is listed. -/
def Names (fs : LedgerFilesystem) (path : String) : Action → Prop
  | .lookup parent name =>
      ∃ parentPath, fs.getPath parent = some parentPath ∧ path = childPath parentPath name
  | .readdir _ ino _ =>
      ∃ parentPath name, fs.getPath ino = some parentPath ∧ path = childPath parentPath name ∧
        (parentPath = "/accounts" ∨ underAccounts parentPath = true)
  | _ => False

theorem Names.isChild {fs : LedgerFilesystem} {path : String} {action : Action}
    (h : fs.Names path action) : fs.IsChild path := by
  cases action with
  | lookup parent name =>
      obtain ⟨parentPath, hPath, hChild⟩ := h
      exact ⟨parent, parentPath, name, hPath, hChild⟩
  | readdir full ino offset =>
      obtain ⟨parentPath, name, hPath, hChild, -⟩ := h
      exact ⟨ino, parentPath, name, hPath, hChild⟩
  | getattr ino => exact h.elim
  | read ino offset size => exact h.elim

/-- The path may get its inode from the action: of what is named below `/accounts`, only
accounts, and only the two files of an account. -/
def Enters (fs : LedgerFilesystem) (path : String) : Action → Prop
  | .lookup parent name =>
      ∃ parentPath, fs.getPath parent = some parentPath ∧ path = childPath parentPath name
  | .readdir _ ino _ =>
      ∃ parentPath name, fs.getPath ino = some parentPath ∧ path = childPath parentPath name ∧
        ((parentPath = "/accounts" ∧ ∃ id, name = accountText id) ∨
          (underAccounts parentPath = true ∧ name ∈ ["balance.json", "tx.log"]))
  | _ => False

theorem Enters.names {fs : LedgerFilesystem} {path : String} {action : Action}
    (h : fs.Enters path action) : fs.Names path action := by
  cases action with
  | lookup parent name => exact h
  | readdir full ino offset =>
      obtain ⟨parentPath, name, hPath, hChild, hKind⟩ := h
      exact ⟨parentPath, name, hPath, hChild, hKind.imp And.left And.left⟩
  | getattr ino => exact h
  | read ino offset size => exact h

/-- A known path is found by both looks. -/
theorem getOrCreateInode_of_some {fs : LedgerFilesystem} {path : String} {inode : UInt64}
    (h : fs.pathMap[path]? = some inode) : fs.getOrCreateInode path = (inode, fs) := by
  rw [getOrCreateInode, h]

/-- A new path takes the next inode. -/
theorem getOrCreateInode_of_none {fs : LedgerFilesystem} {path : String}
    (h : fs.pathMap[path]? = none) :
    fs.getOrCreateInode path =
      (fs.nextInode,
        { inodeMap := fs.inodeMap.insert fs.nextInode path
          pathMap := fs.pathMap.insert path fs.nextInode
          nextInode := fs.nextInode + 1 }) := by
  simp only [getOrCreateInode, createInode, h]

/-- Listed accounts are accounts. -/
theorem exists_account_of_mem {repos : Repositories ε} {accounts : List String}
    (h : listAccounts repos = .ok accounts)
    {name : String} (hName : name ∈ accounts) : ∃ id, name = accountText id := by
  unfold listAccounts at h
  split at h
  · cases h
  · rw [← Except.ok.inj h] at hName
    obtain ⟨acc, -, rfl⟩ := List.mem_map.mp hName
    exact ⟨acc.id, rfl⟩

/-- An arm of `readdir` names children of the listed path only: the accounts below
`/accounts`, the two files below an account, and none below any other path. -/
theorem entries_snd (fs : LedgerFilesystem) (repos : Repositories ε) (ino : UInt64)
    (path : String) :
    ∃ names : List String,
      (fs.entries repos ino path).2 = fs.allocate (names.map (childPath path)) ∧
        ∀ name ∈ names, (path = "/accounts" ∧ ∃ id, name = accountText id) ∨
          (underAccounts path = true ∧ name ∈ ["balance.json", "tx.log"]) := by
  have hQuiet : ∃ names : List String, fs = fs.allocate (names.map (childPath path)) ∧
      ∀ name ∈ names, (path = "/accounts" ∧ ∃ id, name = accountText id) ∨
        (underAccounts path = true ∧ name ∈ ["balance.json", "tx.log"]) :=
    ⟨[], rfl, fun _ h => absurd h List.not_mem_nil⟩
  unfold entries
  by_cases hAccounts : path = "/accounts"
  · subst hAccounts
    rw [if_neg (by decide), if_pos rfl]
    cases hList : listAccounts repos with
    | error _ => exact hQuiet
    | ok accounts =>
        exact ⟨accounts, listEntries_snd fs accounts,
          fun _ hName => Or.inl ⟨rfl, exists_account_of_mem hList hName⟩⟩
  · by_cases hRoot : path = "/"
    · rw [if_pos hRoot]
      exact hQuiet
    · rw [if_neg hRoot, if_neg hAccounts]
      by_cases hAccount : underAccounts path = true
      · rw [if_pos hAccount]
        refine ⟨["balance.json", "tx.log"], ?_, fun _ hName => Or.inr ⟨hAccount, hName⟩⟩
        rw [List.map_cons, List.map_cons, childPath_of_ne hRoot, childPath_of_ne hRoot,
          String.append_assoc, String.append_assoc]
        rfl
      · rw [if_neg hAccount]
        split
        · exact hQuiet
        · split <;> exact hQuiet

theorem lookup_snd {fs : LedgerFilesystem} {parent : UInt64} {parentPath : String}
    (now : UInt64) (h : fs.getPath parent = some parentPath) (name : String) :
    (fs.lookup now parent name).2 = fs.allocate [childPath parentPath name] := by
  simp only [lookup, h]
  rfl

/-- A known name is answered from the table. -/
theorem lookup_of_known {fs : LedgerFilesystem} {parent inode : UInt64} {parentPath name : String}
    (now : UInt64) (hParent : fs.getPath parent = some parentPath)
    (hInode : fs.pathMap[childPath parentPath name]? = some inode) :
    fs.lookup now parent name =
      (.entry TTL (createFileAttr now inode 0 (lookupIsDir (childPath parentPath name))) 0,
        fs) := by
  simp only [lookup, hParent, getOrCreateInode_of_some hInode]

theorem readdir_snd {fs : LedgerFilesystem} {ino : UInt64} {path : String}
    (h : fs.getPath ino = some path) (repos : Repositories ε) (full : Full)
    (offset : Int64) :
    (fs.readdir repos full ino offset).2 = (fs.entries repos ino path).2 := by
  simp only [readdir, h]
  split <;> simp [*]

/-- **All an action does** to the table is to enter some paths. -/
theorem after_enters (fs : LedgerFilesystem) (repos : Repositories ε) (now : UInt64)
    (action : Action) :
    ∃ paths, fs.after repos now action = fs.allocate paths ∧
      ∀ path ∈ paths, fs.Enters path action := by
  have hQuiet : ∃ paths, fs = fs.allocate paths ∧ ∀ path ∈ paths, fs.Enters path action :=
    ⟨[], rfl, by simp⟩
  cases action with
  | lookup parent name =>
      cases hPath : fs.getPath parent with
      | none =>
          show ∃ paths, (fs.lookup now parent name).2 = fs.allocate paths ∧ _
          simpa only [lookup, hPath] using hQuiet
      | some parentPath =>
          refine ⟨[childPath parentPath name], lookup_snd now hPath name, ?_⟩
          intro path hMem
          exact ⟨parentPath, hPath, List.mem_singleton.mp hMem⟩
  | getattr ino => exact hQuiet
  | read ino offset size => exact hQuiet
  | readdir full ino offset =>
      cases hPath : fs.getPath ino with
      | none =>
          show ∃ paths, (fs.readdir repos full ino offset).2 = fs.allocate paths ∧ _
          simpa only [readdir, hPath] using hQuiet
      | some path =>
          obtain ⟨names, hNames, hKind⟩ := fs.entries_snd repos ino path
          refine ⟨names.map (childPath path), (readdir_snd hPath repos full offset).trans hNames,
            ?_⟩
          intro child hMem
          obtain ⟨name, hName, rfl⟩ := List.mem_map.mp hMem
          exact ⟨path, name, hPath, rfl, hKind name hName⟩

/-- They are children of a known inode. -/
theorem after_eq (fs : LedgerFilesystem) (repos : Repositories ε) (now : UInt64)
    (action : Action) :
    ∃ paths, fs.after repos now action = fs.allocate paths ∧
      ∀ path ∈ paths, fs.Names path action := by
  obtain ⟨paths, hAfter, hEnters⟩ := fs.after_enters repos now action
  exact ⟨paths, hAfter, fun path hPath => (hEnters path hPath).names⟩

theorem size_getOrCreateInode_le (fs : LedgerFilesystem) (path : String) :
    fs.pathMap.size ≤ (fs.getOrCreateInode path).2.pathMap.size := by
  cases h : fs.pathMap[path]? with
  | some inode => rw [getOrCreateInode_of_some h]
  | none =>
      rw [getOrCreateInode_of_none h]
      exact Std.HashMap.size_le_size_insert

theorem size_allocate_le (fs : LedgerFilesystem) (paths : List String) :
    fs.pathMap.size ≤ (fs.allocate paths).pathMap.size := by
  induction paths generalizing fs with
  | nil => exact Nat.le_refl _
  | cons path paths ih =>
      exact Nat.le_trans (fs.size_getOrCreateInode_le path) (ih _)

end LedgerFilesystem

/-! ## The table of interned paths -/

/-- The maps and the counter hold the table `t`. -/
structure Represents (fs : LedgerFilesystem) (t : Interned String) : Prop where
  inode (i : UInt64) : fs.inodeMap[i]? = t.key? i.toNat
  path (p : String) : (fs.pathMap[p]?).map UInt64.toNat = t.handle? p
  size : fs.pathMap.size = t.keys.length
  next : fs.nextInode.toNat = t.keys.length + 1

namespace Represents

variable {fs : LedgerFilesystem} {t : Interned String}

theorem getPath_iff (h : Represents fs t) (i : UInt64) (p : String) :
    fs.getPath i = some p ↔ t.key? i.toNat = some p := by
  rw [LedgerFilesystem.getPath, h.inode]

theorem pathMap_iff (h : Represents fs t) (i : UInt64) (p : String) :
    fs.pathMap[p]? = some i ↔ t.key? i.toNat = some p := by
  rw [t.key?_eq_some_iff, ← h.path, Option.map_eq_some_iff]
  constructor
  · intro hi
    exact ⟨i, hi, rfl⟩
  · intro hSome
    obtain ⟨j, hj, hEq⟩ := hSome
    rw [hj, UInt64.toNat_inj.mp hEq]

theorem pathMap_eq_none_iff (h : Represents fs t) (p : String) :
    fs.pathMap[p]? = none ↔ p ∉ t.keys := by
  rw [← t.handle?_eq_none_iff, ← h.path, Option.map_eq_none_iff]

/-- A path of the table is known under some inode. -/
theorem exists_inode (h : Represents fs t) {p : String} (hp : p ∈ t.keys) :
    ∃ i : UInt64, t.key? i.toNat = some p := by
  cases hInode : fs.pathMap[p]? with
  | none => exact absurd hp ((h.pathMap_eq_none_iff p).mp hInode)
  | some i => exact ⟨i, (h.pathMap_iff i p).mp hInode⟩

theorem mem_of_getPath (h : Represents fs t) {i : UInt64} {p : String}
    (hp : fs.getPath i = some p) : p ∈ t.keys :=
  Interned.mem_of_key? ((h.getPath_iff i p).mp hp)

/-- **One name interned.** -/
theorem getOrCreate (h : Represents fs t) (p : String)
    (hRoom : (fs.getOrCreateInode p).2.allocations < 2 ^ 64 - 5) :
    Represents (fs.getOrCreateInode p).2 (t.intern p) ∧
      (t.intern p).key? (fs.getOrCreateInode p).1.toNat = some p := by
  cases hInode : fs.pathMap[p]? with
  | some inode =>
      have hKey := (h.pathMap_iff inode p).mp hInode
      rw [LedgerFilesystem.getOrCreateInode_of_some hInode,
        Interned.intern_of_mem (Interned.mem_of_key? hKey)]
      exact ⟨h, hKey⟩
  | none =>
      have hNew := (h.pathMap_eq_none_iff p).mp hInode
      have hFresh : p ∉ fs.pathMap := by
        rw [Std.HashMap.mem_iff_isSome_getElem?, hInode]
        simp
      have hSize : (fs.pathMap.insert p fs.nextInode).size = t.keys.length + 1 := by
        rw [Std.HashMap.size_insert, if_neg hFresh, h.size]
      have hLength : (t.push p hNew).keys.length = t.keys.length + 1 := List.length_append
      rw [LedgerFilesystem.getOrCreateInode_of_none hInode] at hRoom ⊢
      rw [LedgerFilesystem.allocations, hSize] at hRoom
      rw [Interned.intern_of_not_mem hNew]
      have hNext := h.next
      refine ⟨⟨?_, ?_, ?_, ?_⟩, ?_⟩
      · intro i
        show (fs.inodeMap.insert fs.nextInode p)[i]? = _
        rw [Std.HashMap.getElem?_insert, Interned.key?_push, h.inode]
        by_cases hi : fs.nextInode = i
        · subst hi
          simp [hNext]
        · have hNe : i.toNat ≠ t.keys.length + 1 := fun hEq =>
            hi (UInt64.toNat_inj.mp (hNext.trans hEq.symm))
          simp [hi, hNe]
      · intro q
        show ((fs.pathMap.insert p fs.nextInode)[q]?).map UInt64.toNat = _
        rw [Std.HashMap.getElem?_insert, Interned.handle?_push, ← h.path]
        by_cases hq : p = q
        · simp [hq, hNext]
        · simp [hq, Ne.symm hq]
      · exact hSize.trans hLength.symm
      · show (fs.nextInode + 1).toNat = _
        rw [hLength, UInt64.toNat_add, hNext]
        show (t.keys.length + 1 + 1) % 2 ^ 64 = t.keys.length + 1 + 1
        omega
      · show (t.push p hNew).key? fs.nextInode.toNat = some p
        rw [Interned.key?_push, if_pos hNext]

/-- **Names interned one after another.** -/
theorem allocate (h : Represents fs t) (paths : List String)
    (hRoom : (fs.allocate paths).allocations < 2 ^ 64 - 5) :
    Represents (fs.allocate paths) (t.internAll paths) := by
  induction paths generalizing fs t with
  | nil => exact h
  | cons p paths ih =>
      have hSize := (fs.getOrCreateInode p).2.size_allocate_le paths
      have hFirst : (fs.getOrCreateInode p).2.allocations < 2 ^ 64 - 5 := by
        simp only [LedgerFilesystem.allocations, LedgerFilesystem.allocate_cons] at hRoom ⊢
        omega
      exact ih (h.getOrCreate p hFirst).1 hRoom

end Represents

/-! ## The invariant of a filesystem -/

/-- The paths `new` puts into the table. -/
def fixedPaths : Interned String where
  keys := ["/", "/accounts", "/transactions", "/docs"]
  nodup := by decide

/-- Every path but the root is the path of a name below another one. -/
def Rooted (t : Interned String) : Prop :=
  ∀ p ∈ t.keys, p = "/" ∨ ∃ parent ∈ t.keys, ∃ name, p = childPath parent name

/-- A filesystem holds a table that starts with the fixed paths and has a
parent for each path. -/
structure Holds (fs : LedgerFilesystem) (t : Interned String) : Prop where
  represents : Represents fs t
  fixed : fixedPaths.Extends t
  rooted : Rooted t

/-- No paths yet, and the first inode to give is 1. -/
private def blank : LedgerFilesystem where
  inodeMap := Std.HashMap.emptyWithCapacity
  pathMap := Std.HashMap.emptyWithCapacity
  nextInode := 1

private theorem represents_blank : Represents blank ⟨[], List.nodup_nil⟩ where
  inode i := by
    rw [blank, Std.HashMap.getElem?_emptyWithCapacity]
    cases i.toNat <;> rfl
  path p := by
    rw [blank, Std.HashMap.getElem?_emptyWithCapacity]
    rfl
  size := Std.HashMap.size_emptyWithCapacity
  next := rfl

/-- The constructor's insertions are those of four names. -/
private theorem new_eq_allocate : LedgerFilesystem.new = blank.allocate fixedPaths.keys := by
  show _ = blank.allocate ["/", "/accounts", "/transactions", "/docs"]
  rw [LedgerFilesystem.allocate_cons,
    LedgerFilesystem.getOrCreateInode_of_none (by simp [blank]),
    LedgerFilesystem.allocate_cons,
    LedgerFilesystem.getOrCreateInode_of_none (by simp [blank]),
    LedgerFilesystem.allocate_cons,
    LedgerFilesystem.getOrCreateInode_of_none (by simp [blank]),
    LedgerFilesystem.allocate_cons,
    LedgerFilesystem.getOrCreateInode_of_none (by simp [blank])]
  rfl

theorem allocations_new : LedgerFilesystem.new.allocations = 0 := by
  simp [LedgerFilesystem.allocations, LedgerFilesystem.new, Std.HashMap.size_insert]

/-- **The filesystem `new` builds** holds the fixed paths. -/
theorem holds_new : Holds LedgerFilesystem.new fixedPaths where
  represents := by
    have hTable : (⟨[], List.nodup_nil⟩ : Interned String).internAll fixedPaths.keys =
        fixedPaths := rfl
    have hRoom := allocations_new
    rw [new_eq_allocate] at hRoom ⊢
    rw [← hTable]
    exact represents_blank.allocate fixedPaths.keys (by omega)
  fixed := Interned.Extends.refl fixedPaths
  rooted := by
    have hFixed : ∀ p ∈ fixedPaths.keys, p = "/" ∨
        ∃ name ∈ ["accounts", "transactions", "docs"], p = childPath "/" name := by decide
    intro p hp
    rcases hFixed p hp with hRoot | ⟨name, -, hName⟩
    · exact Or.inl hRoot
    · exact Or.inr ⟨"/", by decide, name, hName⟩

namespace Holds

variable {fs : LedgerFilesystem} {t : Interned String}

/-- Naming children of known paths keeps the invariant. -/
theorem allocate (h : Holds fs t) (paths : List String) (hChild : ∀ p ∈ paths, fs.IsChild p)
    (hRoom : (fs.allocate paths).allocations < 2 ^ 64 - 5) :
    Holds (fs.allocate paths) (t.internAll paths) where
  represents := h.represents.allocate paths hRoom
  fixed := h.fixed.trans (t.extends_internAll paths)
  rooted := by
    have hExtends := t.extends_internAll paths
    intro p hp
    rcases (t.mem_internAll paths p).mp hp with hOld | hNew
    · rcases h.rooted p hOld with hRoot | ⟨parent, hParent, hName⟩
      · exact Or.inl hRoot
      · exact Or.inr ⟨parent, hExtends.mem hParent, hName⟩
    · obtain ⟨ino, parent, name, hPath, hChildPath⟩ := hChild p hNew
      exact Or.inr ⟨parent, hExtends.mem (h.represents.mem_of_getPath hPath), name, hChildPath⟩

/-- **One action** keeps the invariant and what is in the table. -/
theorem after (h : Holds fs t) (repos : Repositories ε) (now : UInt64) (action : Action)
    (hRoom : (fs.after repos now action).allocations < 2 ^ 64 - 5) :
    ∃ u, Holds (fs.after repos now action) u ∧ t.Extends u := by
  obtain ⟨paths, hAfter, hNames⟩ := fs.after_eq repos now action
  rw [hAfter] at hRoom ⊢
  exact ⟨t.internAll paths, h.allocate paths (fun p hp => (hNames p hp).isChild) hRoom,
    t.extends_internAll paths⟩

end Holds

/-! ## Runs keep the table -/

namespace LedgerFilesystem

/-- The pair of a path and an inode is in both maps. -/
def Bound (fs : LedgerFilesystem) (p : String) (i : UInt64) : Prop :=
  fs.inodeMap[i]? = some p ∧ fs.pathMap[p]? = some i

/-- Every pair is still there later. -/
def Keeps (fs later : LedgerFilesystem) : Prop := ∀ p i, fs.Bound p i → later.Bound p i

theorem Keeps.refl (fs : LedgerFilesystem) : fs.Keeps fs := fun _ _ h => h

theorem Keeps.trans {fs mid later : LedgerFilesystem} (h : fs.Keeps mid)
    (h' : mid.Keeps later) : fs.Keeps later :=
  fun p i hBound => h' p i (h p i hBound)

/-- The table of one filesystem at one time. -/
structure TableInvariant (fs : LedgerFilesystem) : Prop where
  inverse (i : UInt64) (p : String) : fs.inodeMap[i]? = some p ↔ fs.pathMap[p]? = some i
  below (i : UInt64) (p : String) : fs.inodeMap[i]? = some p → i < fs.nextInode
  root : fs.Bound "/" 1
  accounts : fs.Bound "/accounts" 2
  transactions : fs.Bound "/transactions" 3
  docs : fs.Bound "/docs" 4

end LedgerFilesystem

open LedgerFilesystem

theorem Represents.bound_iff {fs : LedgerFilesystem} {t : Interned String}
    (h : Represents fs t) (p : String) (i : UInt64) :
    fs.Bound p i ↔ t.key? i.toNat = some p := by
  rw [Bound, h.pathMap_iff, h.inode, and_self]

theorem Represents.keeps {fs later : LedgerFilesystem} {t u : Interned String}
    (h : Represents fs t) (h' : Represents later u) (hExtends : t.Extends u) :
    fs.Keeps later := by
  intro p i hBound
  rw [h'.bound_iff]
  exact hExtends.key?_eq_some ((h.bound_iff p i).mp hBound)

theorem Holds.invariant {fs : LedgerFilesystem} {t : Interned String} (h : Holds fs t) :
    fs.TableInvariant := by
  have hFixed (i : UInt64) (p : String) (hp : fixedPaths.key? i.toNat = some p) :
      fs.Bound p i :=
    (h.represents.bound_iff p i).mpr (h.fixed.key?_eq_some hp)
  refine ⟨?_, ?_, hFixed 1 "/" rfl, hFixed 2 "/accounts" rfl, hFixed 3 "/transactions" rfl,
    hFixed 4 "/docs" rfl⟩
  · intro i p
    rw [h.represents.inode, h.represents.pathMap_iff]
  · intro i p hp
    rw [h.represents.inode] at hp
    have hBounds := Interned.handle_bounds hp
    have hNext := h.represents.next
    rw [UInt64.lt_iff_toNat_lt]
    omega

/-- All filesystems of a world hold tables. -/
def World.Sound (w : World) : Prop :=
  ∀ (k : Nat) (fs : LedgerFilesystem), w[k]? = some fs → ∃ t, Holds fs t

/-- Each filesystem of `w` is still there in `w'` with all its pairs, and each
one of `w'` has all the pairs of the one of `w` it comes from. -/
def World.Continues (w w' : World) : Prop :=
  (∀ (k : Nat) (fs : LedgerFilesystem), w[k]? = some fs →
      ∃ fs' : LedgerFilesystem, w'[k]? = some fs' ∧ fs.Keeps fs') ∧
    ∀ (k : Nat) (fs' : LedgerFilesystem), w'[k]? = some fs' →
      ∃ (j : Nat) (fs : LedgerFilesystem), w[j]? = some fs ∧ fs.Keeps fs'

theorem World.Continues.refl (w : World) : w.Continues w :=
  ⟨fun _ fs h => ⟨fs, h, Keeps.refl fs⟩, fun k fs h => ⟨k, fs, h, Keeps.refl fs⟩⟩

theorem World.Continues.trans {w w' w'' : World} (h : w.Continues w')
    (h' : w'.Continues w'') : w.Continues w'' := by
  constructor
  · intro k fs hfs
    obtain ⟨fs', hfs', hKeeps⟩ := h.1 k fs hfs
    obtain ⟨fs'', hfs'', hKeeps'⟩ := h'.1 k fs' hfs'
    exact ⟨fs'', hfs'', hKeeps.trans hKeeps'⟩
  · intro k fs'' hfs''
    obtain ⟨j, fs', hfs', hKeeps'⟩ := h'.2 k fs'' hfs''
    obtain ⟨i, fs, hfs, hKeeps⟩ := h.2 j fs' hfs'
    exact ⟨i, fs, hfs, hKeeps.trans hKeeps'⟩

/-- **One step** of a world. -/
theorem Step.keeps {w w' : World} (hSound : w.Sound) (h : Step ε w w') :
    w'.Sound ∧ w.Continues w' := by
  cases h with
  | @act k fs repos now action here room =>
      obtain ⟨t, ht⟩ := hSound k fs here
      obtain ⟨u, hu, hExtends⟩ := ht.after repos now action room
      have hKeeps := ht.represents.keeps hu.represents hExtends
      have hIn : k < w.length := (List.getElem?_eq_some_iff.mp here).1
      have hAt (j : Nat) : (w.set k (fs.after repos now action))[j]? =
          if k = j then some (fs.after repos now action) else w[j]? := by
        rw [List.getElem?_set]
        by_cases hj : k = j
        · rw [if_pos hj, if_pos hj, if_pos (hj ▸ hIn)]
        · rw [if_neg hj, if_neg hj]
      refine ⟨?_, ?_, ?_⟩
      · intro j other hOther
        rw [hAt] at hOther
        split at hOther
        · exact ⟨u, Option.some.inj hOther ▸ hu⟩
        · exact hSound j other hOther
      · intro j other hOther
        rw [hAt]
        by_cases hj : k = j
        · subst hj
          obtain rfl := Option.some.inj (here.symm.trans hOther)
          exact ⟨_, if_pos rfl, hKeeps⟩
        · exact ⟨other, by rw [if_neg hj, hOther], Keeps.refl other⟩
      · intro j other hOther
        rw [hAt] at hOther
        split at hOther
        · exact ⟨k, fs, here, Option.some.inj hOther ▸ hKeeps⟩
        · exact ⟨j, other, hOther, Keeps.refl other⟩
  | @clone k fs here =>
      refine ⟨?_, ?_, ?_⟩
      · intro j other hOther
        rcases List.mem_append.mp (List.mem_of_getElem? hOther) with hOld | hNew
        · obtain ⟨i, hi⟩ := List.getElem?_of_mem hOld
          exact hSound i other hi
        · rw [List.mem_singleton.mp hNew]
          exact hSound k fs here
      · intro j other hOther
        have hIn : j < w.length := (List.getElem?_eq_some_iff.mp hOther).1
        exact ⟨other, by rw [List.getElem?_append_left hIn, hOther], Keeps.refl other⟩
      · intro j other hOther
        rcases List.mem_append.mp (List.mem_of_getElem? hOther) with hOld | hNew
        · obtain ⟨i, hi⟩ := List.getElem?_of_mem hOld
          exact ⟨i, other, hi, Keeps.refl other⟩
        · rw [List.mem_singleton.mp hNew]
          exact ⟨k, fs, here, Keeps.refl fs⟩

/-- **A whole run** of a world. -/
theorem Run.keeps {w w' : World} (hSound : w.Sound) (h : Run ε w w') :
    w'.Sound ∧ w.Continues w' := by
  induction h with
  | refl => exact ⟨hSound, World.Continues.refl w⟩
  | tail _ hStep ih =>
      obtain ⟨hNext, hContinues⟩ := hStep.keeps ih.1
      exact ⟨hNext, ih.2.trans hContinues⟩

/-- **The invariant of every reachable world.** -/
theorem Reachable.sound {w : World} (h : Reachable ε w) : w.Sound := by
  refine (Run.keeps ?_ h).1
  intro k fs hfs
  have hMem := List.mem_of_getElem? hfs
  rw [List.mem_singleton.mp hMem]
  exact ⟨fixedPaths, holds_new⟩

/-- Every filesystem of a reachable world holds a table. -/
theorem Reachable.holds {w : World} (h : Reachable ε w) {fs : LedgerFilesystem} (hMem : fs ∈ w) :
    ∃ t, Holds fs t := by
  obtain ⟨k, hk⟩ := List.getElem?_of_mem hMem
  exact h.sound k fs hk

/-! ## The table is a stable bijection -/

/-- **The inode table is a stable bijection** in every reachable world, and no
later step takes a pair from it. -/
theorem inodeTable_stable {w : World} (h : Reachable ε w) :
    (∀ fs ∈ w, fs.TableInvariant) ∧ ∀ w', Run ε w w' → w.Continues w' := by
  have hSound := h.sound
  constructor
  · intro fs hMem
    obtain ⟨t, ht⟩ := h.holds hMem
    exact ht.invariant
  · intro w' hRun
    exact (Run.keeps hSound hRun).2

theorem allocations_getOrCreateInode_le (fs : LedgerFilesystem) (path : String) :
    (fs.getOrCreateInode path).2.allocations ≤ fs.allocations + 1 := by
  unfold allocations
  cases hInode : fs.pathMap[path]? with
  | some inode =>
      rw [getOrCreateInode_of_some hInode]
      show fs.pathMap.size - 4 ≤ fs.pathMap.size - 4 + 1
      omega
  | none =>
      rw [getOrCreateInode_of_none hInode]
      have hSize : (fs.pathMap.insert path fs.nextInode).size ≤ fs.pathMap.size + 1 :=
        Std.HashMap.size_insert_le
      show (fs.pathMap.insert _ _).size - 4 ≤ fs.pathMap.size - 4 + 1
      omega

/-- One inode at most is handed out for a path. -/
theorem allocations_allocate_le_add (fs : LedgerFilesystem) (paths : List String) :
    (fs.allocate paths).allocations ≤ fs.allocations + paths.length := by
  induction paths generalizing fs with
  | nil => exact Nat.le_refl _
  | cons path paths ih =>
      have hOne := allocations_getOrCreateInode_le fs path
      have hRest := ih (fs.getOrCreateInode path).2
      rw [allocate_cons, List.length_cons]
      omega

/-- A lookup hands out one inode at most. -/
theorem allocations_lookup_le (fs : LedgerFilesystem) (now parent : UInt64) (name : String) :
    (fs.lookup now parent name).2.allocations ≤ fs.allocations + 1 := by
  cases hPath : fs.getPath parent with
  | none =>
      simp only [lookup, hPath]
      omega
  | some parentPath =>
      rw [lookup_snd now hPath]
      exact allocations_allocate_le_add fs [childPath parentPath name]

/-- A look for a new name interns its path. -/
theorem Holds.lookup_new {fs : LedgerFilesystem} {t : Interned String} (h : Holds fs t)
    (now parent : UInt64) {parentPath : String}
    (hParent : t.key? parent.toNat = some parentPath) {name : String}
    (hNew : childPath parentPath name ∉ t.keys) (hRoom : t.keys.length < 2 ^ 63) :
    Holds (fs.lookup now parent name).2 (t.push (childPath parentPath name) hNew) ∧
      (fs.lookup now parent name).2.allocations < 2 ^ 64 - 5 := by
  have hPath := (h.represents.getPath_iff parent parentPath).mpr hParent
  have hLess : (fs.lookup now parent name).2.allocations < 2 ^ 64 - 5 := by
    have hLe := allocations_lookup_le fs now parent name
    have hSize : fs.allocations ≤ t.keys.length := by
      rw [allocations, h.represents.size]
      omega
    omega
  refine ⟨?_, hLess⟩
  rw [lookup_snd now hPath] at hLess ⊢
  rw [← Interned.intern_of_not_mem hNew]
  refine h.allocate [childPath parentPath name] ?_ hLess
  intro p hp
  rw [List.mem_singleton.mp hp]
  exact ⟨parent, parentPath, name, hPath, rfl⟩

/-! ### A run -/

/-- Repositories without any account. -/
def Repositories.nothing : Repositories ε where
  getBalance _ := .ok none
  findAccounts _ := .ok []
  getTransactionHistory _ _ _ _ := .ok []

/-- The filesystem after a look for `/docs/report`. -/
def lookedForReport : LedgerFilesystem := (LedgerFilesystem.new.lookup 0 4 "report").2

theorem step_lookedForReport : Step ε [LedgerFilesystem.new] [lookedForReport] := by
  have hRoom := allocations_lookup_le LedgerFilesystem.new 0 4 "report"
  rw [allocations_new] at hRoom
  exact Step.act Repositories.nothing 0 (.lookup 4 "report") (k := 0) rfl
    (Nat.lt_of_le_of_lt hRoom (by decide))

theorem reachable_lookedForReport : Reachable ε [lookedForReport] :=
  Relation.ReflTransGen.single step_lookedForReport

/-- That filesystem and a clone of it. -/
theorem inodeTable_stable_test :
    (∀ fs ∈ [lookedForReport, lookedForReport.clone], fs.TableInvariant) ∧
      ∀ w', Run LedgerError [lookedForReport, lookedForReport.clone] w' →
        World.Continues [lookedForReport, lookedForReport.clone] w' :=
  inodeTable_stable (reachable_lookedForReport.tail (Step.clone (k := 0) rfl))

end LedgerFS.Fuse
