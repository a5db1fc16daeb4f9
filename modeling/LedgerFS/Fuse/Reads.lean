import LedgerFS.Fuse.Listing
import LedgerFS.Fuse.RestrictedRuns
import LedgerFS.Fuse.Sizes

/-!
# Reads that panic

`read` tells a file by the end of its path and takes the account from the third
component, which it unwraps.  A path that ends like an account's file has a third
component unless it is just `/balance.json` or `/tx.log`, and a client gets an inode for
these by looking for the name in the root.

* `read_finishes_iff` — a read finishes exactly if its path is none of the two, and the
  slice it takes is always in bounds.
-/

namespace LedgerFS.Fuse

open LedgerFS.Core
open LedgerFS.Library.Interning
open LedgerFilesystem

variable {ε : Type}

/-! ## Paths of the table -/

/-- A path begins with a slash. -/
theorem Holds.startsWith_slash {fs : LedgerFilesystem} {t : Interned String} (h : Holds fs t)
    {path : String} (hMem : path ∈ t.keys) : startsWith "/" path = true := by
  induction hLength : path.length using Nat.strong_induction_on generalizing path with
  | _ n ih =>
      rcases h.rooted path hMem with rfl | ⟨parent, hParent, name, rfl⟩
      · decide
      · by_cases hRoot : parent = "/"
        · rw [hRoot, startsWith_iff]
          exact ⟨name, if_pos rfl⟩
        · rw [childPath_of_ne hRoot] at hLength ⊢
          have hShorter : parent.length < n := by
            rw [← hLength, String.length_append, String.length_append]
            have hSlash : ("/" : String).length = 1 := rfl
            omega
          obtain ⟨rest, rfl⟩ := (startsWith_iff _ _).mp (ih _ hShorter hParent rfl)
          exact (startsWith_iff _ _).mpr ⟨rest ++ "/" ++ name, by simp only [String.append_assoc]⟩

/-- A path that ends like a file and has no third component is just that ending. -/
theorem third_eq_none_iff {file path : String} (hFile : slashes file = 1)
    (hStarts : startsWith "/" path = true) (hEnds : endsWith file path = true) :
    (splitSlash path)[2]? = none ↔ path = file := by
  obtain ⟨start, rfl⟩ := (endsWith_iff _ _).mp hEnds
  rw [List.getElem?_eq_none_iff, length_splitSlash, slashes_append, hFile]
  constructor
  · intro hFew
    have hNone : '/' ∉ start.toList := by
      rw [← List.count_eq_zero]
      show slashes start = 0
      omega
    obtain ⟨rest, hRest⟩ := (startsWith_iff _ _).mp hStarts
    have hChars : start.toList ++ file.toList = '/' :: rest.toList := by
      have hSame := congrArg String.toList hRest
      simpa using hSame
    cases hStart : start.toList with
    | nil => rw [String.toList_eq_nil_iff.mp hStart, String.empty_append]
    | cons c cs =>
        rw [hStart, List.cons_append, List.cons.injEq] at hChars
        rw [hStart, hChars.1] at hNone
        exact absurd List.mem_cons_self hNone
  · intro hSame
    have hSlashes := congrArg slashes hSame
    rw [slashes_append, hFile] at hSlashes
    omega

/-! ## The panic -/

/-- One of the two names in the root. -/
def RootFile (path : String) : Prop := path = "/balance.json" ∨ path = "/tx.log"

/-- **When the third component is missing.** -/
theorem content_eq_none_iff (C : FuseCrates) (repos : Repositories ε) {path : String}
    (hStarts : startsWith "/" path = true) : content C repos path = none ↔ RootFile path := by
  unfold content RootFile
  by_cases hBalance : endsWith "/balance.json" path = true
  · have hOther : path ≠ "/tx.log" := by
      rintro rfl
      revert hBalance
      decide
    rw [if_pos hBalance, ← third_eq_none_iff (by decide) hStarts hBalance]
    cases (splitSlash path)[2]? <;> simp [hOther]
  · have hOther : path ≠ "/balance.json" := by
      rintro rfl
      exact hBalance (by decide)
    rw [if_neg hBalance]
    by_cases hLog : endsWith "/tx.log" path = true
    · rw [if_pos hLog, ← third_eq_none_iff (by decide) hStarts hLog]
      cases (splitSlash path)[2]? <;> simp [hOther]
    · have hNeither : path ≠ "/tx.log" := by
        rintro rfl
        exact hLog (by decide)
      simp [hLog, hOther, hNeither]

namespace LedgerFilesystem

/-- The read replies with data or an error, and where it takes a slice of a file, the end
of the slice is computed without overflow, is not before its start and not behind the end
of the file. -/
structure ReadFinishes (fs : LedgerFilesystem) (C : FuseCrates) (repos : Repositories ε)
    (ino : UInt64) (offset : Int64) (size : UInt32) : Prop where
  replies : fs.read C repos ino offset size ≠ .panicked
  bounds : ∀ text, fs.rendered C repos ino = some (.ok text) →
    let length := text.toByteArray.data.toList.length
    let start := offset.toUInt64.toNat
    start < length →
      start + size.toNat < 2 ^ 64 ∧ start ≤ min (start + size.toNat) length ∧
        min (start + size.toNat) length ≤ length

theorem read_eq_panicked_iff (fs : LedgerFilesystem) (C : FuseCrates) (repos : Repositories ε)
    (ino : UInt64) (offset : Int64) (size : UInt32) :
    fs.read C repos ino offset size = .panicked ↔
      ∃ path, fs.getPath ino = some path ∧ content C repos path = none := by
  unfold read
  cases hPath : fs.getPath ino with
  | none => simp
  | some path =>
      cases hContent : content C repos path with
      | none => simp [hContent]
      | some result =>
          cases result with
          | error error => simp [hContent]
          | ok text =>
              simp only [Option.some.injEq, exists_eq_left', hContent]
              split <;> simp

/-- For one inode: a read panics exactly on the two names in the root. -/
theorem readFinishes_iff {fs : LedgerFilesystem} {t : Interned String} (h : Holds fs t)
    (C : FuseCrates) (repos : Repositories ε) (ino : UInt64) {offset : Int64}
    (hOffset : 0 ≤ offset) (size : UInt32) :
    fs.ReadFinishes C repos ino offset size ↔
      ∀ path, fs.getPath ino = some path → ¬ RootFile path := by
  have hStart : offset.toUInt64.toNat < 2 ^ 63 := by
    rw [Int64.toNat_toUInt64_of_le hOffset]
    exact offset.toNatClampNeg_lt
  have hSize := size.toNat_lt
  have hReplies : fs.read C repos ino offset size ≠ .panicked ↔
      ∀ path, fs.getPath ino = some path → ¬ RootFile path := by
    rw [Ne, read_eq_panicked_iff, not_exists]
    refine forall_congr' fun path => not_and.trans (imp_congr_right fun hPath => ?_)
    rw [content_eq_none_iff C repos (h.startsWith_slash (h.represents.mem_of_getPath hPath))]
  rw [← hReplies]
  constructor
  · intro hFinishes
    exact hFinishes.replies
  · intro hNot
    refine ⟨hNot, fun text _ => ?_⟩
    intro length start hInside
    have hBelow : start < 2 ^ 63 := hStart
    omega

end LedgerFilesystem

/-- The action looks for none of the two names in the root. -/
def LeavesRootFiles (fs : LedgerFilesystem) : Action → Prop
  | .lookup parent name =>
      ∀ parentPath, fs.getPath parent = some parentPath → ¬ RootFile (childPath parentPath name)
  | _ => True

theorem LeavesRootFiles.enters {fs : LedgerFilesystem} {action : Action}
    (h : LeavesRootFiles fs action) {path : String} (hEnters : fs.Enters path action) :
    ¬ RootFile path := by
  cases action with
  | lookup parent name =>
      obtain ⟨parentPath, hPath, rfl⟩ := hEnters
      exact h parentPath hPath
  | readdir full ino offset =>
      -- What is listed is further down.
      obtain ⟨parentPath, name, -, rfl, hKind⟩ := hEnters
      have hSlashes : slashes parentPath ≠ 0 ∧ parentPath ≠ "/" := by
        rcases hKind with ⟨rfl, -⟩ | ⟨hAccount, -⟩
        · decide
        · refine ⟨fun hNone => ?_, underAccounts_ne hAccount (by decide)⟩
          rw [underAccounts, hNone, Bool.and_eq_true] at hAccount
          exact absurd hAccount.2 (by decide)
      intro hRootFile
      have hFew : slashes (childPath parentPath name) = 1 := by
        rcases hRootFile with hFile | hFile <;> rw [hFile] <;> decide
      rw [slashes_childPath hSlashes.2] at hFew
      omega
  | getattr ino => exact hEnters.elim
  | read ino offset size => exact hEnters.elim

/-- **When a read finishes**: on any inode of a reachable filesystem, exactly unless its
path is `/balance.json` or `/tx.log`; so always, in a run in which none of these is looked
for. -/
theorem read_finishes_iff :
    (∀ w, Reachable ε w → ∀ fs ∈ w, ∀ (C : FuseCrates) (repos : Repositories ε) (ino : UInt64)
      (offset : Int64) (size : UInt32), 0 ≤ offset →
        (fs.ReadFinishes C repos ino offset size ↔
          ∀ path, fs.getPath ino = some path → ¬ RootFile path)) ∧
    ∀ w, RestrictedRun ε LeavesRootFiles w → ∀ fs ∈ w, ∀ (C : FuseCrates)
      (repos : Repositories ε) (ino : UInt64) (offset : Int64) (size : UInt32), 0 ≤ offset →
        fs.ReadFinishes C repos ino offset size := by
  have hIff : ∀ w, Reachable ε w → ∀ fs ∈ w, ∀ (C : FuseCrates) (repos : Repositories ε)
      (ino : UInt64) (offset : Int64) (size : UInt32), 0 ≤ offset →
        (fs.ReadFinishes C repos ino offset size ↔
          ∀ path, fs.getPath ino = some path → ¬ RootFile path) := by
    intro w hReachable fs hMem C repos ino offset size hOffset
    obtain ⟨t, ht⟩ := hReachable.holds hMem
    exact readFinishes_iff ht C repos ino hOffset size
  refine ⟨hIff, ?_⟩
  intro w hRun fs hMem C repos ino offset size hOffset
  have hFixed : ∀ path ∈ fixedPaths.keys, ¬ RootFile path := by
    unfold RootFile
    decide
  obtain ⟨hReachable, hFree⟩ := free_of_restricted hFixed
    (fun _ _ _ hLeaves hEnters => hLeaves.enters hEnters) hRun
  exact (hIff w hReachable fs hMem C repos ino offset size hOffset).mpr (hFree fs hMem ino)

/-- The filesystem after a look for `balance.json` in the root. -/
def lookedForRootFile : LedgerFilesystem := (LedgerFilesystem.new.lookup 0 1 "balance.json").2

/-- The look gives it the inode 5. -/
theorem lookedForRootFile_spec (ε : Type) :
    Reachable ε [lookedForRootFile] ∧ lookedForRootFile.getPath 5 = some "/balance.json" := by
  have hNew : childPath "/" "balance.json" ∉ fixedPaths.keys := by decide
  obtain ⟨hTable, hRoom⟩ := holds_new.lookup_new 0 1 rfl hNew (by decide)
  constructor
  · exact Relation.ReflTransGen.single
      (Step.act Repositories.nothing 0 (.lookup 1 "balance.json") (k := 0) rfl hRoom)
  · exact (hTable.represents.getPath_iff 5 "/balance.json").mpr rfl

/-- The root of that filesystem, and the inode of the name. -/
theorem read_finishes_test :
    LedgerFilesystem.new.ReadFinishes FuseCrates.sample sampleRepositories 1 0 4096 ∧
      (lookedForRootFile.ReadFinishes FuseCrates.sample sampleRepositories 5 0 4096 ↔
        ∀ path, lookedForRootFile.getPath 5 = some path → ¬ RootFile path) :=
  ⟨read_finishes_iff.2 _ Relation.ReflTransGen.refl _ (List.mem_singleton_self _) _ _ 1 0 4096
      (by decide),
    read_finishes_iff.1 _ (lookedForRootFile_spec LedgerError).1 _ (List.mem_singleton_self _) _ _
      5 0 4096 (by decide)⟩

/-- So a read can panic. -/
theorem read_panics :
    ¬ ∀ w, Reachable LedgerError w → ∀ fs ∈ w, ∀ (C : FuseCrates)
      (repos : Repositories LedgerError) (ino : UInt64) (offset : Int64) (size : UInt32),
        0 ≤ offset → fs.ReadFinishes C repos ino offset size := by
  intro hAll
  obtain ⟨hReachable, hPath⟩ := lookedForRootFile_spec LedgerError
  obtain ⟨t, ht⟩ := hReachable.holds (List.mem_singleton_self _)
  have hFinishes := hAll _ hReachable _ (List.mem_singleton_self _) FuseCrates.sample
    sampleRepositories 5 0 4096 (by decide)
  rw [readFinishes_iff ht _ _ _ (by decide)] at hFinishes
  exact hFinishes _ hPath (Or.inl rfl)

end LedgerFS.Fuse
