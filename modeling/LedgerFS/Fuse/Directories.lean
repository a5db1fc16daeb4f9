import LedgerFS.Fuse.Listing
import LedgerFS.Fuse.RestrictedRuns

/-!
# Directories that cannot be listed

`getattr` calls four kinds of path directories: the fixed ones, accounts, and
the paths `/docs/…` with two slashes.  `readdir` has an arm for each of the
first three and none for the last.

* `directory_listable_iff` — the two agree on an inode exactly when its path
  is not of that last kind, and all along a run in which no path of that kind
  is looked for.
-/

namespace LedgerFS.Fuse

open LedgerFS.Core
open LedgerFS.Library.Interning
open LedgerFilesystem

variable {ε : Type}

/-! ## What is called a directory can be listed -/

namespace LedgerFilesystem

/-- `getattr` calls the inode a directory exactly when `readdir` lists it. -/
def DirectoryListed (fs : LedgerFilesystem) (repos : Repositories ε) (now : UInt64)
    (full : Full) (ino : UInt64) (offset : Int64) : Prop :=
  (∃ ttl attr, fs.getattr now ino = .attr ttl attr ∧ attr.kind = .directory) ↔
    ∃ added, (fs.readdir repos full ino offset).1 = .ok added

theorem getattr_directory_iff {fs : LedgerFilesystem} {ino : UInt64} {path : String}
    (h : fs.getPath ino = some path) (now : UInt64) :
    (∃ ttl attr, fs.getattr now ino = .attr ttl attr ∧ attr.kind = .directory) ↔
      getattrIsDir path = true := by
  have hReply : fs.getattr now ino =
      .attr TTL (createFileAttr now ino (if getattrIsDir path then 0 else 1024)
        (getattrIsDir path)) := by
    simp only [getattr, h]
  rw [hReply]
  cases hDir : getattrIsDir path with
  | true => exact ⟨fun _ => rfl, fun _ => ⟨_, _, rfl, rfl⟩⟩
  | false =>
      constructor
      · intro hKind
        obtain ⟨ttl, attr, hAttr, hDirectory⟩ := hKind
        obtain ⟨-, rfl⟩ := ReplyAttr.attr.inj hAttr
        cases hDirectory
      · intro hNot
        cases hNot

theorem readdir_ok_iff {fs : LedgerFilesystem} {ino : UInt64} {path : String}
    (h : fs.getPath ino = some path) (repos : Repositories ε) (full : Full) (offset : Int64) :
    (∃ added, (fs.readdir repos full ino offset).1 = .ok added) ↔
      path ∈ ["/", "/accounts", "/transactions", "/docs"] ∨ underAccounts path = true := by
  have hNone := entries_eq_none_iff fs repos ino path
  rw [readdir_eq h]
  cases hEntries : (fs.entries repos ino path).1 with
  | none =>
      obtain ⟨hFixed, hAccount⟩ := hNone.mp hEntries
      simp [hFixed, hAccount]
  | some entries =>
      rw [hEntries] at hNone
      constructor
      · intro _
        by_contra hNot
        rw [not_or, Bool.not_eq_true] at hNot
        exact absurd (hNone.mpr hNot) (by simp)
      · intro _
        exact ⟨_, rfl⟩

end LedgerFilesystem

theorem underDocs_fixed :
    ∀ p ∈ ["/", "/accounts", "/transactions", "/docs"], underDocs p = false := by decide

/-- The two guards look for different starts. -/
theorem not_underDocs_of_accounts {path : String}
    (h : startsWith "/accounts" path = true) : underDocs path = false := by
  rw [underDocs, startsWith_of_apart h (by decide) (by decide), Bool.false_and]

theorem startsWith_of_underAccounts {path : String} (h : underAccounts path = true) :
    startsWith "/accounts" path = true := by
  rw [underAccounts, Bool.and_eq_true] at h
  obtain ⟨rest, rfl⟩ := (startsWith_iff _ _).mp h.1
  exact (startsWith_iff _ _).mpr ⟨"/" ++ rest, by rw [← String.append_assoc]; rfl⟩

/-- For one inode: exactly the paths of the `/docs/` arm fail. -/
theorem directoryListed_iff {fs : LedgerFilesystem} {ino : UInt64} {path : String}
    (h : fs.getPath ino = some path) (repos : Repositories ε) (now : UInt64) (full : Full)
    (offset : Int64) :
    fs.DirectoryListed repos now full ino offset ↔ underDocs path = false := by
  rw [DirectoryListed, getattr_directory_iff h, readdir_ok_iff h, getattrIsDir, classify_iff]
  cases hDocs : underDocs path with
  | false => simp
  | true =>
      have hFixed : path ∉ ["/", "/accounts", "/transactions", "/docs"] := by
        intro hMem
        rw [underDocs_fixed path hMem] at hDocs
        cases hDocs
      have hAccount : underAccounts path = false := by
        rw [Bool.eq_false_iff]
        intro hAccount
        rw [not_underDocs_of_accounts (startsWith_of_underAccounts hAccount)] at hDocs
        cases hDocs
      simp [hFixed, hAccount]

/-- The action looks for no path of the `/docs/` arm. -/
def LeavesDocs (fs : LedgerFilesystem) : Action → Prop
  | .lookup parent name =>
      ∀ parentPath, fs.getPath parent = some parentPath →
        underDocs (childPath parentPath name) = false
  | _ => True

/-- The filesystem has no path of the `/docs/` arm. -/
def DocsFree (fs : LedgerFilesystem) : Prop :=
  ∀ ino path, fs.getPath ino = some path → underDocs path = false

/-- Children of `/accounts` and of accounts are not in that arm. -/
theorem not_underDocs_childPath {parentPath : String}
    (h : parentPath = "/accounts" ∨ underAccounts parentPath = true) (name : String) :
    underDocs (childPath parentPath name) = false := by
  have hStart : startsWith "/accounts" parentPath = true := by
    rcases h with rfl | hAccount
    · decide
    · exact startsWith_of_underAccounts hAccount
  have hRoot : parentPath ≠ "/" := by
    rcases h with rfl | hAccount
    · decide
    · exact underAccounts_ne hAccount (by decide)
  obtain ⟨rest, rfl⟩ := (startsWith_iff _ _).mp hStart
  apply not_underDocs_of_accounts
  rw [childPath_of_ne hRoot, startsWith_iff]
  exact ⟨rest ++ "/" ++ name, by simp only [String.append_assoc]⟩

theorem LeavesDocs.enters {fs : LedgerFilesystem} {action : Action}
    (h : LeavesDocs fs action) {path : String} (hEnters : fs.Enters path action) :
    underDocs path = false := by
  cases action with
  | lookup parent name =>
      obtain ⟨parentPath, hPath, rfl⟩ := hEnters
      exact h parentPath hPath
  | readdir full ino offset =>
      obtain ⟨parentPath, name, -, rfl, hKind⟩ := hEnters
      exact not_underDocs_childPath (hKind.imp And.left And.left) name
  | getattr ino => exact hEnters.elim
  | read ino offset size => exact hEnters.elim

/-- **A whole run** that leaves `/docs` alone. -/
theorem docsFree_of_run {w : World} (h : RestrictedRun ε LeavesDocs w) :
    Reachable ε w ∧ ∀ fs ∈ w, DocsFree fs := by
  have hFixed : ∀ p ∈ fixedPaths.keys, ¬ underDocs p = true := by decide
  obtain ⟨hReachable, hFree⟩ := free_of_restricted hFixed
    (fun _ _ _ hLeaves hEnters => by simp [hLeaves.enters hEnters]) h
  refine ⟨hReachable, fun fs hMem ino path hPath => ?_⟩
  exact Bool.eq_false_iff.mpr (hFree fs hMem ino path hPath)

/-- **What is called a directory can be listed**, except below `/docs`: for an
inode of a reachable filesystem `getattr` and `readdir` agree exactly when its
path is not in the `/docs/` arm, so they agree throughout a run in which no
such path is looked for. -/
theorem directory_listable_iff :
    (∀ w, Reachable ε w → ∀ fs ∈ w, ∀ ino path, fs.getPath ino = some path →
      ∀ (repos : Repositories ε) (now : UInt64) (full : Full) (offset : Int64),
        (fs.DirectoryListed repos now full ino offset ↔ underDocs path = false)) ∧
    ∀ w, RestrictedRun ε LeavesDocs w → ∀ fs ∈ w,
      ∀ ino path, fs.getPath ino = some path →
        ∀ (repos : Repositories ε) (now : UInt64) (full : Full) (offset : Int64),
          fs.DirectoryListed repos now full ino offset := by
  constructor
  · intro w _ fs _ ino path hPath repos now full offset
    exact directoryListed_iff hPath repos now full offset
  · intro w hRun fs hMem ino path hPath repos now full offset
    rw [directoryListed_iff hPath]
    exact (docsFree_of_run hRun).2 fs hMem ino path hPath

/-- The inode handed out for `/docs/report`. -/
theorem getPath_lookedForReport : lookedForReport.getPath 5 = some "/docs/report" := by
  have hNew : childPath "/docs" "report" ∉ fixedPaths.keys := by decide
  have hTable := (holds_new.lookup_new 0 4 rfl hNew (by decide)).1
  exact (hTable.represents.getPath_iff 5 "/docs/report").mpr rfl

/-- The root and `/docs/report`. -/
theorem directory_listable_test :
    (lookedForReport.DirectoryListed (Repositories.nothing : Repositories LedgerError) 0
        (fun _ _ => false) 5 0 ↔ underDocs "/docs/report" = false) ∧
      LedgerFilesystem.new.DirectoryListed (Repositories.nothing : Repositories LedgerError) 0
        (fun _ _ => false) 1 0 := by
  have hRoot : LedgerFilesystem.new.getPath 1 = some "/" :=
    (holds_new.represents.getPath_iff 1 "/").mpr rfl
  exact ⟨directory_listable_iff.1 _ reachable_lookedForReport _ (List.mem_singleton_self _) 5 _
      getPath_lookedForReport _ _ _ _,
    directory_listable_iff.2 _ Relation.ReflTransGen.refl _ (List.mem_singleton_self _) 1 _
      hRoot _ _ _ _⟩

/-- So a directory cannot always be listed. -/
theorem directory_unlistable :
    ¬ ∀ w, Reachable LedgerError w → ∀ fs ∈ w, ∀ ino path, fs.getPath ino = some path →
      ∀ (repos : Repositories LedgerError) (now : UInt64) (full : Full) (offset : Int64),
        fs.DirectoryListed repos now full ino offset := by
  intro hAll
  have hListed := hAll _ reachable_lookedForReport _ (List.mem_singleton_self _) 5 _
    getPath_lookedForReport Repositories.nothing 0 (fun _ _ => false) 0
  rw [directoryListed_iff getPath_lookedForReport] at hListed
  exact absurd hListed (by decide)

end LedgerFS.Fuse
