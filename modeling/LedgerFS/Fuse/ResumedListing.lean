import LedgerFS.Fuse.Listing
import LedgerFS.Library.Resumption

/-!
# Directory reads in several calls

A reply buffer takes some of the entries, and the reader comes back with the offset of the
last one it got.  The entry at index `i` is added under the offset `i + 1`, and a call with
the offset `i + 1` skips `i + 1` entries.

* `listing_resumes` — however the buffers fill up, the reader gets the whole listing, every
  entry once and in order, and is told when there is no more.
-/

namespace LedgerFS.Fuse

open LedgerFS.Core
open LedgerFS.Library
open LedgerFS.Library.Interning
open LedgerFilesystem

variable {ε : Type}

namespace LedgerFilesystem

/-! ## One buffer -/

/-- A buffer that has room for one entry takes one, if there is one. -/
theorem addEntries_first {full : Full} (hFits : ∀ item, full [] item = false) (i : Nat)
    (rest : List DirEntry) :
    ∃ n, n ≤ rest.length ∧ (n = 0 → rest = []) ∧
      addEntries full i [] rest = ((rest.take n).zipIdx (i + 1)).map Prod.swap := by
  cases rest with
  | nil => exact ⟨0, Nat.le_refl 0, fun _ => rfl, rfl⟩
  | cons entry rest =>
      obtain ⟨n, hn, hRest⟩ := addEntries_eq full (i + 1) [(i + 1, entry)] rest
      refine ⟨n + 1, Nat.succ_le_succ hn, fun hZero => absurd hZero (Nat.succ_ne_zero n), ?_⟩
      rw [addEntries, hFits, if_neg Bool.false_ne_true]
      exact hRest

/-! ## A later listing -/

/-- The repositories are only asked for the accounts. -/
theorem entries_congr (fs : LedgerFilesystem) {repos repos' : Repositories ε}
    (h : listAccounts repos = listAccounts repos') (ino : UInt64) (path : String) :
    fs.entries repos ino path = fs.entries repos' ino path := by
  unfold entries
  rw [h]

theorem getOrCreateInode_of_bound {fs : LedgerFilesystem} {path : String} {inode : UInt64}
    (h : fs.Bound path inode) : fs.getOrCreateInode path = (inode, fs) :=
  getOrCreateInode_of_some h.2

end LedgerFilesystem

/-- Accounts that were listed are listed again under the same inodes. -/
theorem Represents.listEntries_of_keeps {fs later : LedgerFilesystem} {t : Interned String}
    (h : Represents fs t) (accounts : List String)
    (hRoom : (fs.listEntries accounts).2.allocations < 2 ^ 64 - 5)
    (hKeeps : (fs.listEntries accounts).2.Keeps later) :
    later.listEntries accounts = ((fs.listEntries accounts).1, later) := by
  induction accounts generalizing fs t with
  | nil => rfl
  | cons account accounts ih =>
      have hRest : (fs.listEntries (account :: accounts)).2 =
          ((fs.getOrCreateInode ("/accounts/" ++ account)).2.listEntries accounts).2 := rfl
      rw [hRest] at hRoom hKeeps
      have hPaths := hRoom
      rw [listEntries_snd] at hPaths
      obtain ⟨⟨u, hTable⟩, hBound⟩ := h.bound_first ("/accounts/" ++ account) _ hPaths
      rw [← listEntries_snd] at hBound
      have hKnown := getOrCreateInode_of_bound (hKeeps _ _ hBound)
      simp only [listEntries, hKnown, ih hTable hRoom hKeeps]

/-- **What was listed is listed again** by a filesystem that keeps the table, and nothing
is new to it. -/
theorem Holds.entries_of_keeps {fs later : LedgerFilesystem} {t : Interned String}
    (h : Holds fs t) {repos : Repositories ε} {ino : UInt64} {path : String}
    (hRoom : (fs.entries repos ino path).2.allocations < 2 ^ 64 - 5)
    (hKeeps : (fs.entries repos ino path).2.Keeps later) :
    later.entries repos ino path = ((fs.entries repos ino path).1, later) := by
  rcases path_cases path with rfl | rfl | hAccount | rfl | rfl | ⟨hFixed, hOther⟩
  · rw [entries_root, entries_root]
  · cases hList : listAccounts repos with
    | error error =>
        rw [entries_accounts_of_error fs ino hList, entries_accounts_of_error later ino hList]
    | ok accounts =>
        rw [entries_accounts_of_ok fs ino hList] at hRoom hKeeps
        rw [entries_accounts_of_ok fs ino hList, entries_accounts_of_ok later ino hList,
          h.represents.listEntries_of_keeps accounts hRoom hKeeps]
  · rw [entries_account fs repos ino hAccount] at hRoom hKeeps
    obtain ⟨hBalance, hLog⟩ :=
      h.represents.bound_two (childPath path "balance.json") (childPath path "tx.log") hRoom
    rw [entries_account fs repos ino hAccount, entries_account later repos ino hAccount,
      getOrCreateInode_of_bound (hKeeps _ _ hBalance), getOrCreateInode_of_bound (hKeeps _ _ hLog)]
  · rw [entries_transactions, entries_transactions]
  · rw [entries_docs, entries_docs]
  · rw [entries_other fs repos ino hFixed hOther, entries_other later repos ino hFixed hOther]

/-! ## The reader -/

/-- What may differ from call to call: the answers of the repositories, where the buffer is
full, and what happens to the filesystem before the next call.  The account listing is the
same, and one entry fits. -/
structure ListingCalls (ε : Type) where
  repos : Nat → Repositories ε
  full : Nat → Full
  between : Nat → LedgerFilesystem → LedgerFilesystem
  same : ∀ i, listAccounts (repos i) = listAccounts (repos 0)
  fits : ∀ i item, full i [] item = false
  runs : ∀ i fs, ∃ w, Run ε [fs] w ∧ w[0]? = some (between i fs)

namespace ListingCalls

/-- The call with number `i`, at an offset: the entries it adds, and the offset of the last
of them. -/
def call (calls : ListingCalls ε) (ino : UInt64) (i offset : Nat) (fs : LedgerFilesystem) :
    Option (Portion DirEntry × LedgerFilesystem) :=
  let reply := fs.readdir (calls.repos i) (calls.full i) ino (Int64.ofNat offset)
  match reply.1 with
  | .error _ => none
  | .ok added =>
      some (⟨added.map Prod.snd, added.getLast?.map Prod.fst⟩, calls.between i reply.2)

/-- The directory has its path, and a listing of it, which there is room for, has these
entries. -/
structure Lists (calls : ListingCalls ε) (ino : UInt64) (path : String) (entries : List DirEntry)
    (fs : LedgerFilesystem) : Prop where
  table : ∃ t, Holds fs t
  bound : fs.getPath ino = some path
  listed : (fs.entries (calls.repos 0) ino path).1 = some entries
  room : (fs.entries (calls.repos 0) ino path).2.allocations < 2 ^ 64 - 5

end ListingCalls

/-- A table that is represented has had room. -/
theorem Represents.room {fs : LedgerFilesystem} {t : Interned String} (h : Represents fs t) :
    fs.allocations < 2 ^ 64 - 5 := by
  have hNext := h.next
  have hBound := fs.nextInode.toNat_lt
  rw [allocations, h.size]
  omega

/-- **A run of one filesystem** keeps its table. -/
theorem Holds.run {fs later : LedgerFilesystem} {t : Interned String} (h : Holds fs t) {w : World}
    (hRun : Run ε [fs] w) (hLater : w[0]? = some later) : fs.Keeps later ∧ ∃ u, Holds later u := by
  have hSound : World.Sound [fs] := by
    intro k other hOther
    rw [List.mem_singleton.mp (List.mem_of_getElem? hOther)]
    exact ⟨t, h⟩
  obtain ⟨hSoundLater, hContinues⟩ := Run.keeps hSound hRun
  obtain ⟨other, hThere, hKeeps⟩ := hContinues.1 0 fs rfl
  obtain rfl := Option.some.inj (hThere.symm.trans hLater)
  exact ⟨hKeeps, hSoundLater 0 other hLater⟩

/-- **One listing** keeps the table. -/
theorem Holds.entries {fs : LedgerFilesystem} {t : Interned String} (h : Holds fs t)
    {repos : Repositories ε} {ino : UInt64} {path : String} (hPath : fs.getPath ino = some path)
    (hRoom : (fs.entries repos ino path).2.allocations < 2 ^ 64 - 5) :
    fs.Keeps (fs.entries repos ino path).2 ∧ ∃ u, Holds (fs.entries repos ino path).2 u := by
  obtain ⟨names, hNames, -⟩ := fs.entries_snd repos ino path
  rw [hNames] at hRoom ⊢
  refine ⟨h.represents.keeps_allocate _ hRoom, _, h.allocate _ ?_ hRoom⟩
  intro child hChild
  obtain ⟨name, -, rfl⟩ := List.mem_map.mp hChild
  exact ⟨ino, path, name, hPath, rfl⟩

namespace ListingCalls

variable {calls : ListingCalls ε} {ino : UInt64} {path : String} {entries : List DirEntry}

/-- What comes after a call lists the same. -/
theorem Lists.after {fs : LedgerFilesystem} (h : calls.Lists ino path entries fs) (i : Nat) :
    calls.Lists ino path entries (calls.between i (fs.entries (calls.repos 0) ino path).2) := by
  obtain ⟨t, ht⟩ := h.table
  obtain ⟨hEntered, u, hu⟩ := ht.entries h.bound h.room
  obtain ⟨w, hRun, hLater⟩ := calls.runs i (fs.entries (calls.repos 0) ino path).2
  obtain ⟨hKept, v, hv⟩ := hu.run hRun hLater
  have hAgain := ht.entries_of_keeps h.room hKept
  have hPath : fs.Bound path ino :=
    (ht.represents.bound_iff path ino).mpr ((ht.represents.getPath_iff ino path).mp h.bound)
  refine ⟨⟨v, hv⟩, (hKept _ _ (hEntered _ _ hPath)).1, ?_, ?_⟩
  · rw [hAgain]
    exact h.listed
  · rw [hAgain]
    exact hv.represents.room

/-- What is added covers the entries from the offset on. -/
theorem covers_added {offset n : Nat} (hn : n ≤ (entries.drop offset).length)
    (hNone : n = 0 → entries.drop offset = []) :
    let added := (((entries.drop offset).take n).zipIdx (offset + 1)).map Prod.swap
    Portion.Covers Eq entries offset ⟨added.map Prod.snd, added.getLast?.map Prod.fst⟩ := by
  intro added
  have hElements : added.map Prod.snd = (entries.drop offset).take n := by
    rw [List.map_map]
    exact List.zipIdx_map_fst (offset + 1) _
  have hLength : ((entries.drop offset).take n).length = n := List.length_take_of_le hn
  rw [hElements]
  cases hLast : ((entries.drop offset).take n).getLast? with
  | none =>
      have hEmpty := List.getLast?_eq_none_iff.mp hLast
      rw [hEmpty] at hLength
      have hRest := hNone hLength.symm
      have hNext : added.getLast?.map Prod.fst = none := by
        rw [List.getLast?_map, List.getLast?_zipIdx, hLast]
        rfl
      rw [hNext, hEmpty]
      show List.Forall₂ Eq [] (entries.drop offset)
      rw [hRest]
      exact List.Forall₂.nil
  | some last =>
      have hNext : added.getLast?.map Prod.fst = some (offset + n) := by
        rw [List.getLast?_map, List.getLast?_zipIdx, hLast, hLength]
        show some (offset + 1 + n - 1) = some (offset + n)
        congr 1
        omega
      have hPos : n ≠ 0 := by
        rintro rfl
        rw [List.take_zero] at hLast
        cases hLast
      rw [hNext]
      show offset < offset + n ∧ offset + n ≤ entries.length ∧
        List.Forall₂ Eq ((entries.drop offset).take n)
          ((entries.drop offset).take (offset + n - offset))
      rw [List.length_drop] at hn
      rw [Nat.add_sub_cancel_left, List.forall₂_eq_eq_eq]
      exact ⟨by omega, by omega, rfl⟩

/-- **One call** gives the entries from its offset on up to the offset of the next call, and
none behind the last entry only. -/
theorem resumes (hVec : entries.length < 2 ^ 63) :
    Resumes Eq (calls.Lists ino path entries) entries (calls.call ino) := by
  intro i offset fs h hOffset
  have hBack : (Int64.ofNat offset).toUInt64.toNat = offset := by
    rw [Int64.toUInt64_ofNat', UInt64.toNat_ofNat_of_lt']
    show offset < 2 ^ 64
    omega
  have hEntries := fs.entries_congr (calls.same i) ino path
  obtain ⟨n, hn, hNone, hAdded⟩ := addEntries_first (calls.fits i) offset (entries.drop offset)
  have hReply : (fs.readdir (calls.repos i) (calls.full i) ino (Int64.ofNat offset)).1 =
      .ok ((((entries.drop offset).take n).zipIdx (offset + 1)).map Prod.swap) := by
    rw [readdir_eq h.bound, hEntries, h.listed, hBack]
    exact congrArg ReplyDirectory.ok hAdded
  have hAfter : (fs.readdir (calls.repos i) (calls.full i) ino (Int64.ofNat offset)).2 =
      (fs.entries (calls.repos 0) ino path).2 := by
    rw [readdir_snd h.bound, hEntries]
  refine ⟨_, _, ?_, h.after i, covers_added hn hNone⟩
  simp only [call, hReply, hAfter]

end ListingCalls

/-- **A directory read in several calls** is read completely: with enough calls, which are as
many as there are entries and one more, the reader is told that there is no more, and what it
was given is the listing.  (No `Vec` has `2 ^ 63` elements.) -/
theorem listing_resumes {w : World} (h : Reachable ε w) {fs : LedgerFilesystem} (hMem : fs ∈ w)
    (calls : ListingCalls ε) {ino : UInt64} {path : String} {entries : List DirEntry}
    (hPath : fs.getPath ino = some path)
    (hEntries : (fs.entries (calls.repos 0) ino path).1 = some entries)
    (hRoom : (fs.readdir (calls.repos 0) (calls.full 0) ino 0).2.allocations < 2 ^ 64 - 5)
    (hVec : entries.length < 2 ^ 63) {fuel : Nat} (hFuel : entries.length < fuel) :
    ∃ after, readAll (calls.call ino) fuel 0 0 fs = some (entries, after) := by
  obtain ⟨t, ht⟩ := h.holds hMem
  rw [readdir_snd hPath] at hRoom
  have hLists : calls.Lists ino path entries fs := ⟨⟨t, ht⟩, hPath, hEntries, hRoom⟩
  obtain ⟨elements, after, hRead, -, hAll⟩ :=
    readAll_eq (ListingCalls.resumes hVec) fuel 0 0 hLists (Nat.zero_le _) hFuel
  rw [List.drop_zero, List.forall₂_eq_eq_eq] at hAll
  exact ⟨after, hRead.trans (by rw [hAll])⟩

/-- Calls whose buffer takes one entry, while there are two accounts. -/
def oneByOne (a b : AccountId) : ListingCalls LedgerError where
  repos _ := Repositories.twoAccounts a b
  full _ added _ := !added.isEmpty
  between _ fs := fs
  same _ := rfl
  fits _ _ := rfl
  runs _ fs := ⟨[fs], Relation.ReflTransGen.refl, rfl⟩

/-- The accounts are read in five calls. -/
theorem listing_resumes_test :
    let a : AccountId := ⟨Uuid.fromU128 1⟩
    let b : AccountId := ⟨Uuid.fromU128 2⟩
    ∃ entries after, readAll ((oneByOne a b).call 2) 5 0 0 LedgerFilesystem.new =
        some (entries, after) ∧
      entries.map DirEntry.name = [".", "..", accountText a, accountText b] := by
  intro a b
  obtain ⟨entries, hEntries, hNames⟩ := exists_entries_twoAccounts a b
  have hFew : entries.length = 4 := by
    rw [← List.length_map DirEntry.name, hNames]
    rfl
  have hSame : (LedgerFilesystem.new.readdir ((oneByOne a b).repos 0) ((oneByOne a b).full 0)
      2 0).2 = listedAccounts a b :=
    (readdir_snd getPath_accounts _ _ 0).trans (listedAccounts_eq a b).symm
  have hRoom := Nat.lt_of_le_of_lt (allocations_listedAccounts_le a b)
    (show 2 < 2 ^ 64 - 5 by decide)
  rw [← hSame] at hRoom
  have hReads : ∃ after, readAll ((oneByOne a b).call 2) 5 0 0 LedgerFilesystem.new =
      some (entries, after) :=
    listing_resumes (w := [LedgerFilesystem.new]) Relation.ReflTransGen.refl
      (List.mem_singleton_self _) (oneByOne a b) getPath_accounts hEntries hRoom (by omega)
      (by omega)
  obtain ⟨after, hRead⟩ := hReads
  exact ⟨entries, after, hRead, hNames⟩

end LedgerFS.Fuse
