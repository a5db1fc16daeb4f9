import LedgerFS.Fuse.InodeTable

/-!
# Listings against lookups and attributes

`readdir` lists a directory by the match of `entries`, whose arms are taken
apart here; `lookup` and `getattr` sort paths by the match of `classify`.

* `listing_agrees` — an entry once listed is what `lookup` and `getattr` say of
  it from then on.
* `lookup_listed_iff` — `lookup` answers for every name, so it agrees with the
  listing only on listed names.
-/

namespace LedgerFS.Fuse

open LedgerFS.Core
open LedgerFS.Library.Interning
open LedgerFilesystem

variable {ε : Type}

/-! ## The reply of `readdir` -/

namespace LedgerFilesystem

/-- What is added is a leading part of the entries, each under the offset after it. -/
theorem addEntries_eq (full : Full) (i : Nat) (added : List (Nat × DirEntry))
    (rest : List DirEntry) :
    ∃ n, n ≤ rest.length ∧
      addEntries full i added rest = added ++ ((rest.take n).zipIdx (i + 1)).map Prod.swap := by
  induction rest generalizing i added with
  | nil => exact ⟨0, Nat.le_refl 0, (List.append_nil added).symm⟩
  | cons entry rest ih =>
      rw [addEntries]
      split
      · exact ⟨0, Nat.zero_le _, (List.append_nil added).symm⟩
      · obtain ⟨n, hn, hRest⟩ := ih (i + 1) (added ++ [(i + 1, entry)])
        refine ⟨n + 1, Nat.succ_le_succ hn, ?_⟩
        rw [hRest, List.append_assoc]
        rfl

/-- What is added comes from the entries. -/
theorem mem_addEntries (full : Full) (i : Nat) (rest : List DirEntry) {item : Nat × DirEntry}
    (h : item ∈ addEntries full i [] rest) : item.2 ∈ rest := by
  obtain ⟨n, -, hAdded⟩ := addEntries_eq full i [] rest
  rw [hAdded, List.nil_append] at h
  obtain ⟨⟨entry, j⟩, hMem, rfl⟩ := List.mem_map.mp h
  exact List.mem_of_mem_take (List.fst_mem_of_mem_zipIdx hMem)

/-- With room for all of them, every entry is added. -/
theorem addEntries_all (i : Nat) (added : List (Nat × DirEntry)) (rest : List DirEntry) :
    addEntries (fun _ _ => false) i added rest =
      added ++ (rest.zipIdx (i + 1)).map Prod.swap := by
  induction rest generalizing i added with
  | nil => exact (List.append_nil added).symm
  | cons entry rest ih =>
      rw [addEntries, if_neg Bool.false_ne_true, ih, List.append_assoc]
      rfl

theorem readdir_eq {fs : LedgerFilesystem} {ino : UInt64} {path : String}
    (h : fs.getPath ino = some path) (repos : Repositories ε) (full : Full) (offset : Int64) :
    (fs.readdir repos full ino offset).1 =
      match (fs.entries repos ino path).1 with
      | none => .error ENOENT
      | some entries =>
          .ok (addEntries full offset.toUInt64.toNat [] (entries.drop offset.toUInt64.toNat)) := by
  simp only [readdir, h]
  cases fs.entries repos ino path with
  | mk listed after => cases listed <;> rfl

/-- **A listed entry** is one of the entries of the path. -/
theorem readdir_eq_ok {fs : LedgerFilesystem} {repos : Repositories ε} {full : Full}
    {ino : UInt64} {offset : Int64} {added : List (Nat × DirEntry)}
    (h : (fs.readdir repos full ino offset).1 = .ok added) :
    ∃ path entries, fs.getPath ino = some path ∧
      (fs.entries repos ino path).1 = some entries ∧ ∀ item ∈ added, item.2 ∈ entries := by
  cases hPath : fs.getPath ino with
  | none =>
      rw [readdir, hPath] at h
      cases h
  | some path =>
      rw [readdir_eq hPath] at h
      cases hEntries : (fs.entries repos ino path).1 with
      | none =>
          rw [hEntries] at h
          cases h
      | some entries =>
          rw [hEntries] at h
          refine ⟨path, entries, rfl, hEntries, ?_⟩
          intro item hItem
          rw [← ReplyDirectory.ok.inj h] at hItem
          exact List.mem_of_mem_drop (mem_addEntries _ _ _ hItem)

/-- Every entry of the path is listed to a buffer with room. -/
theorem readdir_lists {fs : LedgerFilesystem} {repos : Repositories ε} {ino : UInt64}
    {path : String} {entries : List DirEntry} (hPath : fs.getPath ino = some path)
    (hEntries : (fs.entries repos ino path).1 = some entries) :
    ∃ added, (fs.readdir repos (fun _ _ => false) ino 0).1 = .ok added ∧
      ∀ entry ∈ entries, ∃ j, (j, entry) ∈ added := by
  rw [readdir_eq hPath, hEntries]
  refine ⟨_, rfl, ?_⟩
  intro entry hEntry
  show ∃ j, (j, entry) ∈ addEntries (fun _ _ => false) 0 [] entries
  rw [addEntries_all, List.nil_append]
  rw [← List.zipIdx_map_fst (0 + 1) entries] at hEntry
  obtain ⟨⟨entry, j⟩, hMem, rfl⟩ := List.mem_map.mp hEntry
  exact ⟨j, List.mem_map.mpr ⟨(entry, j), hMem, rfl⟩⟩

end LedgerFilesystem

/-! ## The entries of each kind of path -/

theorem underAccounts_ne {path fixed : String} (h : underAccounts path = true)
    (hFixed : underAccounts fixed = false) : path ≠ fixed := by
  intro hEq
  rw [hEq, hFixed] at h
  cases h

/-- A path has no listing, or is of one of five kinds. -/
theorem path_cases (path : String) :
    path = "/" ∨ path = "/accounts" ∨ underAccounts path = true ∨ path = "/transactions" ∨
      path = "/docs" ∨
        (path ∉ ["/", "/accounts", "/transactions", "/docs"] ∧ underAccounts path = false) := by
  by_cases hFixed : path ∈ ["/", "/accounts", "/transactions", "/docs"]
  · simp only [List.mem_cons, List.not_mem_nil, or_false] at hFixed
    tauto
  · cases hAccount : underAccounts path <;> tauto

section Entries

variable (fs : LedgerFilesystem) (repos : Repositories ε) (ino : UInt64)

theorem entries_root :
    fs.entries repos ino "/" =
      (some [⟨".", 1, .directory⟩, ⟨"..", 1, .directory⟩, ⟨"accounts", 2, .directory⟩,
        ⟨"transactions", 3, .directory⟩, ⟨"docs", 4, .directory⟩], fs) :=
  if_pos rfl

theorem entries_accounts_of_ok {repos : Repositories ε} {accounts : List String}
    (h : listAccounts repos = .ok accounts) :
    fs.entries repos ino "/accounts" =
      (some (⟨".", 2, .directory⟩ :: ⟨"..", 1, .directory⟩ :: (fs.listEntries accounts).1),
        (fs.listEntries accounts).2) := by
  rw [entries, if_neg (by decide), if_pos rfl, h]

theorem entries_accounts_of_error {repos : Repositories ε} {error : FuseError ε}
    (h : listAccounts repos = .error error) :
    fs.entries repos ino "/accounts" =
      (some [⟨".", 2, .directory⟩, ⟨"..", 1, .directory⟩], fs) := by
  rw [entries, if_neg (by decide), if_pos rfl, h]

/-- The two files of an account. -/
theorem entries_account {path : String} (h : underAccounts path = true) :
    fs.entries repos ino path =
      (some [⟨".", ino, .directory⟩, ⟨"..", 2, .directory⟩,
          ⟨"balance.json", (fs.getOrCreateInode (childPath path "balance.json")).1, .regularFile⟩,
          ⟨"tx.log", ((fs.getOrCreateInode (childPath path "balance.json")).2.getOrCreateInode
            (childPath path "tx.log")).1, .regularFile⟩],
        ((fs.getOrCreateInode (childPath path "balance.json")).2.getOrCreateInode
          (childPath path "tx.log")).2) := by
  have hRoot : path ≠ "/" := underAccounts_ne h (by decide)
  have hAccounts : path ≠ "/accounts" := underAccounts_ne h (by decide)
  rw [childPath_of_ne hRoot, childPath_of_ne hRoot, String.append_assoc, String.append_assoc,
    entries, if_neg hRoot, if_neg hAccounts, if_pos h]
  rfl

theorem entries_transactions :
    fs.entries repos ino "/transactions" =
      (some [⟨".", 3, .directory⟩, ⟨"..", 1, .directory⟩], fs) := by
  rw [entries, if_neg (by decide), if_neg (by decide), if_neg (by decide), if_pos rfl]

theorem entries_docs :
    fs.entries repos ino "/docs" =
      (some [⟨".", 4, .directory⟩, ⟨"..", 1, .directory⟩], fs) := by
  rw [entries, if_neg (by decide), if_neg (by decide), if_neg (by decide), if_neg (by decide),
    if_pos rfl]

theorem entries_other {path : String}
    (hFixed : path ∉ ["/", "/accounts", "/transactions", "/docs"])
    (hAccount : underAccounts path = false) : fs.entries repos ino path = (none, fs) := by
  simp only [List.mem_cons, List.not_mem_nil, or_false, not_or] at hFixed
  obtain ⟨hRoot, hAccounts, hTransactions, hDocs⟩ := hFixed
  rw [entries, if_neg hRoot, if_neg hAccounts, if_neg (by simp [hAccount]),
    if_neg hTransactions, if_neg hDocs]

/-- **The paths that can be listed.** -/
theorem entries_eq_none_iff (path : String) :
    (fs.entries repos ino path).1 = none ↔
      path ∉ ["/", "/accounts", "/transactions", "/docs"] ∧ underAccounts path = false := by
  rcases path_cases path with rfl | rfl | hAccount | rfl | rfl | ⟨hFixed, hOther⟩
  · simp [entries_root]
  · cases hList : listAccounts repos with
    | error error => simp [entries_accounts_of_error fs ino hList]
    | ok accounts => simp [entries_accounts_of_ok fs ino hList]
  · simp [entries_account fs repos ino hAccount, hAccount]
  · simp [entries_transactions]
  · simp [entries_docs]
  · simp [entries_other fs repos ino hFixed hOther, hFixed, hOther]

end Entries

/-! ## Only listed names exist -/

/-- The names below a path, the path itself and its parent left aside: the
directories of the root, the accounts of the moment, the files of an
account. -/
def childNames (repos : Repositories ε) (path : String) : List String :=
  if path = "/" then ["accounts", "transactions", "docs"]
  else if path = "/accounts" then
    match repos.findAccounts HashMap.empty with
    | .error _ => []
    | .ok accounts => accounts.map fun acc => accountText acc.id
  else if underAccounts path then ["balance.json", "tx.log"]
  else []

section Names

variable (repos : Repositories ε)

theorem childNames_accounts_of_ok {accounts : List String}
    (h : listAccounts repos = .ok accounts) : childNames repos "/accounts" = accounts := by
  unfold listAccounts at h
  rw [childNames, if_neg (by decide), if_pos rfl]
  cases hFound : repos.findAccounts HashMap.empty with
  | error error =>
      rw [hFound] at h
      cases h
  | ok found =>
      rw [hFound] at h
      exact Except.ok.inj h

theorem childNames_accounts_of_error {error : FuseError ε}
    (h : listAccounts repos = .error error) : childNames repos "/accounts" = [] := by
  unfold listAccounts at h
  rw [childNames, if_neg (by decide), if_pos rfl]
  cases hFound : repos.findAccounts HashMap.empty with
  | error error => rfl
  | ok found =>
      rw [hFound] at h
      cases h

theorem childNames_account {path : String} (h : underAccounts path = true) :
    childNames repos path = ["balance.json", "tx.log"] := by
  rw [childNames, if_neg (underAccounts_ne h (by decide)),
    if_neg (underAccounts_ne h (by decide)), if_pos h]

theorem childNames_other {path : String}
    (hFixed : path ∉ ["/", "/accounts", "/transactions", "/docs"])
    (hAccount : underAccounts path = false) : childNames repos path = [] := by
  simp only [List.mem_cons, List.not_mem_nil, or_false, not_or] at hFixed
  rw [childNames, if_neg hFixed.1, if_neg hFixed.2.1, if_neg (by simp [hAccount])]

theorem map_name_listEntries (fs : LedgerFilesystem) (accounts : List String) :
    (fs.listEntries accounts).1.map DirEntry.name = accounts := by
  induction accounts generalizing fs with
  | nil => rfl
  | cons account accounts ih => rw [listEntries, List.map_cons, ih]

/-- **The names of the entries** of a path that can be listed. -/
theorem map_name_entries {fs : LedgerFilesystem} {ino : UInt64} {path : String}
    {entries : List DirEntry} (h : (fs.entries repos ino path).1 = some entries) :
    entries.map DirEntry.name = "." :: ".." :: childNames repos path := by
  rcases path_cases path with rfl | rfl | hAccount | rfl | rfl | ⟨hFixed, hOther⟩
  · rw [entries_root] at h
    rw [← Option.some.inj h]
    rfl
  · cases hList : listAccounts repos with
    | error error =>
        rw [entries_accounts_of_error fs ino hList] at h
        rw [← Option.some.inj h, childNames_accounts_of_error repos hList]
        rfl
    | ok accounts =>
        rw [entries_accounts_of_ok fs ino hList] at h
        rw [← Option.some.inj h, childNames_accounts_of_ok repos hList, List.map_cons,
          List.map_cons, map_name_listEntries]
  · rw [entries_account fs repos ino hAccount] at h
    rw [← Option.some.inj h, childNames_account repos hAccount]
    rfl
  · rw [entries_transactions] at h
    rw [← Option.some.inj h]
    rfl
  · rw [entries_docs] at h
    rw [← Option.some.inj h]
    rfl
  · rw [entries_other fs repos ino hFixed hOther] at h
    cases h

/-- A path without a listing has no names below it. -/
theorem childNames_of_none {fs : LedgerFilesystem} {ino : UInt64} {path : String}
    (h : (fs.entries repos ino path).1 = none) : childNames repos path = [] := by
  obtain ⟨hFixed, hAccount⟩ := (entries_eq_none_iff fs repos ino path).mp h
  exact childNames_other repos hFixed hAccount

/-- No name below a path is one of the dots. -/
theorem not_dot_of_mem_childNames {path name : String} (h : name ∈ childNames repos path) :
    name ≠ "." ∧ name ≠ ".." := by
  have hTwo (names : List String) (hMem : name ∈ names)
      (hNames : ∀ n ∈ names, n ≠ "." ∧ n ≠ "..") : name ≠ "." ∧ name ≠ ".." := hNames name hMem
  rcases path_cases path with rfl | rfl | hAccount | rfl | rfl | ⟨hFixed, hOther⟩
  · exact hTwo ["accounts", "transactions", "docs"] h (by decide)
  · cases hList : listAccounts repos with
    | error error =>
        rw [childNames_accounts_of_error repos hList] at h
        cases h
    | ok accounts =>
        rw [childNames_accounts_of_ok repos hList] at h
        obtain ⟨id, rfl⟩ := exists_account_of_mem hList h
        exact ⟨accountText_ne id (by decide), accountText_ne id (by decide)⟩
  · rw [childNames_account repos hAccount] at h
    exact hTwo _ h (by decide)
  · exact absurd h List.not_mem_nil
  · exact absurd h List.not_mem_nil
  · rw [childNames_other repos hFixed hOther] at h
    cases h

end Names

namespace LedgerFilesystem

/-- Some listing of the directory shows the name, which is not `.` or `..`. -/
def Lists (fs : LedgerFilesystem) (repos : Repositories ε) (parent : UInt64) (name : String) :
    Prop :=
  name ≠ "." ∧ name ≠ ".." ∧
    ∃ full offset added, (fs.readdir repos full parent offset).1 = .ok added ∧
      ∃ item ∈ added, item.2.name = name

theorem lists_iff {fs : LedgerFilesystem} {parent : UInt64} {path : String}
    (h : fs.getPath parent = some path) (repos : Repositories ε) (name : String) :
    fs.Lists repos parent name ↔ name ∈ childNames repos path := by
  constructor
  · intro hLists
    obtain ⟨hDot, hDots, full, offset, added, hReply, item, hItem, hName⟩ := hLists
    obtain ⟨path', entries, hPath, hEntries, hAdded⟩ := readdir_eq_ok hReply
    obtain rfl := Option.some.inj (h.symm.trans hPath)
    have hMem := List.mem_map_of_mem (f := DirEntry.name) (hAdded item hItem)
    rw [map_name_entries repos hEntries, hName, List.mem_cons, List.mem_cons] at hMem
    tauto
  · intro hMem
    obtain ⟨hDot, hDots⟩ := not_dot_of_mem_childNames repos hMem
    refine ⟨hDot, hDots, fun _ _ => false, 0, ?_⟩
    cases hEntries : (fs.entries repos parent path).1 with
    | none =>
        rw [childNames_of_none repos hEntries] at hMem
        cases hMem
    | some entries =>
        obtain ⟨added, hReply, hAll⟩ := readdir_lists h hEntries
        have hListed : name ∈ entries.map DirEntry.name := by
          rw [map_name_entries repos hEntries]
          exact List.mem_cons_of_mem _ (List.mem_cons_of_mem _ hMem)
        obtain ⟨entry, hEntry, hName⟩ := List.mem_map.mp hListed
        obtain ⟨j, hj⟩ := hAll entry hEntry
        exact ⟨added, hReply, (j, entry), hj, hName⟩

/-- `lookup` replies with an entry exactly for the names that are listed, and
with `ENOENT` for every other. -/
def LookupListed (fs : LedgerFilesystem) (repos : Repositories ε) (now parent : UInt64)
    (name : String) : Prop :=
  ((∃ ttl attr generation, (fs.lookup now parent name).1 = .entry ttl attr generation) ↔
      fs.Lists repos parent name) ∧
    (¬ fs.Lists repos parent name → (fs.lookup now parent name).1 = .error ENOENT)

/-- Every name below a known inode is found. -/
theorem lookup_finds {fs : LedgerFilesystem} {parent : UInt64} {path : String}
    (h : fs.getPath parent = some path) (now : UInt64) (name : String) :
    ∃ attr, (fs.lookup now parent name).1 = .entry TTL attr 0 := by
  simp only [lookup, h]
  exact ⟨_, rfl⟩

theorem lookupListed_iff {fs : LedgerFilesystem} {parent : UInt64} {path : String}
    (h : fs.getPath parent = some path) (repos : Repositories ε) (now : UInt64)
    (name : String) :
    fs.LookupListed repos now parent name ↔ name ∈ childNames repos path := by
  obtain ⟨attr, hFound⟩ := lookup_finds h now name
  rw [LookupListed, hFound, ← lists_iff h]
  constructor
  · intro hListed
    exact hListed.1.mp ⟨_, _, _, rfl⟩
  · intro hLists
    exact ⟨⟨fun _ => hLists, fun _ => ⟨_, _, _, rfl⟩⟩, fun hNot => absurd hLists hNot⟩

end LedgerFilesystem

/-- **Only listed names exist**, where a name is listed: for a known inode of a
reachable filesystem, `lookup` agrees with `readdir` on a name exactly when the
name is one of those below the path of the inode at the moment. -/
theorem lookup_listed_iff :
    ∀ w, Reachable ε w → ∀ fs ∈ w, ∀ parent path, fs.getPath parent = some path →
      ∀ name, name ≠ "" → '/' ∉ name.toList → ∀ (repos : Repositories ε) (now : UInt64),
        (fs.LookupListed repos now parent name ↔ name ∈ childNames repos path) := by
  intro w _ fs _ parent path hParent name _ _ repos now
  exact lookupListed_iff hParent repos now name

/-- The directory of documents, as `new` leaves it. -/
theorem getPath_docs : LedgerFilesystem.new.getPath 4 = some "/docs" :=
  (holds_new.represents.getPath_iff 4 "/docs").mpr rfl

/-- An active account. -/
def createAccount (id : AccountId) : Account where
  id := id
  status := .active
  metadata :=
    { accountType := .customer
      currency := Currency.usd
      tags := HashMap.empty
      regulatoryFlags := RustVec.empty }
  createdAt := DateTime.epoch
  updatedAt := DateTime.epoch

/-- Repositories that know two accounts. -/
def Repositories.twoAccounts (a b : AccountId) : Repositories ε :=
  { Repositories.nothing with findAccounts := fun _ => .ok [createAccount a, createAccount b] }

theorem listAccounts_twoAccounts (a b : AccountId) :
    listAccounts (Repositories.twoAccounts a b : Repositories ε) =
      .ok [accountText a, accountText b] := rfl

theorem getPath_accounts : LedgerFilesystem.new.getPath 2 = some "/accounts" :=
  (holds_new.represents.getPath_iff 2 "/accounts").mpr rfl

/-- An account's name is listed in `/accounts`, and `report` is not in `/docs`. -/
theorem lookup_listed_test :
    let a : AccountId := ⟨Uuid.fromU128 1⟩
    let b : AccountId := ⟨Uuid.fromU128 2⟩
    let repos : Repositories LedgerError := Repositories.twoAccounts a b
    LedgerFilesystem.new.LookupListed repos 0 2 (accountText b) ∧
      ¬ LedgerFilesystem.new.LookupListed repos 0 4 "report" := by
  intro a b repos
  have hNames : childNames repos "/accounts" = [accountText a, accountText b] :=
    childNames_accounts_of_ok repos (listAccounts_twoAccounts a b)
  have hSlash : '/' ∉ (accountText b).toList := List.count_eq_zero.mp (slashes_accountText b)
  have hAccount := lookup_listed_iff _ Relation.ReflTransGen.refl _ (List.mem_singleton_self _) 2 _
    getPath_accounts (accountText b) (accountText_ne b (by decide)) hSlash repos 0
  have hReport := lookup_listed_iff _ Relation.ReflTransGen.refl _ (List.mem_singleton_self _) 4 _
    getPath_docs "report" (by decide) (by decide) repos 0
  refine ⟨hAccount.mpr (by simp [hNames]), fun hListed => ?_⟩
  exact absurd (hReport.mp hListed) List.not_mem_nil

/-- So a name that is not listed is found. -/
theorem lookup_unlisted :
    ¬ ∀ w, Reachable LedgerError w → ∀ fs ∈ w, ∀ parent path, fs.getPath parent = some path →
      ∀ name, name ≠ "" → '/' ∉ name.toList →
        ∀ (repos : Repositories LedgerError) (now : UInt64),
          fs.LookupListed repos now parent name := by
  intro hAll
  have hListed := hAll _ Relation.ReflTransGen.refl _ (List.mem_singleton_self _) 4 _
    getPath_docs "report" (by decide) (by decide) Repositories.nothing 0
  rw [lookupListed_iff getPath_docs] at hListed
  exact absurd hListed (by decide)

/-! ## An entry once listed -/

/-- The paths with three slashes are files. -/
theorem lookupIsDir_of_slashes {path : String} (h : slashes path = 3) :
    lookupIsDir path = false := classify_of_slashes (by decide) h.ge

/-- The three matches agree but for the root. -/
theorem isDirectory_eq {path : String} (h : path ≠ "/") :
    getattrIsDir path = lookupIsDir path ∧ PathResolver.isDirectory path = lookupIsDir path := by
  have hMatch : classify ["/", "/accounts", "/transactions", "/docs"] path =
      classify ["/accounts", "/transactions", "/docs"] path := by
    simp only [classify, List.mem_cons, h, false_or]
  exact ⟨hMatch, hMatch⟩

/-- The kind `lookup` gives a path. -/
def kindOf (path : String) : FileType :=
  if lookupIsDir path then .directory else .regularFile

theorem Represents.bound_getOrCreate {fs : LedgerFilesystem} {t : Interned String}
    (h : Represents fs t) (p : String)
    (hRoom : (fs.getOrCreateInode p).2.allocations < 2 ^ 64 - 5) :
    (fs.getOrCreateInode p).2.Bound p (fs.getOrCreateInode p).1 := by
  obtain ⟨hTable, hKey⟩ := h.getOrCreate p hRoom
  exact (hTable.bound_iff p _).mpr hKey

/-- What naming paths keeps. -/
theorem Represents.keeps_allocate {fs : LedgerFilesystem} {t : Interned String}
    (h : Represents fs t) (paths : List String)
    (hRoom : (fs.allocate paths).allocations < 2 ^ 64 - 5) : fs.Keeps (fs.allocate paths) :=
  h.keeps (h.allocate paths hRoom) (t.extends_internAll paths)

/-- Earlier in a series of names there is room as well. -/
theorem allocations_allocate_le (fs : LedgerFilesystem) (paths : List String) :
    fs.allocations ≤ (fs.allocate paths).allocations :=
  Nat.sub_le_sub_right (fs.size_allocate_le paths) 4

/-- A path stays bound while more paths are named. -/
theorem Represents.bound_first {fs : LedgerFilesystem} {t : Interned String}
    (h : Represents fs t) (p : String) (more : List String)
    (hRoom : ((fs.getOrCreateInode p).2.allocate more).allocations < 2 ^ 64 - 5) :
    (∃ u, Represents (fs.getOrCreateInode p).2 u) ∧
      ((fs.getOrCreateInode p).2.allocate more).Bound p (fs.getOrCreateInode p).1 := by
  have hFirst : (fs.getOrCreateInode p).2.allocations < 2 ^ 64 - 5 :=
    Nat.lt_of_le_of_lt (allocations_allocate_le _ more) hRoom
  have hTable := (h.getOrCreate p hFirst).1
  have hBound := h.bound_getOrCreate p hFirst
  exact ⟨⟨_, hTable⟩, hTable.keeps_allocate more hRoom _ _ hBound⟩

/-- Two paths named one after the other are both bound. -/
theorem Represents.bound_two {fs : LedgerFilesystem} {t : Interned String}
    (h : Represents fs t) (p q : String)
    (hRoom : ((fs.getOrCreateInode p).2.getOrCreateInode q).2.allocations < 2 ^ 64 - 5) :
    ((fs.getOrCreateInode p).2.getOrCreateInode q).2.Bound p (fs.getOrCreateInode p).1 ∧
      ((fs.getOrCreateInode p).2.getOrCreateInode q).2.Bound q
        ((fs.getOrCreateInode p).2.getOrCreateInode q).1 := by
  obtain ⟨⟨u, hTable⟩, hFirst⟩ := h.bound_first p [q] hRoom
  exact ⟨hFirst, hTable.bound_getOrCreate q hRoom⟩

/-- **The listed accounts** are bound to their inodes. -/
theorem Represents.bound_listEntries {fs : LedgerFilesystem} {t : Interned String}
    (h : Represents fs t) (accounts : List String)
    (hRoom : (fs.listEntries accounts).2.allocations < 2 ^ 64 - 5) :
    ∀ entry ∈ (fs.listEntries accounts).1, entry.name ∈ accounts ∧ entry.kind = .directory ∧
      (fs.listEntries accounts).2.Bound ("/accounts/" ++ entry.name) entry.inode := by
  induction accounts generalizing fs t with
  | nil =>
      intro entry hEntry
      cases hEntry
  | cons account accounts ih =>
      have hRest : (fs.listEntries (account :: accounts)).2 =
          ((fs.getOrCreateInode ("/accounts/" ++ account)).2.listEntries accounts).2 := rfl
      rw [hRest] at hRoom ⊢
      have hPaths := hRoom
      rw [listEntries_snd] at hPaths
      obtain ⟨⟨u, hTable⟩, hBound⟩ := h.bound_first ("/accounts/" ++ account) _ hPaths
      intro entry hEntry
      rw [listEntries] at hEntry
      rcases List.mem_cons.mp hEntry with rfl | hTail
      · refine ⟨List.mem_cons_self, rfl, ?_⟩
        rw [listEntries_snd]
        exact hBound
      · obtain ⟨hName, hKind, hBound⟩ := ih hTable hRoom entry hTail
        exact ⟨List.mem_cons_of_mem _ hName, hKind, hBound⟩

/-- An account is a directory. -/
theorem kindOf_accountPath (id : AccountId) :
    kindOf ("/accounts/" ++ accountText id) = .directory :=
  if_pos ((classify_iff _ _).mpr (Or.inr (Or.inl (underAccounts_accountPath id))))

/-- What is in an account is a file. -/
theorem kindOf_accountFile {path : String} (h : underAccounts path = true) (name : String)
    (hName : slashes name = 0) :
    childPath path name ≠ "/" ∧ kindOf (childPath path name) = .regularFile := by
  have hSlashes : slashes (childPath path name) = 3 := by
    rw [underAccounts, Bool.and_eq_true, beq_iff_eq] at h
    rw [slashes_childPath (by rintro rfl; exact absurd h.2 (by decide)), h.2, hName]
  constructor
  · intro hRoot
    rw [hRoot] at hSlashes
    exact absurd hSlashes (by decide)
  · rw [kindOf, lookupIsDir_of_slashes hSlashes]
    rfl

/-- Every listing starts with `.` and `..`. -/
theorem mem_of_dotted {entry : DirEntry} {i j : UInt64} {rest : List DirEntry}
    (hDot : entry.name ≠ ".") (hDots : entry.name ≠ "..")
    (hMem : entry ∈ ⟨".", i, .directory⟩ :: ⟨"..", j, .directory⟩ :: rest) : entry ∈ rest := by
  rcases List.mem_cons.mp hMem with rfl | hMem
  · exact absurd rfl hDot
  · rcases List.mem_cons.mp hMem with rfl | hMem
    · exact absurd rfl hDots
    · exact hMem

/-- **The entries of a path** are bound to their inodes and have the kind
`lookup` gives their paths. -/
theorem Holds.bound_entries {fs : LedgerFilesystem} {t : Interned String} (h : Holds fs t)
    {repos : Repositories ε} {ino : UInt64} {path : String} {entries : List DirEntry}
    (hEntries : (fs.entries repos ino path).1 = some entries)
    (hRoom : (fs.entries repos ino path).2.allocations < 2 ^ 64 - 5) :
    ∀ entry ∈ entries, entry.name ≠ "." → entry.name ≠ ".." →
      (fs.entries repos ino path).2.Bound (childPath path entry.name) entry.inode ∧
        childPath path entry.name ≠ "/" ∧ entry.kind = kindOf (childPath path entry.name) := by
  intro entry hEntry hDot hDots
  rcases path_cases path with rfl | rfl | hAccount | rfl | rfl | ⟨hFixed, hOther⟩
  · -- The three directories of the root are fixed.
    have hInvariant := h.invariant
    rw [entries_root] at hEntries ⊢
    rw [← Option.some.inj hEntries] at hEntry
    have hThree := mem_of_dotted hDot hDots hEntry
    simp only [List.mem_cons, List.not_mem_nil, or_false] at hThree
    rcases hThree with rfl | rfl | rfl
    · exact ⟨hInvariant.accounts, by decide, by decide⟩
    · exact ⟨hInvariant.transactions, by decide, by decide⟩
    · exact ⟨hInvariant.docs, by decide, by decide⟩
  · cases hList : listAccounts repos with
    | error error =>
        rw [entries_accounts_of_error fs ino hList] at hEntries
        rw [← Option.some.inj hEntries] at hEntry
        exact absurd (mem_of_dotted hDot hDots hEntry) List.not_mem_nil
    | ok accounts =>
        rw [entries_accounts_of_ok fs ino hList] at hEntries hRoom ⊢
        rw [← Option.some.inj hEntries] at hEntry
        obtain ⟨hName, hKind, hBound⟩ :=
          h.represents.bound_listEntries accounts hRoom entry (mem_of_dotted hDot hDots hEntry)
        obtain ⟨id, hId⟩ := exists_account_of_mem hList hName
        have hAccount := underAccounts_accountPath id
        rw [childPath_accounts, hKind]
        refine ⟨hBound, ?_, ?_⟩
        · rw [hId]
          exact underAccounts_ne hAccount (by decide)
        · rw [hId, kindOf_accountPath]
  · -- Two files are named, the first kept by naming the second.
    rw [entries_account fs repos ino hAccount] at hEntries hRoom ⊢
    rw [← Option.some.inj hEntries] at hEntry
    obtain ⟨hBalance, hLog⟩ :=
      h.represents.bound_two (childPath path "balance.json") (childPath path "tx.log") hRoom
    have hTwo := mem_of_dotted hDot hDots hEntry
    simp only [List.mem_cons, List.not_mem_nil, or_false] at hTwo
    rcases hTwo with rfl | rfl
    · obtain ⟨hRoot, hKind⟩ := kindOf_accountFile hAccount "balance.json" (by decide)
      exact ⟨hBalance, hRoot, hKind.symm⟩
    · obtain ⟨hRoot, hKind⟩ := kindOf_accountFile hAccount "tx.log" (by decide)
      exact ⟨hLog, hRoot, hKind.symm⟩
  · rw [entries_transactions] at hEntries
    rw [← Option.some.inj hEntries] at hEntry
    exact absurd (mem_of_dotted hDot hDots hEntry) List.not_mem_nil
  · rw [entries_docs] at hEntries
    rw [← Option.some.inj hEntries] at hEntry
    exact absurd (mem_of_dotted hDot hDots hEntry) List.not_mem_nil
  · rw [entries_other fs repos ino hFixed hOther] at hEntries
    cases hEntries

/-- What `lookup` and `getattr` say of a bound path. -/
theorem replies_of_bound {fs : LedgerFilesystem} {parent inode : UInt64} {path name : String}
    (hParent : fs.getPath parent = some path) (hBound : fs.Bound (childPath path name) inode)
    (hRoot : childPath path name ≠ "/") (now : UInt64) :
    (∃ attr, (fs.lookup now parent name).1 = .entry TTL attr 0 ∧ attr.ino = inode ∧
        attr.kind = kindOf (childPath path name)) ∧
      ∃ attr, fs.getattr now inode = .attr TTL attr ∧ attr.ino = inode ∧
        attr.kind = kindOf (childPath path name) := by
  constructor
  · rw [lookup_of_known now hParent hBound.2]
    exact ⟨_, rfl, rfl, rfl⟩
  · have hPath : fs.getPath inode = some (childPath path name) := hBound.1
    refine ⟨createFileAttr now inode (if getattrIsDir (childPath path name) then 0 else 1024)
      (getattrIsDir (childPath path name)), ?_, rfl, ?_⟩
    · simp only [getattr, hPath]
    · show (if getattrIsDir (childPath path name) then FileType.directory else .regularFile) = _
      rw [(isDirectory_eq hRoot).1]
      rfl

namespace LedgerFilesystem

/-- A filesystem says of an entry of the directory `p` what its listing said:
the inode and the kind, by `lookup` and by `getattr`, and the kind is that of
the path the inode is bound to. -/
def Confirms (fs : LedgerFilesystem) (p : UInt64) (entry : DirEntry) : Prop :=
  ∀ now : UInt64,
    (∃ attr, (fs.lookup now p entry.name).1 = .entry TTL attr 0 ∧ attr.ino = entry.inode ∧
        attr.kind = entry.kind) ∧
      (∃ attr, fs.getattr now entry.inode = .attr TTL attr ∧ attr.ino = entry.inode ∧
        attr.kind = entry.kind) ∧
      ∃ path, fs.getPath entry.inode = some path ∧
        (entry.kind = .directory ↔ PathResolver.isDirectory path = true)

end LedgerFilesystem

/-- **Listings, lookups and attributes agree**: what a listing of a reachable
filesystem shows, `.` and `..` apart, is confirmed by that filesystem after any
further steps of the world. -/
theorem listing_agrees {w : World} (h : Reachable ε w) {k : Nat} {fs : LedgerFilesystem}
    (here : w[k]? = some fs) (repos : Repositories ε) (full : Full) {p : UInt64}
    {offset : Int64} {added : List (Nat × DirEntry)}
    (hReply : (fs.readdir repos full p offset).1 = .ok added)
    (hRoom : (fs.readdir repos full p offset).2.allocations < 2 ^ 64 - 5)
    {item : Nat × DirEntry} (hItem : item ∈ added) (hDot : item.2.name ≠ ".")
    (hDots : item.2.name ≠ "..") {w' : World}
    (hRun : Run ε (w.set k (fs.readdir repos full p offset).2) w') :
    ∃ fs' : LedgerFilesystem, w'[k]? = some fs' ∧ fs'.Confirms p item.2 := by
  obtain ⟨t, ht⟩ := h.sound k fs here
  obtain ⟨path, entries, hPath, hEntries, hAdded⟩ := readdir_eq_ok hReply
  have hAfter := readdir_snd hPath repos full offset
  have hStep : Step ε w (w.set k (fs.readdir repos full p offset).2) :=
    Step.act repos 0 (.readdir full p offset) here hRoom
  obtain ⟨hSound, hContinues⟩ := hStep.keeps h.sound
  have hIn : k < w.length := (List.getElem?_eq_some_iff.mp here).1
  have hNow : (w.set k (fs.readdir repos full p offset).2)[k]? =
      some (fs.readdir repos full p offset).2 := List.getElem?_set_self hIn
  obtain ⟨fs', hThere, hKeeps⟩ := (Run.keeps hSound hRun).2.1 k _ hNow
  -- The directory keeps its path, the entry its inode.
  have hParent : fs.Bound path p :=
    (ht.represents.bound_iff path p).mpr ((ht.represents.getPath_iff p path).mp hPath)
  obtain ⟨after, hAfterThere, hKept⟩ := hContinues.1 k fs here
  obtain rfl := Option.some.inj (hNow.symm.trans hAfterThere)
  have hParentPath : fs'.getPath p = some path := (hKeeps _ _ (hKept _ _ hParent)).1
  rw [hAfter] at hRoom
  obtain ⟨hBound, hRoot, hKind⟩ :=
    ht.bound_entries hEntries hRoom item.2 (hAdded item hItem) hDot hDots
  rw [← hAfter] at hBound
  have hBoundThere := hKeeps _ _ hBound
  refine ⟨fs', hThere, fun now => ?_⟩
  obtain ⟨hLookup, hAttr⟩ := replies_of_bound hParentPath hBoundThere hRoot now
  rw [← hKind] at hLookup hAttr
  refine ⟨hLookup, hAttr, childPath path item.2.name, hBoundThere.1, ?_⟩
  rw [hKind, kindOf, (isDirectory_eq hRoot).2]
  cases lookupIsDir (childPath path item.2.name) <;> simp

/-- The filesystem after a listing of two accounts. -/
def listedAccounts (a b : AccountId) : LedgerFilesystem :=
  (LedgerFilesystem.new.readdir (Repositories.twoAccounts a b : Repositories LedgerError)
    (fun _ _ => false) 2 0).2

theorem listedAccounts_eq (a b : AccountId) :
    listedAccounts a b = (LedgerFilesystem.new.entries
      (Repositories.twoAccounts a b : Repositories LedgerError) 2 "/accounts").2 :=
  readdir_snd getPath_accounts _ _ 0

theorem allocations_listedAccounts_le (a b : AccountId) :
    (listedAccounts a b).allocations ≤ 2 := by
  have hLe := allocations_allocate_le_add LedgerFilesystem.new
    ([accountText a, accountText b].map fun id => "/accounts/" ++ id)
  rw [← listEntries_snd, allocations_new] at hLe
  rw [listedAccounts_eq, entries_accounts_of_ok _ _ (listAccounts_twoAccounts a b)]
  exact hLe

/-- The listing of two accounts. -/
theorem exists_entries_twoAccounts (a b : AccountId) :
    ∃ entries, (LedgerFilesystem.new.entries
        (Repositories.twoAccounts a b : Repositories LedgerError) 2 "/accounts").1 = some entries ∧
      entries.map DirEntry.name = [".", "..", accountText a, accountText b] := by
  have hEntries := congrArg Prod.fst (entries_accounts_of_ok LedgerFilesystem.new 2
    (listAccounts_twoAccounts a b : listAccounts (_ : Repositories LedgerError) = _))
  have hNames := map_name_entries _ hEntries
  rw [childNames_accounts_of_ok _ (listAccounts_twoAccounts a b)] at hNames
  exact ⟨_, hEntries, hNames⟩

/-- Two accounts are listed, then `/docs/report` is looked for: the listing still holds. -/
theorem listing_agrees_test :
    let a : AccountId := ⟨Uuid.fromU128 1⟩
    let b : AccountId := ⟨Uuid.fromU128 2⟩
    ∃ (added : List (Nat × DirEntry)) (entry : DirEntry) (fs' : LedgerFilesystem),
      (LedgerFilesystem.new.readdir (Repositories.twoAccounts a b : Repositories LedgerError)
        (fun _ _ => false) 2 0).1 = .ok added ∧
      (∃ i, (i, entry) ∈ added) ∧ entry.name = accountText b ∧
      [((listedAccounts a b).lookup 0 4 "report").2][0]? = some fs' ∧ fs'.Confirms 2 entry := by
  intro a b
  obtain ⟨entries, hEntries, hNames⟩ := exists_entries_twoAccounts a b
  obtain ⟨added, hReply, hAll⟩ := readdir_lists getPath_accounts hEntries
  have hName : accountText b ∈ entries.map DirEntry.name := by
    rw [hNames]
    simp
  obtain ⟨entry, hEntry, hb⟩ := List.mem_map.mp hName
  obtain ⟨i, hItem⟩ := hAll entry hEntry
  have hListed := allocations_listedAccounts_le a b
  have hRoom : (listedAccounts a b).allocations < 2 ^ 64 - 5 :=
    Nat.lt_of_le_of_lt hListed (by decide)
  have hLookup : ((listedAccounts a b).lookup 0 4 "report").2.allocations < 2 ^ 64 - 5 :=
    Nat.lt_of_le_of_lt (allocations_lookup_le _ 0 4 "report") (by omega)
  have hStep : Step LedgerError [listedAccounts a b]
      [((listedAccounts a b).lookup 0 4 "report").2] :=
    Step.act Repositories.nothing 0 (.lookup 4 "report") (k := 0) rfl hLookup
  obtain ⟨fs', hThere, hConfirms⟩ := listing_agrees (w := [LedgerFilesystem.new])
    Relation.ReflTransGen.refl (k := 0) rfl _ _ hReply hRoom hItem
    (hb ▸ accountText_ne b (by decide)) (hb ▸ accountText_ne b (by decide))
    (Relation.ReflTransGen.single hStep)
  exact ⟨added, entry, fs', hReply, ⟨i, hItem⟩, hb, hThere, hConfirms⟩

end LedgerFS.Fuse
