import LedgerFS.Fuse.InodeTable

/-!
# Reported sizes

`lookup` reports every file as empty, `getattr` reports 1024 bytes for it, and
`read` renders the file when it is asked for.  A file whose read succeeds is a
JSON object, so it is not empty; and by the inode table some name below some
known inode leads to it, so a `lookup` of that name reports the wrong size.

* `reportedSize_wrong` — no inode that can be read has its size reported right.
-/

namespace LedgerFS.Fuse

open LedgerFS.Core
open LedgerFS.Library.Interning
open LedgerFS.Library.PrettyJson
open LedgerFilesystem

variable {ε : Type}

namespace LedgerFilesystem

/-- The file `read` renders for an inode. -/
def rendered (fs : LedgerFilesystem) (C : FuseCrates) (repos : Repositories ε) (ino : UInt64) :
    Option (Except (FuseError ε) String) :=
  (fs.getPath ino).bind (content C repos)

/-- Data comes from a rendered file, whatever part of it is asked for. -/
theorem rendered_of_read {fs : LedgerFilesystem} {C : FuseCrates} {repos : Repositories ε}
    {ino : UInt64} {offset : Int64} {size : UInt32} {bytes : List UInt8}
    (h : fs.read C repos ino offset size = .data bytes) :
    ∃ text, fs.rendered C repos ino = some (.ok text) := by
  unfold read at h
  unfold rendered
  cases hPath : fs.getPath ino with
  | none =>
      rw [hPath] at h
      cases h
  | some path =>
      rw [hPath] at h
      simp only at h
      show ∃ text, content C repos path = some (.ok text)
      cases hContent : content C repos path with
      | none =>
          rw [hContent] at h
          cases h
      | some result =>
          cases result with
          | error error =>
              rw [hContent] at h
              cases h
          | ok text => exact ⟨text, rfl⟩

/-- A rendered file is read whole from the start. -/
theorem read_of_rendered {fs : LedgerFilesystem} {C : FuseCrates} {repos : Repositories ε}
    {ino : UInt64} {text : String} (h : fs.rendered C repos ino = some (.ok text))
    (offset : Int64) (size : UInt32) :
    ∃ bytes, fs.read C repos ino offset size = .data bytes := by
  obtain ⟨path, hPath, hContent⟩ := Option.bind_eq_some_iff.mp h
  simp only [read, hPath, hContent]
  split
  · exact ⟨[], rfl⟩
  · exact ⟨_, rfl⟩

/-- The sizes `lookup` and `getattr` report for an inode are the length of the
file `read` renders for it. -/
def SizeReported (fs : LedgerFilesystem) (C : FuseCrates) (repos : Repositories ε)
    (now ino : UInt64) : Prop :=
  ∀ text, fs.rendered C repos ino = some (.ok text) →
    (∀ parent name ttl attr generation,
      (fs.lookup now parent name).1 = .entry ttl attr generation → attr.ino = ino →
        attr.size.toNat = text.utf8ByteSize) ∧
    ∀ ttl attr, fs.getattr now ino = .attr ttl attr → attr.size.toNat = text.utf8ByteSize

end LedgerFilesystem

/-- What is rendered is an object, and it is not the root that is. -/
theorem content_eq_ok {C : FuseCrates} {repos : Repositories ε} {path text : String}
    (h : content C repos path = some (.ok text)) :
    path ≠ "/" ∧ ∃ fields, text = toStringPretty (.obj fields) := by
  have hBalance (accountId : String) (hText : readAccountBalance C repos accountId = .ok text) :
      ∃ fields, text = toStringPretty (.obj fields) := by
    unfold readAccountBalance at hText
    split at hText
    · cases hText
    · split at hText
      · cases hText
      · cases hText
      · exact ⟨_, (Except.ok.inj hText).symm⟩
  have hTransactions (accountId : String)
      (hText : readAccountTransactions C repos accountId = .ok text) :
      ∃ fields, text = toStringPretty (.obj fields) := by
    unfold readAccountTransactions at hText
    split at hText
    · cases hText
    · split at hText
      · cases hText
      · exact ⟨_, (Except.ok.inj hText).symm⟩
  constructor
  · intro hRoot
    rw [hRoot, content, if_neg (by decide), if_neg (by decide)] at h
    cases h
  · unfold content at h
    split at h
    · split at h
      · cases h
      · exact hBalance _ (Option.some.inj h)
    · split at h
      · split at h
        · cases h
        · exact hTransactions _ (Option.some.inj h)
      · cases h

/-- **The path of every inode but the root's** is looked up below another
known inode. -/
theorem Holds.exists_lookup {fs : LedgerFilesystem} {t : Interned String} (h : Holds fs t)
    {ino : UInt64} {path : String} (hPath : fs.getPath ino = some path) (hRoot : path ≠ "/") :
    ∃ parent parentPath name, fs.getPath parent = some parentPath ∧
      path = childPath parentPath name ∧ fs.pathMap[childPath parentPath name]? = some ino := by
  have hKey := (h.represents.getPath_iff ino path).mp hPath
  rcases h.rooted path (Interned.mem_of_key? hKey) with hEq | ⟨parentPath, hMem, name, hName⟩
  · exact absurd hEq hRoot
  · obtain ⟨parent, hParent⟩ := h.represents.exists_inode hMem
    refine ⟨parent, parentPath, name, (h.represents.getPath_iff parent parentPath).mpr hParent,
      hName, ?_⟩
    rw [h.represents.pathMap_iff, ← hName]
    exact hKey

/-- A look for a rendered file reports that it is empty. -/
theorem Holds.not_sizeReported {fs : LedgerFilesystem} {t : Interned String} (h : Holds fs t)
    {C : FuseCrates} {repos : Repositories ε} {ino : UInt64} {text : String}
    (hText : fs.rendered C repos ino = some (.ok text)) (now : UInt64) :
    ¬ fs.SizeReported C repos now ino := by
  intro hReported
  obtain ⟨path, hPath, hContent⟩ := Option.bind_eq_some_iff.mp hText
  obtain ⟨hRoot, fields, hFields⟩ := content_eq_ok hContent
  obtain ⟨parent, parentPath, name, hParent, -, hKnown⟩ := h.exists_lookup hPath hRoot
  have hLookup := congrArg Prod.fst (lookup_of_known now hParent hKnown)
  have hSize := (hReported text hText).1 parent name _ _ _ hLookup rfl
  have hPos := toStringPretty_obj_pos fields
  rw [← hFields, ← hSize] at hPos
  exact absurd hPos (Nat.lt_irrefl 0)

/-- **Sizes are reported wrong**: in no reachable filesystem does an inode that
can be read have the length of its file reported by `lookup` and `getattr`. -/
theorem reportedSize_wrong {w : World} (h : Reachable ε w) {fs : LedgerFilesystem}
    (hMem : fs ∈ w) (C : FuseCrates) (repos : Repositories ε) (now : UInt64) {ino : UInt64}
    {offset : Int64} {size : UInt32} {bytes : List UInt8}
    (hRead : fs.read C repos ino offset size = .data bytes) :
    ¬ fs.SizeReported C repos now ino := by
  obtain ⟨text, hText⟩ := rendered_of_read hRead
  obtain ⟨t, ht⟩ := h.holds hMem
  exact ht.not_sizeReported hText now

/-! ## One balance file -/

/-- Two looks, the second below the first, give the path at the end the inode 6. -/
theorem two_looks (ε : Type) {parent : UInt64} {parentPath first second : String}
    (hParent : fixedPaths.key? parent.toNat = some parentPath)
    (hFirst : slashes (childPath parentPath first) = 2)
    (hSecond : slashes (childPath (childPath parentPath first) second) = 3) :
    Reachable ε [((LedgerFilesystem.new.lookup 0 parent first).2.lookup 0 5 second).2] ∧
      ((LedgerFilesystem.new.lookup 0 parent first).2.lookup 0 5 second).2.getPath 6 =
        some (childPath (childPath parentPath first) second) := by
  have hFixed : ∀ p ∈ fixedPaths.keys, slashes p ≤ 1 := by decide
  have hNewFirst : childPath parentPath first ∉ fixedPaths.keys := by
    intro hMem
    have hSlashes := hFixed _ hMem
    omega
  have hNewSecond : childPath (childPath parentPath first) second ∉
      (fixedPaths.push _ hNewFirst).keys := by
    intro hMem
    rcases List.mem_append.mp hMem with hOld | hNew
    · have hFew := hFixed _ hOld
      omega
    · rw [List.mem_singleton.mp hNew] at hSecond
      omega
  obtain ⟨hOne, hOneRoom⟩ := holds_new.lookup_new 0 parent hParent hNewFirst (by decide)
  have hFive : (fixedPaths.push _ hNewFirst).keys.length = 5 := rfl
  obtain ⟨hTwo, hTwoRoom⟩ := hOne.lookup_new 0 5 rfl hNewSecond (by omega)
  constructor
  · have hStart : Step ε [LedgerFilesystem.new]
        [(LedgerFilesystem.new.lookup 0 parent first).2] :=
      Step.act Repositories.nothing 0 (.lookup parent first) (k := 0) rfl hOneRoom
    have hNext : Step ε [(LedgerFilesystem.new.lookup 0 parent first).2]
        [((LedgerFilesystem.new.lookup 0 parent first).2.lookup 0 5 second).2] :=
      Step.act Repositories.nothing 0 (.lookup 5 second) (k := 0) rfl hTwoRoom
    exact (Relation.ReflTransGen.single hStart).tail hNext
  · exact (hTwo.represents.getPath_iff 6 _).mpr rfl

/-- The filesystem after a look for an account and then for one of its files. -/
def lookedForFile (id : AccountId) (name : String) : LedgerFilesystem :=
  ((LedgerFilesystem.new.lookup 0 2 (accountText id)).2.lookup 0 5 name).2

/-- The two looks give the file the inode 6. -/
theorem lookedForFile_spec (ε : Type) (id : AccountId) {name : String} (hName : slashes name = 0) :
    Reachable ε [lookedForFile id name] ∧
      (lookedForFile id name).getPath 6 = some (childPath (PathResolver.accountPath id) name) := by
  rw [← childPath_accountText]
  apply two_looks ε rfl
  · rw [childPath_accountText, slashes_accountPath]
  · rw [childPath_accountText, slashes_accountFile id hName]

/-- So a read of the inode renders the balance of the account. -/
theorem content_balancePath (C : FuseCrates) (repos : Repositories ε) (id : AccountId) :
    content C repos (PathResolver.balancePath id) =
      some (readAccountBalance C repos (accountText id)) := by
  have hEnds := endsWith_accountFile id "balance.json"
  have hThird := third_accountFile id "balance.json"
  rw [childPath_balance] at hEnds hThird
  rw [content, if_pos (show endsWith "/balance.json" _ = true from hEnds), hThird]

/-- An account with a thousand cents. -/
def sampleId : AccountId := ⟨Uuid.fromU128 1⟩

def sampleBalance : Balance where
  accountId := sampleId
  amount := ⟨1000⟩
  currency := Currency.usd
  asOf := DateTime.epoch
  version := 1

def sampleRepositories : Repositories LedgerError where
  getBalance id := .ok (if id = sampleId then some sampleBalance else none)
  findAccounts _ := .ok []
  getTransactionHistory _ _ _ _ := .ok []

def FuseCrates.sample : FuseCrates where
  toCrates := Crates.sample
  parseStr text := if text = accountText sampleId then some sampleId.uuid else none

/-- The balance is there to be read. -/
theorem rendered_sample :
    (lookedForFile sampleId "balance.json").rendered FuseCrates.sample sampleRepositories 6 =
      some (.ok (toStringPretty (balanceData FuseCrates.sample sampleBalance))) := by
  rw [rendered, (lookedForFile_spec LedgerError sampleId (by decide)).2, Option.bind_some,
    childPath_balance, content_balancePath]
  simp [readAccountBalance, FuseCrates.sample, sampleRepositories]

/-- The sizes reported for it are wrong. -/
theorem reportedSize_wrong_test :
    ¬ (lookedForFile sampleId "balance.json").SizeReported FuseCrates.sample
      sampleRepositories 0 6 := by
  obtain ⟨bytes, hRead⟩ := read_of_rendered rendered_sample 0 4096
  exact reportedSize_wrong (lookedForFile_spec LedgerError sampleId (by decide)).1
    (List.mem_singleton_self _) FuseCrates.sample sampleRepositories 0 hRead

/-- So sizes are not reported right in every reachable filesystem. -/
theorem reportedSize_balance :
    ¬ ∀ w, Reachable LedgerError w → ∀ fs ∈ w, ∀ (C : FuseCrates)
      (repos : Repositories LedgerError) (now ino : UInt64) (offset : Int64) (size : UInt32)
      (bytes : List UInt8), fs.read C repos ino offset size = .data bytes →
        fs.SizeReported C repos now ino := by
  intro hAll
  obtain ⟨hReachable, -⟩ := lookedForFile_spec LedgerError sampleId
    (show slashes "balance.json" = 0 by decide)
  obtain ⟨bytes, hRead⟩ := read_of_rendered rendered_sample 0 4096
  obtain ⟨t, ht⟩ := hReachable.holds (List.mem_singleton_self _)
  exact ht.not_sizeReported rendered_sample 0
    (hAll _ hReachable _ (List.mem_singleton_self _) _ _ 0 6 0 4096 bytes hRead)

end LedgerFS.Fuse
