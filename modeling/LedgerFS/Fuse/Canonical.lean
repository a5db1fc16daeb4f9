import LedgerFS.Fuse.Reads
import LedgerFS.Fuse.UuidText

/-!
# Where account data is served

`read` looks at the end of a path and at its third component only, and the parser of that
component takes an identifier in several spellings.  So besides the two files of an account
there are aliases: paths with the same ending whose third component is parsed as the
account, but below another directory, at another depth or in another spelling.

* `served_canonically_iff` — account data comes from canonical paths only, exactly if no
  inode has such a path.
-/

namespace LedgerFS.Fuse

open LedgerFS.Core
open LedgerFS.Library.Interning
open LedgerFS.Library.PrettyJson
open LedgerFilesystem

/-! ## What a file shows -/

section Data

variable {ε : Type} (C : FuseCrates) (repos : Repositories ε)

/-- The text shows the balance of the account. -/
def BalanceOf (id : AccountId) (text : String) : Prop :=
  ∃ balance, repos.getBalance id = .ok (some balance) ∧
    text = toStringPretty (balanceData C balance)

/-- The text shows the last transactions of the account. -/
def TransactionsOf (id : AccountId) (text : String) : Prop :=
  ∃ transactions, repos.getTransactionHistory id none none (some 100) = .ok transactions ∧
    text = toStringPretty (txData C id transactions)

/-- What a successful read is about: the account its third component is parsed as. -/
theorem content_shows {path text : String} (h : content C repos path = some (.ok text)) :
    ∃ u, ((splitSlash path)[2]?).bind C.parseStr = some u ∧
      ((endsWith "/balance.json" path = true ∧ BalanceOf C repos ⟨u⟩ text) ∨
        (endsWith "/tx.log" path = true ∧ TransactionsOf C repos ⟨u⟩ text)) := by
  unfold content at h
  split at h
  · rename_i hEnds
    split at h
    · cases h
    · rename_i accountId hThird
      unfold readAccountBalance at h
      cases hParse : C.parseStr accountId with
      | none => simp [hParse] at h
      | some u =>
          refine ⟨u, by rw [hThird, Option.bind_some, hParse], Or.inl ⟨hEnds, ?_⟩⟩
          simp only [hParse, Option.some.injEq] at h
          split at h
          · cases h
          · cases h
          · rename_i balance hBalance
            exact ⟨balance, hBalance, (Except.ok.inj h).symm⟩
  · split at h
    · rename_i hEnds
      split at h
      · cases h
      · rename_i accountId hThird
        unfold readAccountTransactions at h
        cases hParse : C.parseStr accountId with
        | none => simp [hParse] at h
        | some u =>
            refine ⟨u, by rw [hThird, Option.bind_some, hParse], Or.inr ⟨hEnds, ?_⟩⟩
            simp only [hParse, Option.some.injEq] at h
            split at h
            · cases h
            · rename_i transactions hTransactions
              exact ⟨transactions, hTransactions, (Except.ok.inj h).symm⟩
    · cases h

end Data

/-- Whatever a read of the inode gives is a piece of the right account's data, and the path
is the canonical one of that file. -/
def LedgerFilesystem.ServedCanonically {ε : Type} (fs : LedgerFilesystem) (C : FuseCrates)
    (repos : Repositories ε) (ino : UInt64) (offset : Int64) (size : UInt32) : Prop :=
  ∀ bytes, fs.read C repos ino offset size = .data bytes →
    ∃ path text id, fs.getPath ino = some path ∧
      bytes <+: text.toByteArray.data.toList.drop offset.toUInt64.toNat ∧
        ((path = PathResolver.balancePath id ∧ BalanceOf C repos id text) ∨
          (path = PathResolver.transactionLogPath id ∧ TransactionsOf C repos id text))

/-! ## Aliases -/

/-- The path is read like a file of the account and is not one of its two files. -/
structure IsAlias (C : FuseCrates) (path : String) (u : Uuid) : Prop where
  file : endsWith "/balance.json" path = true ∨ endsWith "/tx.log" path = true
  parsed : ((splitSlash path)[2]?).bind C.parseStr = some u
  other : slashes path ≠ 3 ∨ (splitSlash path)[1]? ≠ some "accounts" ∨
    (splitSlash path)[2]? ≠ some (accountText ⟨u⟩)

theorem not_isAlias_of_accountFile (C : FuseCrates) (u : Uuid) {name : String}
    (hName : slashes name = 0) :
    ¬ IsAlias C ("/accounts/" ++ accountText ⟨u⟩ ++ ("/" ++ name)) u := by
  intro h
  have hSplit := splitSlash_accountFile ⟨u⟩ hName
  have hSlashes := length_splitSlash ("/accounts/" ++ accountText ⟨u⟩ ++ ("/" ++ name))
  rw [hSplit] at hSlashes
  rcases h.other with hDepth | hTop | hSpelling
  · exact hDepth (Nat.succ.inj hSlashes).symm
  · rw [hSplit] at hTop
    exact hTop rfl
  · rw [hSplit] at hSpelling
    exact hSpelling rfl

/-- A path that is read and is no alias is canonical. -/
theorem eq_accountFile_of_not_isAlias {C : FuseCrates} {path : String} {u : Uuid} (name : String)
    (hName : slashes name = 0) (hStarts : startsWith "/" path = true)
    (hEnds : endsWith ("/" ++ name) path = true)
    (hFile : endsWith "/balance.json" path = true ∨ endsWith "/tx.log" path = true)
    (hParsed : ((splitSlash path)[2]?).bind C.parseStr = some u) (h : ¬ IsAlias C path u) :
    path = "/accounts/" ++ accountText ⟨u⟩ ++ ("/" ++ name) := by
  by_cases hDepth : slashes path = 3
  · by_cases hTop : (splitSlash path)[1]? = some "accounts"
    · by_cases hSpelling : (splitSlash path)[2]? = some (accountText ⟨u⟩)
      · exact eq_accountFile hName hStarts hEnds hDepth hTop hSpelling
      · exact absurd ⟨hFile, hParsed, Or.inr (Or.inr hSpelling)⟩ h
    · exact absurd ⟨hFile, hParsed, Or.inr (Or.inl hTop)⟩ h
  · exact absurd ⟨hFile, hParsed, Or.inl hDepth⟩ h

/-! ## Reads of an inode -/

/-- Repositories that know one account only. -/
def Repositories.only (id : AccountId) : Repositories LedgerError where
  getBalance other := .ok (if other = id then some sampleBalance else none)
  findAccounts _ := .ok []
  getTransactionHistory other _ _ _ := if other = id then .ok [] else .error .amountOverflow

theorem content_of_isAlias {C : FuseCrates} {path : String} {u : Uuid} (h : IsAlias C path u) :
    ∃ text, content C (Repositories.only ⟨u⟩) path = some (.ok text) := by
  obtain ⟨accountId, hThird, hParse⟩ := Option.bind_eq_some_iff.mp h.parsed
  unfold content
  split
  · simp [hThird, readAccountBalance, hParse, Repositories.only]
  · rw [if_pos (h.file.resolve_left ‹_›)]
    simp [hThird, readAccountTransactions, hParse, Repositories.only]

theorem eq_of_balanceOf_only {C : FuseCrates} {id other : AccountId} {text : String}
    (h : BalanceOf C (Repositories.only id) other text) : other = id := by
  obtain ⟨balance, hBalance, -⟩ := h
  by_contra hNe
  simp [Repositories.only, hNe] at hBalance

theorem eq_of_transactionsOf_only {C : FuseCrates} {id other : AccountId} {text : String}
    (h : TransactionsOf C (Repositories.only id) other text) : other = id := by
  obtain ⟨transactions, hTransactions, -⟩ := h
  by_contra hNe
  simp [Repositories.only, hNe] at hTransactions

namespace LedgerFilesystem

/-- What is read is a piece of the rendered file. -/
theorem prefix_of_read {ε : Type} {fs : LedgerFilesystem} {C : FuseCrates}
    {repos : Repositories ε} {ino : UInt64} {offset : Int64} {size : UInt32} {bytes : List UInt8}
    (h : fs.read C repos ino offset size = .data bytes) :
    ∃ path text, fs.getPath ino = some path ∧ content C repos path = some (.ok text) ∧
      bytes <+: text.toByteArray.data.toList.drop offset.toUInt64.toNat := by
  obtain ⟨text, hText⟩ := rendered_of_read h
  obtain ⟨path, hPath, hContent⟩ := Option.bind_eq_some_iff.mp hText
  refine ⟨path, text, hPath, hContent, ?_⟩
  simp only [read, hPath, hContent] at h
  split at h
  · rw [← ReplyData.data.inj h]
    exact List.nil_prefix
  · rw [← ReplyData.data.inj h, List.drop_take]
    exact List.take_prefix _ _

/-- **For one inode.** -/
theorem servedCanonically_iff {fs : LedgerFilesystem} {t : Interned String} (h : Holds fs t)
    (C : FuseCrates) (ino : UInt64) :
    (∀ (repos : Repositories LedgerError) (offset : Int64) (size : UInt32),
      fs.ServedCanonically C repos ino offset size) ↔
        ∀ path, fs.getPath ino = some path → ∀ u, ¬ IsAlias C path u := by
  constructor
  · intro hServed path hPath u hAlias
    -- Only the account of the alias is known, so it is the one whose data is shown.
    obtain ⟨text, hText⟩ := content_of_isAlias hAlias
    have hRendered : fs.rendered C (Repositories.only ⟨u⟩) ino = some (.ok text) := by
      rw [rendered, hPath, Option.bind_some, hText]
    obtain ⟨bytes, hRead⟩ := read_of_rendered hRendered 0 4096
    obtain ⟨other, shown, id, hOther, -, hKind⟩ := hServed _ 0 4096 bytes hRead
    rw [hPath, Option.some.injEq] at hOther
    subst hOther
    rcases hKind with ⟨hCanonical, hShows⟩ | ⟨hCanonical, hShows⟩
    · rw [eq_of_balanceOf_only hShows] at hCanonical
      rw [hCanonical] at hAlias
      exact not_isAlias_of_accountFile C u (by decide : slashes "balance.json" = 0) hAlias
    · rw [eq_of_transactionsOf_only hShows] at hCanonical
      rw [hCanonical] at hAlias
      exact not_isAlias_of_accountFile C u (by decide : slashes "tx.log" = 0) hAlias
  · intro hNone repos offset size bytes hRead
    obtain ⟨path, text, hPath, hContent, hPiece⟩ := prefix_of_read hRead
    have hStarts := h.startsWith_slash (h.represents.mem_of_getPath hPath)
    obtain ⟨u, hParsed, hShows⟩ := content_shows C repos hContent
    refine ⟨path, text, ⟨u⟩, hPath, hPiece, ?_⟩
    rcases hShows with ⟨hEnds, hBalance⟩ | ⟨hEnds, hTransactions⟩
    · refine Or.inl ⟨?_, hBalance⟩
      exact eq_accountFile_of_not_isAlias "balance.json" rfl hStarts hEnds (Or.inl hEnds) hParsed
        (hNone path hPath u)
    · refine Or.inr ⟨?_, hTransactions⟩
      exact eq_accountFile_of_not_isAlias "tx.log" rfl hStarts hEnds (Or.inr hEnds) hParsed
        (hNone path hPath u)

end LedgerFilesystem

/-! ## Runs -/

/-- The action asks for no alias: no lookup leads to one, and no directory is listed whose
two files are some. -/
def LeavesAliases (C : FuseCrates) (fs : LedgerFilesystem) : Action → Prop
  | .lookup parent name =>
      ∀ parentPath, fs.getPath parent = some parentPath →
        ∀ u, ¬ IsAlias C (childPath parentPath name) u
  | .readdir _ ino _ =>
      ∀ path, fs.getPath ino = some path → underAccounts path = true →
        ∀ u, ¬ IsAlias C (childPath path "balance.json") u ∧ ¬ IsAlias C (childPath path "tx.log") u
  | _ => True

theorem LeavesAliases.enters {C : FuseCrates} {fs : LedgerFilesystem} {action : Action}
    (h : LeavesAliases C fs action) {path : String} (hEnters : fs.Enters path action) (u : Uuid) :
    ¬ IsAlias C path u := by
  cases action with
  | lookup parent name =>
      obtain ⟨parentPath, hPath, rfl⟩ := hEnters
      exact h parentPath hPath u
  | readdir full ino offset =>
      obtain ⟨parentPath, name, hPath, rfl, hKind⟩ := hEnters
      rcases hKind with ⟨rfl, id, rfl⟩ | ⟨hAccount, hName⟩
      · -- The listed accounts are directories.
        rw [childPath_accounts]
        intro hAlias
        have hBalance := not_endsWith_accountPath id (show slashes "balance.json" = 0 by decide)
          (by decide)
        have hLog := not_endsWith_accountPath id (show slashes "tx.log" = 0 by decide) (by decide)
        rcases hAlias.file with hFile | hFile
        · exact hBalance hFile
        · exact hLog hFile
      · obtain ⟨hBalance, hLog⟩ := h parentPath hPath hAccount u
        simp only [List.mem_cons, List.not_mem_nil, or_false] at hName
        rcases hName with rfl | rfl
        · exact hBalance
        · exact hLog
  | getattr ino => exact hEnters.elim
  | read ino offset size => exact hEnters.elim

/-- **Where account data is served**: an inode of a reachable filesystem serves it at its
canonical path only, exactly unless its path is an alias; so all inodes do, in a run in which
no alias is asked for. -/
theorem served_canonically_iff (C : FuseCrates) :
    (∀ w, Reachable LedgerError w → ∀ fs ∈ w, ∀ ino : UInt64,
      ((∀ (repos : Repositories LedgerError) (offset : Int64) (size : UInt32),
        fs.ServedCanonically C repos ino offset size) ↔
          ∀ path, fs.getPath ino = some path → ∀ u, ¬ IsAlias C path u)) ∧
    ∀ w, RestrictedRun LedgerError (LeavesAliases C) w → ∀ fs ∈ w,
      ∀ (repos : Repositories LedgerError) (ino : UInt64) (offset : Int64) (size : UInt32),
        fs.ServedCanonically C repos ino offset size := by
  have hIff : ∀ w, Reachable LedgerError w → ∀ fs ∈ w, ∀ ino : UInt64,
      ((∀ (repos : Repositories LedgerError) (offset : Int64) (size : UInt32),
        fs.ServedCanonically C repos ino offset size) ↔
          ∀ path, fs.getPath ino = some path → ∀ u, ¬ IsAlias C path u) := by
    intro w hReachable fs hMem ino
    obtain ⟨t, ht⟩ := hReachable.holds hMem
    exact servedCanonically_iff ht C ino
  refine ⟨hIff, ?_⟩
  intro w hRun fs hMem repos ino offset size
  have hFixed : ∀ path ∈ fixedPaths.keys, ¬ ∃ u, IsAlias C path u := by
    rintro path hPath ⟨u, hAlias⟩
    have hNoFile : ∀ p ∈ fixedPaths.keys, ¬ (endsWith "/balance.json" p = true ∨
        endsWith "/tx.log" p = true) := by
      decide
    exact hNoFile path hPath hAlias.file
  obtain ⟨hReachable, hFree⟩ := free_of_restricted hFixed
    (fun _ _ _ hLeaves hEnters hAlias => hAlias.elim (hLeaves.enters hEnters)) hRun
  exact (hIff w hReachable fs hMem ino).mpr
    (fun path hPath u hAlias => hFree fs hMem ino path hPath ⟨u, hAlias⟩) repos offset size

/-! ## An alias -/

/-- The filesystem after a look for an account's identifier among the documents, and then
for its balance. -/
def lookedForAlias (id : AccountId) : LedgerFilesystem :=
  ((LedgerFilesystem.new.lookup 0 4 (accountText id)).2.lookup 0 5 "balance.json").2

/-- The path of the inode it was given. -/
def aliasPath (id : AccountId) : String :=
  childPath (childPath "/docs" (accountText id)) "balance.json"

theorem aliasPath_eq (id : AccountId) :
    aliasPath id = "" ++ "/" ++ "docs" ++ "/" ++ accountText id ++ "/" ++ "balance.json" := by
  have hDocs : childPath "/docs" (accountText id) ≠ "/" := by
    rw [childPath_of_ne (by decide)]
    intro hRoot
    have hSlashes := congrArg slashes hRoot
    rw [slashes_append, slashes_append, slashes_accountText] at hSlashes
    exact absurd hSlashes (by decide)
  rw [aliasPath, childPath_of_ne hDocs, childPath_of_ne (by decide)]
  rfl

theorem splitSlash_aliasPath (id : AccountId) :
    splitSlash (aliasPath id) = ["", "docs", accountText id, "balance.json"] := by
  rw [aliasPath_eq, splitSlash_append,
    splitSlash_three (by decide) (by decide) (slashes_accountText id),
    splitSlash_of_slashes (by decide)]
  rfl

theorem isAlias_aliasPath (id : AccountId) :
    IsAlias FuseCrates.standard (aliasPath id) id.uuid where
  file := by
    refine Or.inl ((endsWith_iff _ _).mpr ⟨"" ++ "/" ++ "docs" ++ "/" ++ accountText id, ?_⟩)
    rw [aliasPath_eq, String.append_assoc]
    rfl
  parsed := by
    have hThird : (splitSlash (aliasPath id))[2]? = some (accountText id) := by
      rw [splitSlash_aliasPath]
      rfl
    rw [hThird, Option.bind_some]
    exact FuseCrates.standard_parses id.uuid
  other := by
    rw [splitSlash_aliasPath]
    have hDocs : some "docs" ≠ some "accounts" := by decide
    exact Or.inr (Or.inl hDocs)

theorem lookedForAlias_spec (ε : Type) (id : AccountId) :
    Reachable ε [lookedForAlias id] ∧ (lookedForAlias id).getPath 6 = some (aliasPath id) := by
  have hThree : slashes (aliasPath id) = 3 := by
    have hLength := length_splitSlash (aliasPath id)
    rw [splitSlash_aliasPath] at hLength
    exact (Nat.succ.inj hLength).symm
  refine two_looks ε rfl ?_ hThree
  rw [slashes_childPath (by decide), slashes_accountText]
  rfl

/-- The alias and the account's own balance, and the filesystem before any look. -/
theorem served_canonically_test :
    ((∀ (repos : Repositories LedgerError) (offset : Int64) (size : UInt32),
        (lookedForAlias sampleId).ServedCanonically FuseCrates.standard repos 6 offset size) ↔
      ∀ path, (lookedForAlias sampleId).getPath 6 = some path →
        ∀ u, ¬ IsAlias FuseCrates.standard path u) ∧
    LedgerFilesystem.new.ServedCanonically FuseCrates.standard sampleRepositories 1 0 4096 :=
  ⟨(served_canonically_iff FuseCrates.standard).1 _ (lookedForAlias_spec LedgerError sampleId).1 _
      (List.mem_singleton_self _) 6,
    (served_canonically_iff FuseCrates.standard).2 _ Relation.ReflTransGen.refl _
      (List.mem_singleton_self _) _ 1 0 4096⟩

/-- So account data is served elsewhere too. -/
theorem served_elsewhere :
    ¬ ∀ w, Reachable LedgerError w → ∀ fs ∈ w, ∀ (repos : Repositories LedgerError)
      (ino : UInt64) (offset : Int64) (size : UInt32),
        fs.ServedCanonically FuseCrates.standard repos ino offset size := by
  intro hAll
  obtain ⟨hReachable, hPath⟩ := lookedForAlias_spec LedgerError sampleId
  obtain ⟨t, ht⟩ := hReachable.holds (List.mem_singleton_self _)
  have hServed := hAll _ hReachable _ (List.mem_singleton_self _)
  exact (servedCanonically_iff ht FuseCrates.standard 6).mp
    (fun repos offset size => hServed repos 6 offset size) _ hPath _ (isAlias_aliasPath sampleId)

end LedgerFS.Fuse
