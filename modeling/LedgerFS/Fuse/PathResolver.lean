import LedgerFS.Fuse.Paths

/-!
# Kinds of paths (`path_resolver.rs`)

`PathResolver` writes the paths of the filesystem down in three ways: it generates them, it
sorts them into directories and files, and it tells the type of a file by its ending.

* `generated_classified_iff` — the generators and the classification agree, except on
  snapshots: these are generated as `snapshot_<timestamp>.json` and looked for as
  `snapshot.json`.
* `directory_or_file_iff` — no path is a directory and a file at once, except four paths and
  the documents of the top directory.
-/

namespace LedgerFS.Fuse

open LedgerFS.Core

/-- `transaction_id.0` as text. -/
def transactionText (id : TransactionId) : String := id.uuid.toText.text

theorem slashes_transactionText (id : TransactionId) : slashes (transactionText id) = 0 :=
  slashes_accountText ⟨id.uuid⟩

namespace PathResolver

/-- `PathResolver::snapshot_path`. -/
def snapshotPath (accountId : AccountId) (timestamp : String) : String :=
  "/accounts/" ++ accountText accountId ++ "/snapshot_" ++ timestamp ++ ".json"

/-- `PathResolver::transaction_path`. -/
def transactionPath (transactionId : TransactionId) : String :=
  "/transactions/" ++ transactionText transactionId ++ ".json"

/-- `PathResolver::is_valid_file`. -/
def isValidFile (path : String) : Bool :=
  if endsWith "/balance.json" path then true
  else if endsWith "/tx.log" path then true
  else if endsWith "/snapshot.json" path then true
  else if startsWith "/transactions/" path && endsWith ".json" path then true
  else if startsWith "/docs/" path && (endsWith ".json" path || endsWith ".pdf" path) then true
  else false

/-- `path_resolver::FileType`. -/
inductive FileType
  | directory
  | json
  | log
  | pdf
  | unknown
deriving DecidableEq

/-- `PathResolver::get_file_type`. -/
def getFileType (path : String) : FileType :=
  if isDirectory path then .directory
  else if endsWith ".json" path then .json
  else if endsWith ".log" path then .log
  else if endsWith ".pdf" path then .pdf
  else .unknown

theorem isValidFile_iff (path : String) :
    isValidFile path = true ↔
      endsWith "/balance.json" path = true ∨ endsWith "/tx.log" path = true ∨
        endsWith "/snapshot.json" path = true ∨
        (startsWith "/transactions/" path = true ∧ endsWith ".json" path = true) ∨
        (startsWith "/docs/" path = true ∧
          (endsWith ".json" path = true ∨ endsWith ".pdf" path = true)) := by
  simp only [isValidFile, Bool.and_eq_true, Bool.or_eq_true, Bool.if_true_left,
    Bool.decide_eq_true, Bool.or_false, Bool.decide_and, Bool.decide_or]

/-- Below `/accounts` three names are files. -/
theorem isValidFile_of_accounts {path : String} (h : startsWith "/accounts/" path = true) :
    isValidFile path = true ↔
      ∃ name ∈ ["balance.json", "tx.log", "snapshot.json"], endsWith ("/" ++ name) path = true := by
  have hNoTransaction := startsWith_of_apart h (b := "/transactions/") (by decide) (by decide)
  have hNoDocument := startsWith_of_apart h (b := "/docs/") (by decide) (by decide)
  have hBalance : "/balance.json" = "/" ++ "balance.json" := rfl
  have hLog : "/tx.log" = "/" ++ "tx.log" := rfl
  have hSnapshot : "/snapshot.json" = "/" ++ "snapshot.json" := rfl
  rw [isValidFile_iff, hNoTransaction, hNoDocument, hBalance, hLog, hSnapshot]
  simp only [Bool.false_eq_true, false_and, or_false, List.mem_cons, List.not_mem_nil,
    or_and_right, exists_or, exists_eq_left]

theorem getFileType_eq_directory_iff (path : String) :
    getFileType path = .directory ↔ isDirectory path = true := by
  unfold getFileType
  split
  · simp [*]
  · rename_i hNot
    simp only [hNot, Bool.false_eq_true, iff_false]
    repeat' split
    all_goals exact FileType.noConfusion

/-! ## Generated paths -/

/-- A path is a file of the type, and no directory. -/
structure IsFile (fileType : FileType) (path : String) : Prop where
  valid : isValidFile path = true
  notDirectory : isDirectory path = false
  hasType : getFileType path = fileType

/-! The files of an account are below its directory. -/

theorem balancePath_eq (id : AccountId) :
    balancePath id = accountPath id ++ "/" ++ "balance.json" := by
  rw [String.append_assoc]
  rfl

theorem transactionLogPath_eq (id : AccountId) :
    transactionLogPath id = accountPath id ++ "/" ++ "tx.log" := by
  rw [String.append_assoc]
  rfl

theorem snapshotPath_eq (id : AccountId) (timestamp : String) :
    snapshotPath id timestamp =
      accountPath id ++ "/" ++ ("snapshot_" ++ timestamp ++ ".json") := by
  have hStart : "/snapshot_" = "/" ++ "snapshot_" := rfl
  show "/accounts/" ++ accountText id ++ "/snapshot_" ++ timestamp ++ ".json" =
    "/accounts/" ++ accountText id ++ "/" ++ ("snapshot_" ++ timestamp ++ ".json")
  rw [hStart]
  simp only [String.append_assoc]

/-- What is below an account is no directory. -/
theorem isDirectory_accountChild (id : AccountId) (rest : String) :
    isDirectory (accountPath id ++ "/" ++ rest) = false := by
  have hSlashes : slashes (accountPath id ++ "/" ++ rest) = 3 + slashes rest := by
    have hTop : slashes "/accounts/" = 2 := rfl
    have hOne : slashes "/" = 1 := rfl
    show slashes ("/accounts/" ++ accountText id ++ "/" ++ rest) = 3 + slashes rest
    rw [slashes_append, slashes_append, slashes_append, hTop, hOne, slashes_accountText]
  exact classify_of_slashes (by decide) (hSlashes ▸ Nat.le_add_right 3 _)

theorem getFileType_of_json {path : String} (hNot : isDirectory path = false)
    (hEnds : endsWith ".json" path = true) : getFileType path = .json := by
  simp [getFileType, hNot, hEnds]

theorem getFileType_of_log {path : String} (hNot : isDirectory path = false)
    (hEnds : endsWith ".log" path = true) : getFileType path = .log := by
  have hOther : endsWith ".json" path = false :=
    endsWith_of_apart hEnds (by decide) (by decide)
  simp [getFileType, hNot, hEnds, hOther]

/-- An account is a directory. -/
theorem classified_accountPath (id : AccountId) :
    isDirectory (accountPath id) = true ∧ isValidFile (accountPath id) = false := by
  have hAccount := underAccounts_accountPath id
  refine ⟨(classify_iff _ _).mpr (Or.inr (Or.inl hAccount)), ?_⟩
  have hStarts : startsWith "/accounts/" (accountPath id) = true :=
    (startsWith_iff _ _).mpr ⟨_, rfl⟩
  have hNames : ∀ name ∈ ["balance.json", "tx.log", "snapshot.json"],
      slashes name = 0 ∧ name.toList.length < 36 := by decide
  rw [Bool.eq_false_iff, Ne, isValidFile_of_accounts hStarts]
  rintro ⟨name, hMem, hEnds⟩
  obtain ⟨hFree, hShort⟩ := hNames name hMem
  exact not_endsWith_accountPath id hFree hShort hEnds

theorem isFile_balancePath (id : AccountId) : IsFile .json (balancePath id) := by
  have hNot : isDirectory (balancePath id) = false := by
    rw [balancePath_eq]
    exact isDirectory_accountChild id "balance.json"
  have hEnds : endsWith "/balance.json" (balancePath id) = true :=
    (endsWith_iff _ _).mpr ⟨_, rfl⟩
  have hJson : endsWith ".json" (balancePath id) = true := endsWith_trans (by decide) hEnds
  exact ⟨(isValidFile_iff _).mpr (Or.inl hEnds), hNot, getFileType_of_json hNot hJson⟩

theorem isFile_transactionLogPath (id : AccountId) : IsFile .log (transactionLogPath id) := by
  have hNot : isDirectory (transactionLogPath id) = false := by
    rw [transactionLogPath_eq]
    exact isDirectory_accountChild id "tx.log"
  have hEnds : endsWith "/tx.log" (transactionLogPath id) = true :=
    (endsWith_iff _ _).mpr ⟨_, rfl⟩
  have hLog : endsWith ".log" (transactionLogPath id) = true := endsWith_trans (by decide) hEnds
  exact ⟨(isValidFile_iff _).mpr (Or.inr (Or.inl hEnds)), hNot, getFileType_of_log hNot hLog⟩

theorem isFile_transactionPath (id : TransactionId) : IsFile .json (transactionPath id) := by
  have hStarts : startsWith "/transactions/" (transactionPath id) = true :=
    (startsWith_iff _ _).mpr ⟨transactionText id ++ ".json", String.append_assoc⟩
  have hJson : endsWith ".json" (transactionPath id) = true := (endsWith_iff _ _).mpr ⟨_, rfl⟩
  have hSlashes : slashes (transactionPath id) = 2 := by
    have hTop : slashes "/transactions/" = 2 := rfl
    have hJsonEnd : slashes ".json" = 0 := rfl
    show slashes ("/transactions/" ++ transactionText id ++ ".json") = 2
    rw [slashes_append, slashes_append, hTop, hJsonEnd, slashes_transactionText]
  -- Two slashes as an account's path has, but another start.
  have hFixed : ∀ p ∈ ["/", "/accounts", "/transactions", "/docs"], slashes p ≠ 2 := by decide
  have hNoAccount : underAccounts (transactionPath id) = false := by
    rw [underAccounts, startsWith_of_apart hStarts (by decide) (by decide), Bool.false_and]
  have hNoDocument : underDocs (transactionPath id) = false := by
    rw [underDocs, startsWith_of_apart hStarts (by decide) (by decide), Bool.false_and]
  have hNot : isDirectory (transactionPath id) = false := by
    rw [Bool.eq_false_iff, Ne, isDirectory, classify_iff, hNoAccount, hNoDocument]
    rintro (hMem | hArm | hArm)
    · exact hFixed _ hMem hSlashes
    · exact Bool.false_ne_true hArm
    · exact Bool.false_ne_true hArm
  exact ⟨(isValidFile_iff _).mpr (Or.inr (Or.inr (Or.inr (Or.inl ⟨hStarts, hJson⟩)))), hNot,
    getFileType_of_json hNot hJson⟩

/-- **A snapshot** has the type of a file, and is taken for none: its name is none of those
that are looked for. -/
theorem classified_snapshotPath (id : AccountId) {timestamp : String}
    (hFree : slashes timestamp = 0) :
    isValidFile (snapshotPath id timestamp) = false ∧
      isDirectory (snapshotPath id timestamp) = false ∧
      getFileType (snapshotPath id timestamp) = .json := by
  have hPath := snapshotPath_eq id timestamp
  have hFile : slashes ("snapshot_" ++ timestamp ++ ".json") = 0 := by
    rw [slashes_append, slashes_append, hFree]
    rfl
  have hNot : isDirectory (snapshotPath id timestamp) = false := by
    rw [hPath]
    exact isDirectory_accountChild id _
  have hJson : endsWith ".json" (snapshotPath id timestamp) = true :=
    (endsWith_iff _ _).mpr ⟨_, rfl⟩
  refine ⟨?_, hNot, getFileType_of_json hNot hJson⟩
  have hStarts : startsWith "/accounts/" (snapshotPath id timestamp) = true := by
    rw [hPath]
    exact (startsWith_iff _ _).mpr ⟨_, String.append_assoc.trans String.append_assoc⟩
  have hNames : ∀ name ∈ ["balance.json", "tx.log", "snapshot.json"],
      slashes name = 0 ∧ startsWith "snapshot_" name = false := by decide
  rw [Bool.eq_false_iff, Ne, isValidFile_of_accounts hStarts]
  rintro ⟨name, hMem, hEnds⟩
  obtain ⟨hPlain, hOther⟩ := hNames name hMem
  rw [hPath, endsWith_child _ hFile hPlain] at hEnds
  rw [← hEnds, Bool.eq_false_iff] at hOther
  exact hOther ((startsWith_iff _ _).mpr ⟨timestamp ++ ".json", String.append_assoc⟩)

/-- A call of one of the generators. -/
inductive Generated
  | account (accountId : AccountId)
  | balance (accountId : AccountId)
  | transactionLog (accountId : AccountId)
  | snapshot (accountId : AccountId) (timestamp : String)
  | transaction (transactionId : TransactionId)

namespace Generated

/-- The path it gives. -/
def path : Generated → String
  | .account accountId => accountPath accountId
  | .balance accountId => balancePath accountId
  | .transactionLog accountId => transactionLogPath accountId
  | .snapshot accountId timestamp => snapshotPath accountId timestamp
  | .transaction transactionId => transactionPath transactionId

/-- The timestamp, if there is one, has no slash. -/
def SlashFree : Generated → Prop
  | .snapshot _ timestamp => slashes timestamp = 0
  | _ => True

/-- The path is classified as what it is. -/
def ClassifiedRight (generated : Generated) : Prop :=
  match generated with
  | .account _ => isDirectory generated.path = true ∧ isValidFile generated.path = false
  | .transactionLog _ => IsFile .log generated.path
  | _ => IsFile .json generated.path

end Generated

/-- **When a generated path is classified as what it is**: unless it is a snapshot's, which
then is no directory and has the type of a file, but is no valid file. -/
theorem generated_classified_iff (generated : Generated) (hFree : generated.SlashFree) :
    (generated.ClassifiedRight ↔
      ∀ accountId timestamp, generated ≠ .snapshot accountId timestamp) ∧
    ∀ accountId timestamp, generated = .snapshot accountId timestamp →
      isValidFile generated.path = false ∧ isDirectory generated.path = false ∧
        getFileType generated.path = .json := by
  constructor
  · cases generated with
    | account accountId => exact iff_of_true (classified_accountPath accountId) (by simp)
    | balance accountId => exact iff_of_true (isFile_balancePath accountId) (by simp)
    | transactionLog accountId => exact iff_of_true (isFile_transactionLogPath accountId) (by simp)
    | transaction transactionId =>
        exact iff_of_true (isFile_transactionPath transactionId) (by simp)
    | snapshot accountId timestamp =>
        refine iff_of_false ?_ (fun hNever => hNever accountId timestamp rfl)
        intro hRight
        have hInvalid := (classified_snapshotPath accountId hFree).1
        exact Bool.false_ne_true (hInvalid.symm.trans hRight.valid)
  · intro accountId timestamp hSnapshot
    subst hSnapshot
    exact classified_snapshotPath accountId hFree

/-- A transaction, and a snapshot of the first of January. -/
theorem generated_classified_test :
    (Generated.transaction ⟨Uuid.fromU128 1⟩).ClassifiedRight ∧
      isValidFile (snapshotPath ⟨Uuid.fromU128 1⟩ "2026-01-01") = false := by
  have hFree : slashes "2026-01-01" = 0 := by decide
  exact ⟨(generated_classified_iff (.transaction ⟨Uuid.fromU128 1⟩) trivial).1.mpr (by simp),
    ((generated_classified_iff (.snapshot ⟨Uuid.fromU128 1⟩ "2026-01-01") hFree).2 _ _ rfl).1⟩

/-- So a snapshot is not classified as what it is. -/
theorem snapshot_misclassified :
    ¬ ∀ generated : Generated, generated.SlashFree → generated.ClassifiedRight := by
  intro hAlways
  have hFree : slashes "2026-01-01" = 0 := by decide
  have hRight : IsFile .json (snapshotPath ⟨Uuid.fromU128 1⟩ "2026-01-01") :=
    hAlways (.snapshot ⟨Uuid.fromU128 1⟩ "2026-01-01") hFree
  have hInvalid := (classified_snapshotPath ⟨Uuid.fromU128 1⟩ hFree).1
  exact Bool.false_ne_true (hInvalid.symm.trans hRight.valid)

/-! ## Directories that are files -/

/-- The file names below `/accounts` and `/docs` that sort as both. -/
def bothWays : List String :=
  ["/accounts/balance.json", "/accounts/tx.log", "/accounts/snapshot.json", "/docs/tx.log"]

/-- A document of the top directory. -/
def TopDocument (path : String) : Prop :=
  underDocs path = true ∧ (endsWith ".json" path = true ∨ endsWith ".pdf" path = true)

/-- What is below a top directory, and ends like a file, is that file. -/
theorem eq_child_of_endsWith (top name : String) {path : String}
    (hStarts : startsWith (top ++ "/") path = true) (hSlashes : slashes path = slashes top + 1)
    (hName : slashes name = 0) (hEnds : endsWith ("/" ++ name) path = true) :
    path = top ++ "/" ++ name := by
  obtain ⟨rest, rfl⟩ := (startsWith_iff _ _).mp hStarts
  have hOne : slashes "/" = 1 := rfl
  rw [slashes_append, slashes_append, hOne] at hSlashes
  rw [(endsWith_child top (by omega) hName).mp hEnds]

theorem isDirectory_and_isValidFile_of_bothWays :
    ∀ path ∈ bothWays, isDirectory path = true ∧ isValidFile path = true := by decide

/-- **The directories that are files as well.** -/
theorem directory_and_file_iff (path : String) :
    isDirectory path = true ∧ isValidFile path = true ↔
      path ∈ bothWays ∨ TopDocument path := by
  constructor
  · rintro ⟨hDirectory, hFile⟩
    rcases (classify_iff _ _).mp hDirectory with hMem | hAccount | hDocs
    · have hFixed : ∀ p ∈ ["/", "/accounts", "/transactions", "/docs"], isValidFile p = false := by
        decide
      rw [hFixed path hMem] at hFile
      cases hFile
    · -- Only the three names, in place of an account.
      rw [underAccounts, Bool.and_eq_true, beq_iff_eq] at hAccount
      obtain ⟨name, hName, hEnds⟩ := (isValidFile_of_accounts hAccount.1).mp hFile
      have hNames : ∀ n ∈ ["balance.json", "tx.log", "snapshot.json"],
          slashes n = 0 ∧ "/accounts" ++ "/" ++ n ∈ bothWays := by decide
      rw [eq_child_of_endsWith "/accounts" name hAccount.1 hAccount.2 (hNames name hName).1 hEnds]
      exact Or.inl (hNames name hName).2
    · have hArm := hDocs
      rw [underDocs, Bool.and_eq_true, beq_iff_eq] at hArm
      rcases (isValidFile_iff path).mp hFile with hEnds | hEnds | hEnds | ⟨hOther, -⟩ | ⟨-, hEnds⟩
      · exact Or.inr ⟨hDocs, Or.inl (endsWith_trans (by decide) hEnds)⟩
      · rw [eq_child_of_endsWith "/docs" "tx.log" hArm.1 hArm.2 rfl hEnds]
        exact Or.inl (by decide)
      · exact Or.inr ⟨hDocs, Or.inl (endsWith_trans (by decide) hEnds)⟩
      · rw [startsWith_of_apart hArm.1 (by decide) (by decide)] at hOther
        cases hOther
      · exact Or.inr ⟨hDocs, hEnds⟩
  · rintro (hMem | ⟨hDocs, hEnds⟩)
    · exact isDirectory_and_isValidFile_of_bothWays path hMem
    · have hArm := hDocs
      rw [underDocs, Bool.and_eq_true] at hArm
      exact ⟨(classify_iff _ _).mpr (Or.inr (Or.inr hDocs)),
        (isValidFile_iff path).mpr (Or.inr (Or.inr (Or.inr (Or.inr ⟨hArm.1, hEnds⟩))))⟩

/-- **When a path is not both**, and a file has no directory's type: unless it is one of four
paths, or a document of the top directory. -/
theorem directory_or_file_iff (path : String) :
    (¬ (isDirectory path = true ∧ isValidFile path = true) ∧
        (isValidFile path = true → getFileType path ≠ .directory)) ↔
      path ∉ bothWays ∧ ¬ TopDocument path := by
  rw [← not_or, ← directory_and_file_iff, Ne, getFileType_eq_directory_iff]
  constructor
  · intro h
    exact h.1
  · intro hNot
    exact ⟨hNot, fun hFile hDirectory => hNot ⟨hDirectory, hFile⟩⟩

/-- A balance in place of an account, and a document in place of a directory. -/
theorem directory_and_file :
    (isDirectory "/accounts/balance.json" = true ∧ isValidFile "/accounts/balance.json" = true) ∧
      (isValidFile "/docs/report.pdf" = true ∧ getFileType "/docs/report.pdf" = .directory) ∧
      ¬ ∀ path, ¬ (isDirectory path = true ∧ isValidFile path = true) ∧
        (isValidFile path = true → getFileType path ≠ .directory) := by
  refine ⟨by decide, by decide, fun hAlways => ?_⟩
  exact (hAlways "/accounts/balance.json").1 (by decide)

end PathResolver

end LedgerFS.Fuse
