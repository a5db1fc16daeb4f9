import LedgerFS.Core.Types

/-!
# Paths and their classification (`path_resolver.rs`)

A path is text.  Three functions of the filesystem sort paths into directories
and files by one match: some fixed paths, then the paths under `/accounts/`
and those under `/docs/` with exactly two slashes.  `classify` is that match
with its fixed paths as a parameter; `PathResolver.isDirectory` is the member
of the family that stands on its own.
-/

namespace LedgerFS.Fuse

open LedgerFS.Core

/-! ## String functions -/

/-- `path.starts_with(start)`. -/
def startsWith (start path : String) : Bool := start.toList.isPrefixOf path.toList

/-- `path.ends_with(ending)`. -/
def endsWith (ending path : String) : Bool := ending.toList.isSuffixOf path.toList

/-- `path.matches('/').count()`. -/
def slashes (path : String) : Nat := path.toList.count '/'

/-- `path.split('/')`. -/
def splitSlash (path : String) : List String := (path.toList.splitOn '/').map String.ofList

theorem startsWith_iff (start path : String) :
    startsWith start path = true ↔ ∃ rest, path = start ++ rest := by
  rw [startsWith, List.isPrefixOf_iff_prefix]
  constructor
  · intro h
    obtain ⟨rest, hRest⟩ := h
    refine ⟨String.ofList rest, ?_⟩
    rw [← String.toList_inj, String.toList_append, String.toList_ofList, hRest]
  · intro h
    obtain ⟨rest, rfl⟩ := h
    rw [String.toList_append]
    exact List.prefix_append start.toList rest.toList

theorem endsWith_iff (ending path : String) :
    endsWith ending path = true ↔ ∃ start, path = start ++ ending := by
  rw [endsWith, List.isSuffixOf_iff_suffix]
  constructor
  · intro h
    obtain ⟨start, hStart⟩ := h
    refine ⟨String.ofList start, ?_⟩
    rw [← String.toList_inj, String.toList_append, String.toList_ofList, hStart]
  · intro h
    obtain ⟨start, rfl⟩ := h
    rw [String.toList_append]
    exact List.suffix_append start.toList ending.toList

@[simp] theorem slashes_append (a b : String) : slashes (a ++ b) = slashes a + slashes b := by
  simp [slashes]

/-- There is one component more than there are slashes. -/
theorem length_splitSlash (path : String) : (splitSlash path).length = slashes path + 1 := by
  rw [splitSlash, slashes, List.length_map]
  induction path.toList with
  | nil => rfl
  | cons c cs ih =>
      rw [List.splitOn_cons_eq_if_modifyHead, List.count_cons]
      split
      · rw [List.length_cons, ih]
      · rw [List.length_modifyHead, ih, Nat.add_zero]

theorem splitSlash_append (a b : String) :
    splitSlash (a ++ "/" ++ b) = splitSlash a ++ splitSlash b := by
  have hChars : (a ++ "/" ++ b).toList = a.toList ++ '/' :: b.toList := by simp
  rw [splitSlash, splitSlash, splitSlash, hChars, List.splitOn_append_cons_self, List.map_append]

theorem splitSlash_of_slashes {path : String} (h : slashes path = 0) :
    splitSlash path = [path] := by
  have hNotMem : '/' ∉ path.toList := List.count_eq_zero.mp h
  rw [splitSlash, List.splitOn_eq_singleton hNotMem]
  simp

theorem splitSlash_three {a b c : String} (ha : slashes a = 0) (hb : slashes b = 0)
    (hc : slashes c = 0) : splitSlash (a ++ "/" ++ b ++ "/" ++ c) = [a, b, c] := by
  rw [splitSlash_append, splitSlash_append, splitSlash_of_slashes ha, splitSlash_of_slashes hb,
    splitSlash_of_slashes hc]
  rfl

/-- The components are the path. -/
theorem splitSlash_injective : Function.Injective splitSlash := by
  intro a b h
  have hChars : a.toList.splitOn '/' = b.toList.splitOn '/' :=
    List.map_injective_iff.mpr (fun _ _ => String.ofList_inj.mp) h
  have hJoined (path : String) : ['/'].intercalate (path.toList.splitOn '/') = path.toList :=
    List.intercalate_splitOn '/'
  rw [← String.toList_inj, ← hJoined a, hChars, hJoined]

/-- Of two starts of one path, one starts with the other. -/
theorem startsWith_of_apart {a b path : String} (h : startsWith a path = true)
    (hab : startsWith a b = false) (hba : startsWith b a = false) : startsWith b path = false := by
  rw [Bool.eq_false_iff]
  intro hOther
  rw [startsWith, List.isPrefixOf_iff_prefix] at h hOther
  rcases List.prefix_or_prefix_of_prefix h hOther with hStart | hStart
  · exact absurd (List.isPrefixOf_iff_prefix.mpr hStart) (Bool.eq_false_iff.mp hab)
  · exact absurd (List.isPrefixOf_iff_prefix.mpr hStart) (Bool.eq_false_iff.mp hba)

theorem endsWith_trans {a b path : String} (hab : endsWith a b = true)
    (h : endsWith b path = true) : endsWith a path = true := by
  rw [endsWith, List.isSuffixOf_iff_suffix] at hab h ⊢
  exact hab.trans h

/-- Of two ends of one path, one ends with the other. -/
theorem endsWith_of_apart {a b path : String} (h : endsWith a path = true)
    (hab : endsWith a b = false) (hba : endsWith b a = false) : endsWith b path = false := by
  rw [Bool.eq_false_iff]
  intro hOther
  rw [endsWith, List.isSuffixOf_iff_suffix] at h hOther
  rcases List.suffix_or_suffix_of_suffix h hOther with hEnd | hEnd
  · exact absurd (List.isSuffixOf_iff_suffix.mpr hEnd) (Bool.eq_false_iff.mp hab)
  · exact absurd (List.isSuffixOf_iff_suffix.mpr hEnd) (Bool.eq_false_iff.mp hba)

/-- A file of a directory ends like another file only if it has its name. -/
theorem endsWith_child (parent : String) {rest name : String} (hRest : slashes rest = 0)
    (hName : slashes name = 0) :
    endsWith ("/" ++ name) (parent ++ "/" ++ rest) = true ↔ rest = name := by
  rw [endsWith_iff]
  constructor
  · intro h
    obtain ⟨start, hStart⟩ := h
    have hSplit := congrArg splitSlash hStart
    rw [← String.append_assoc, splitSlash_append, splitSlash_append, splitSlash_of_slashes hRest,
      splitSlash_of_slashes hName] at hSplit
    exact List.singleton_inj.mp (List.append_inj' hSplit rfl).2
  · intro h
    exact ⟨parent, by rw [h, String.append_assoc]⟩

/-- The components of a path below its first one. -/
theorem exists_of_splitSlash {path first second : String} {rest : List String}
    (h : splitSlash path = first :: second :: rest) :
    ∃ below, path = first ++ "/" ++ below ∧ slashes first = 0 ∧
      splitSlash below = second :: rest := by
  have hSlash : '/' ∈ path.toList := by
    by_contra hNone
    rw [splitSlash_of_slashes (List.count_eq_zero.mpr hNone)] at h
    cases h
  obtain ⟨start, below, hPath, hFirst⟩ := List.eq_append_cons_of_mem hSlash
  have hSplit : path = String.ofList start ++ "/" ++ String.ofList below := by
    rw [← String.toList_inj, hPath]
    simp
  have hNone : slashes (String.ofList start) = 0 := by
    rw [slashes, String.toList_ofList]
    exact List.count_eq_zero.mpr hFirst
  rw [hSplit, splitSlash_append, splitSlash_of_slashes hNone] at h
  obtain ⟨rfl, hBelow⟩ := List.cons.inj h
  exact ⟨String.ofList below, hSplit, hNone, hBelow⟩

/-! ## Classification -/

/-- The guard of the `/accounts/` arm. -/
def underAccounts (path : String) : Bool :=
  startsWith "/accounts/" path && slashes path == 2

/-- The guard of the `/docs/` arm. -/
def underDocs (path : String) : Bool :=
  startsWith "/docs/" path && slashes path == 2

/-- The match that sorts a path, given the paths of its first arm. -/
def classify (fixed : List String) (path : String) : Bool :=
  if path ∈ fixed then true
  else if underAccounts path then true
  else if underDocs path then true
  else false

/-- `PathResolver::is_directory`. -/
def PathResolver.isDirectory (path : String) : Bool :=
  classify ["/", "/accounts", "/transactions", "/docs"] path

theorem classify_iff (fixed : List String) (path : String) :
    classify fixed path = true ↔
      path ∈ fixed ∨ underAccounts path = true ∨ underDocs path = true := by
  unfold classify
  split <;> simp [*]

/-- A path with three slashes or more is none of the sorted ones. -/
theorem classify_of_slashes {fixed : List String} (hFixed : ∀ p ∈ fixed, slashes p < 3)
    {path : String} (h : 3 ≤ slashes path) : classify fixed path = false := by
  rw [Bool.eq_false_iff, Ne, classify_iff]
  rintro (hMem | hAccount | hDocs)
  · have hFew := hFixed path hMem
    omega
  · rw [underAccounts, Bool.and_eq_true, beq_iff_eq] at hAccount
    omega
  · rw [underDocs, Bool.and_eq_true, beq_iff_eq] at hDocs
    omega

/-! ## Paths of children -/

/-- The path a name has below a parent: the root already ends with a slash. -/
def childPath (parent name : String) : String :=
  if parent = "/" then "/" ++ name else parent ++ "/" ++ name

theorem childPath_of_ne {parent : String} (h : parent ≠ "/") (name : String) :
    childPath parent name = parent ++ "/" ++ name := if_neg h

/-- One more slash than an account directory has. -/
theorem slashes_childPath {parent : String} (h : parent ≠ "/") (name : String) :
    slashes (childPath parent name) = slashes parent + 1 + slashes name := by
  rw [childPath_of_ne h, slashes_append, slashes_append]
  rfl

/-! ## Account paths -/

private theorem slash_not_mem_hex (bs : List UInt8) : '/' ∉ Uuid.hex bs := by
  have hDigit : ∀ i : Fin 16, Nat.digitChar i ≠ '/' := by decide
  intro h
  obtain ⟨b, -, hb⟩ := List.mem_flatMap.mp h
  have hLt := b.toNat_lt
  have hHigh := hDigit ⟨b.toNat / 16, by omega⟩
  have hLow := hDigit ⟨b.toNat % 16, by omega⟩
  simp only [Uuid.hexByte, List.mem_cons, List.not_mem_nil, or_false] at hb
  rcases hb with hb | hb
  · exact hHigh hb.symm
  · exact hLow hb.symm

/-- No identifier has a slash in its text. -/
theorem slash_not_mem_hyphenated (u : Uuid) : '/' ∉ u.hyphenated := by
  simp [Uuid.hyphenated, slash_not_mem_hex]

/-- `acc.id.0.to_string()`. -/
def accountText (id : AccountId) : String := id.uuid.toText.text

theorem slashes_accountText (id : AccountId) : slashes (accountText id) = 0 := by
  rw [slashes, List.count_eq_zero]
  show '/' ∉ (String.ofList id.uuid.hyphenated).toList
  rw [String.toList_ofList]
  exact slash_not_mem_hyphenated id.uuid

/-- A shorter name is no account's. -/
theorem accountText_ne (id : AccountId) {name : String} (h : name.toList.length < 36) :
    accountText id ≠ name := by
  intro hEq
  have hLength : (accountText id).toList.length = 36 := by
    show (String.ofList id.uuid.hyphenated).toList.length = 36
    rw [String.toList_ofList, Uuid.length_hyphenated]
  rw [hEq] at hLength
  omega

/-- An account's own path is in the `/accounts/` arm. -/
theorem underAccounts_accountPath (id : AccountId) :
    underAccounts ("/accounts/" ++ accountText id) = true := by
  rw [underAccounts, Bool.and_eq_true, startsWith_iff, slashes_append, slashes_accountText]
  exact ⟨⟨_, rfl⟩, rfl⟩

/-! ## Generated paths -/

namespace PathResolver

/-- `PathResolver::account_path`. -/
def accountPath (accountId : AccountId) : String := "/accounts/" ++ accountText accountId

/-- `PathResolver::balance_path`. -/
def balancePath (accountId : AccountId) : String :=
  "/accounts/" ++ accountText accountId ++ "/balance.json"

/-- `PathResolver::transaction_log_path`. -/
def transactionLogPath (accountId : AccountId) : String :=
  "/accounts/" ++ accountText accountId ++ "/tx.log"

end PathResolver

/-- The end of an account's own path is its identifier, and that is no file. -/
theorem not_endsWith_accountPath (id : AccountId) {name : String} (hName : slashes name = 0)
    (hShort : name.toList.length < 36) :
    ¬ endsWith ("/" ++ name) (PathResolver.accountPath id) = true := by
  intro hEnds
  exact accountText_ne id hShort
    ((endsWith_child "/accounts" (slashes_accountText id) hName).mp hEnds)

theorem splitSlash_accountPath (id : AccountId) :
    splitSlash (PathResolver.accountPath id) = ["", "accounts", accountText id] := by
  have hPath : PathResolver.accountPath id = "" ++ "/" ++ "accounts" ++ "/" ++ accountText id := rfl
  rw [hPath, splitSlash_three (by decide) (by decide) (slashes_accountText id)]

/-- The components of what is below an account. -/
theorem splitSlash_accountChild (id : AccountId) (rest : String) :
    splitSlash (PathResolver.accountPath id ++ "/" ++ rest) =
      "" :: "accounts" :: accountText id :: splitSlash rest := by
  rw [splitSlash_append, splitSlash_accountPath]
  rfl

/-! Seen from the root, an account and its files have the generated paths. -/

theorem childPath_accounts (name : String) :
    childPath "/accounts" name = "/accounts/" ++ name :=
  childPath_of_ne (by decide) name

theorem childPath_accountText (id : AccountId) :
    childPath "/accounts" (accountText id) = PathResolver.accountPath id :=
  childPath_accounts _

theorem slashes_accountPath (id : AccountId) : slashes (PathResolver.accountPath id) = 2 := by
  rw [← childPath_accountText, slashes_childPath (by decide), slashes_accountText]
  rfl

theorem childPath_accountPath (id : AccountId) (name : String) :
    childPath (PathResolver.accountPath id) name = PathResolver.accountPath id ++ "/" ++ name := by
  refine childPath_of_ne ?_ name
  intro h
  have hSlashes := slashes_accountPath id
  rw [h] at hSlashes
  exact absurd hSlashes (by decide)

theorem childPath_balance (id : AccountId) :
    childPath (PathResolver.accountPath id) "balance.json" = PathResolver.balancePath id := by
  rw [childPath_accountPath, String.append_assoc]
  rfl

theorem slashes_accountFile (id : AccountId) {name : String} (hName : slashes name = 0) :
    slashes (childPath (PathResolver.accountPath id) name) = 3 := by
  rw [childPath_accountPath, slashes_append, slashes_append, slashes_accountPath, hName]
  rfl

theorem endsWith_accountFile (id : AccountId) (name : String) :
    endsWith ("/" ++ name) (childPath (PathResolver.accountPath id) name) = true := by
  rw [childPath_accountPath, String.append_assoc, endsWith_iff]
  exact ⟨_, rfl⟩

theorem third_accountFile (id : AccountId) (name : String) :
    (splitSlash (childPath (PathResolver.accountPath id) name))[2]? = some (accountText id) := by
  rw [childPath_accountPath, splitSlash_accountChild]
  rfl

/-- The components of an account's file. -/
theorem splitSlash_accountFile (id : AccountId) {name : String} (hName : slashes name = 0) :
    splitSlash ("/accounts/" ++ accountText id ++ ("/" ++ name)) =
      ["", "accounts", accountText id, name] := by
  have hPath : "/accounts/" ++ accountText id ++ ("/" ++ name) =
      PathResolver.accountPath id ++ "/" ++ name := by
    rw [← String.append_assoc]
    rfl
  rw [hPath, splitSlash_accountChild, splitSlash_of_slashes hName]

/-- A file is an account's when its four components are the right ones. -/
theorem eq_accountFile {path name : String} {id : AccountId} (hName : slashes name = 0)
    (hStarts : startsWith "/" path = true) (hEnds : endsWith ("/" ++ name) path = true)
    (hSlashes : slashes path = 3) (hTop : (splitSlash path)[1]? = some "accounts")
    (hId : (splitSlash path)[2]? = some (accountText id)) :
    path = "/accounts/" ++ accountText id ++ ("/" ++ name) := by
  apply splitSlash_injective
  rw [splitSlash_accountFile id hName]
  have hFirst : (splitSlash path).head? = some "" := by
    obtain ⟨rest, rfl⟩ := (startsWith_iff _ _).mp hStarts
    have hSplit := splitSlash_append "" rest
    rw [String.empty_append, splitSlash_of_slashes (show slashes "" = 0 by decide)] at hSplit
    rw [hSplit]
    rfl
  have hLast : (splitSlash path).getLast? = some name := by
    obtain ⟨start, rfl⟩ := (endsWith_iff _ _).mp hEnds
    rw [← String.append_assoc, splitSlash_append, splitSlash_of_slashes hName]
    exact List.getLast?_concat
  have hLength := length_splitSlash path
  rw [hSlashes] at hLength
  generalize splitSlash path = parts at *
  match parts, hLength with
  | [first, top, account, file], _ =>
      simp only [List.head?_cons, Option.some.injEq] at hFirst
      simp only [List.getElem?_cons_succ, List.getElem?_cons_zero, Option.some.injEq] at hTop hId
      have hFile : file = name := Option.some.inj hLast
      rw [hFirst, hTop, hId, hFile]

end LedgerFS.Fuse
