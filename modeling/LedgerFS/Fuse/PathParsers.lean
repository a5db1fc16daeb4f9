import LedgerFS.Fuse.PathResolver
import LedgerFS.Fuse.UuidText

/-!
# Parsed paths (`path_resolver.rs`)

The parsers look at the second and the third component of a path, and at nothing else: not
at what stands before the first slash, nor, for a transaction, at what follows its file.
They take every spelling of an identifier that `Uuid::parse_str` takes.

* `parse_generated` — of a generated path they make the identifier it was generated for.
* `parsers_canonical_iff` — when they take generated paths only.
-/

namespace LedgerFS.Fuse

open LedgerFS.Core

variable {ε : Type}

/-- `text.strip_suffix(ending)`. -/
def stripSuffix (ending text : String) : Option String :=
  if endsWith ending text then
    some (String.ofList (text.toList.take (text.toList.length - ending.toList.length)))
  else none

theorem stripSuffix_eq_some_iff (ending text rest : String) :
    stripSuffix ending text = some rest ↔ text = rest ++ ending := by
  have hStrip (start : String) : stripSuffix ending (start ++ ending) = some start := by
    rw [stripSuffix, if_pos ((endsWith_iff _ _).mpr ⟨start, rfl⟩)]
    simp
  constructor
  · intro h
    have hEnds : endsWith ending text = true := by
      by_contra hNot
      rw [stripSuffix, if_neg hNot] at h
      cases h
    obtain ⟨start, rfl⟩ := (endsWith_iff _ _).mp hEnds
    rw [hStrip, Option.some.injEq] at h
    rw [h]
  · intro h
    rw [h, hStrip]

namespace PathResolver

/-- The third component, where the second one is the name of a top directory. -/
def thirdBelow (top path : String) : Option String :=
  match splitSlash path with
  | _ :: second :: third :: _ => if second ≠ top then none else some third
  | _ => none

/-- `PathResolver::parse_account_id`. -/
def parseAccountId (C : FuseCrates) (path : String) : Except (FuseError ε) AccountId :=
  match thirdBelow "accounts" path with
  | none => .error (.invalidPath path)
  | some accountIdStr =>
      match C.parseStr accountIdStr with
      | none => .error (.invalidPath path)
      | some uuid => .ok ⟨uuid⟩

/-- `PathResolver::parse_transaction_id`. -/
def parseTransactionId (C : FuseCrates) (path : String) : Except (FuseError ε) TransactionId :=
  match thirdBelow "transactions" path with
  | none => .error (.invalidPath path)
  | some txFilename =>
      match stripSuffix ".json" txFilename with
      | none => .error (.invalidPath path)
      | some txIdStr =>
          match C.parseStr txIdStr with
          | none => .error (.invalidPath path)
          | some uuid => .ok ⟨uuid⟩

/-! ## What the parsers look at -/

theorem thirdBelow_eq_some_iff (top path third : String) :
    thirdBelow top path = some third ↔
      ∃ first more, splitSlash path = first :: top :: third :: more := by
  unfold thirdBelow
  split
  · rename_i first second other more hSplit
    rw [hSplit]
    by_cases hTop : second = top
    · simp [hTop]
    · simp [hTop]
  · rename_i hFew
    simp only [reduceCtorEq, false_iff, not_exists]
    intro first more hSplit
    exact hFew first top third more hSplit

theorem parseAccountId_eq_ok_iff (C : FuseCrates) (path : String) (id : AccountId) :
    (parseAccountId C path : Except (FuseError ε) AccountId) = .ok id ↔
      ∃ text, thirdBelow "accounts" path = some text ∧ C.parseStr text = some id.uuid := by
  unfold parseAccountId
  cases hThird : thirdBelow "accounts" path with
  | none => simp
  | some text =>
      cases hParse : C.parseStr text with
      | none => simp [hParse]
      | some u =>
          simp only [hParse, Except.ok.injEq, Option.some.injEq, exists_eq_left']
          exact ⟨fun h => congrArg AccountId.uuid h, fun h => congrArg AccountId.mk h⟩

theorem parseTransactionId_eq_ok_iff (C : FuseCrates) (path : String) (id : TransactionId) :
    (parseTransactionId C path : Except (FuseError ε) TransactionId) = .ok id ↔
      ∃ text, thirdBelow "transactions" path = some (text ++ ".json") ∧
        C.parseStr text = some id.uuid := by
  unfold parseTransactionId
  cases hThird : thirdBelow "transactions" path with
  | none => simp
  | some name =>
      simp only [Option.some.injEq, ← stripSuffix_eq_some_iff ".json" name]
      cases hStrip : stripSuffix ".json" name with
      | none => simp
      | some text =>
          cases hParse : C.parseStr text with
          | none => simp [hParse]
          | some u =>
              simp only [hParse, Except.ok.injEq, Option.some.injEq, exists_eq_left']
              exact ⟨fun h => congrArg TransactionId.uuid h, fun h => congrArg TransactionId.mk h⟩

theorem exists_thirdBelow_iff (top path : String) (name : String → String) (p : String → Prop) :
    (∃ text, thirdBelow top path = some (name text) ∧ p text) ↔
      ∃ first text more, splitSlash path = first :: top :: name text :: more ∧ p text := by
  simp only [thirdBelow_eq_some_iff]
  constructor
  · rintro ⟨text, ⟨first, more, hSplit⟩, hText⟩
    exact ⟨first, text, more, hSplit, hText⟩
  · rintro ⟨first, text, more, hSplit, hText⟩
    exact ⟨text, ⟨first, more, hSplit⟩, hText⟩

/-- **What is taken for an account.** -/
theorem parseAccountId_spec (C : FuseCrates) (path : String) (id : AccountId) :
    (parseAccountId C path : Except (FuseError ε) AccountId) = .ok id ↔
      ∃ first text more, splitSlash path = first :: "accounts" :: text :: more ∧
        C.parseStr text = some id.uuid :=
  (parseAccountId_eq_ok_iff C path id).trans
    (exists_thirdBelow_iff "accounts" path (fun text => text) _)

/-- **What is taken for a transaction.** -/
theorem parseTransactionId_spec (C : FuseCrates) (path : String) (id : TransactionId) :
    (parseTransactionId C path : Except (FuseError ε) TransactionId) = .ok id ↔
      ∃ first text more, splitSlash path = first :: "transactions" :: (text ++ ".json") :: more ∧
        C.parseStr text = some id.uuid :=
  (parseTransactionId_eq_ok_iff C path id).trans
    (exists_thirdBelow_iff "transactions" path (fun text => text ++ ".json") _)

/-- Below another directory nothing is found. -/
theorem thirdBelow_eq_none {top path first second : String} {more : List String}
    (hSplit : splitSlash path = first :: second :: more) (hTop : second ≠ top) :
    thirdBelow top path = none := by
  rw [Option.eq_none_iff_forall_ne_some]
  intro third hThird
  obtain ⟨first', more', hSplit'⟩ := (thirdBelow_eq_some_iff top path third).mp hThird
  rw [hSplit] at hSplit'
  exact hTop (List.cons.inj (List.cons.inj hSplit').2).1

theorem parseAccountId_of_none (C : FuseCrates) {path : String}
    (h : thirdBelow "accounts" path = none) :
    (parseAccountId C path : Except (FuseError ε) AccountId) = .error (.invalidPath path) := by
  rw [parseAccountId, h]

theorem parseTransactionId_of_none (C : FuseCrates) {path : String}
    (h : thirdBelow "transactions" path = none) :
    (parseTransactionId C path : Except (FuseError ε) TransactionId) =
      .error (.invalidPath path) := by
  rw [parseTransactionId, h]

/-! ## Components of canonical paths -/

/-- An account's directory, or what is below it. -/
def AtAccount (id : AccountId) (path : String) : Prop :=
  path = accountPath id ∨ startsWith (accountPath id ++ "/") path = true

theorem splitSlash_atAccount_iff (id : AccountId) (path : String) :
    AtAccount id path ↔ ∃ more, splitSlash path = "" :: "accounts" :: accountText id :: more := by
  constructor
  · rintro (rfl | hBelow)
    · exact ⟨[], splitSlash_accountPath id⟩
    · obtain ⟨rest, rfl⟩ := (startsWith_iff _ _).mp hBelow
      exact ⟨splitSlash rest, splitSlash_accountChild id rest⟩
  · rintro ⟨more, hSplit⟩
    cases more with
    | nil =>
        rw [← splitSlash_accountPath] at hSplit
        exact Or.inl (splitSlash_injective hSplit)
    | cons third more =>
        -- The path is put together again, one component at a time.
        obtain ⟨belowRoot, hRoot, -, hSplit⟩ := exists_of_splitSlash hSplit
        obtain ⟨belowTop, hTop, -, hSplit⟩ := exists_of_splitSlash hSplit
        obtain ⟨rest, hAccount, -, -⟩ := exists_of_splitSlash hSplit
        refine Or.inr ((startsWith_iff _ _).mpr ⟨rest, ?_⟩)
        rw [hRoot, hTop, hAccount]
        simp only [← String.append_assoc]
        rfl

theorem splitSlash_transactionPath (id : TransactionId) :
    splitSlash (transactionPath id) = ["", "transactions", transactionText id ++ ".json"] := by
  have hPath : transactionPath id =
      "" ++ "/" ++ "transactions" ++ "/" ++ (transactionText id ++ ".json") := by
    rw [← String.append_assoc]
    rfl
  have hName : slashes (transactionText id ++ ".json") = 0 := by
    rw [slashes_append, slashes_transactionText]
    rfl
  rw [hPath, splitSlash_three (by decide) (by decide) hName]

/-- A path at an account is parsed as that account, and as no transaction. -/
theorem parse_atAccount {C : FuseCrates} (hParse : ∀ u, C.parseStr u.toText.text = some u)
    {id : AccountId} {path : String} (h : AtAccount id path) :
    (parseAccountId C path : Except (FuseError ε) AccountId) = .ok id ∧
      (parseTransactionId C path : Except (FuseError ε) TransactionId) =
        .error (.invalidPath path) := by
  obtain ⟨more, hSplit⟩ := (splitSlash_atAccount_iff id path).mp h
  have hOther : thirdBelow "transactions" path = none := thirdBelow_eq_none hSplit (by decide)
  exact ⟨(parseAccountId_spec C path id).mpr ⟨_, _, _, hSplit, hParse id.uuid⟩,
    parseTransactionId_of_none C hOther⟩

theorem parse_transactionPath {C : FuseCrates} (hParse : ∀ u, C.parseStr u.toText.text = some u)
    (id : TransactionId) :
    (parseTransactionId C (transactionPath id) : Except (FuseError ε) TransactionId) = .ok id ∧
      (parseAccountId C (transactionPath id) : Except (FuseError ε) AccountId) =
        .error (.invalidPath (transactionPath id)) := by
  have hSplit := splitSlash_transactionPath id
  have hOther : thirdBelow "accounts" (transactionPath id) = none :=
    thirdBelow_eq_none hSplit (by decide)
  exact ⟨(parseTransactionId_spec C _ id).mpr ⟨_, _, _, hSplit, hParse id.uuid⟩,
    parseAccountId_of_none C hOther⟩

/-- The generators of an account's paths stay at the account. -/
theorem atAccount_generated (id : AccountId) (timestamp : String) :
    ∀ path ∈ [accountPath id, balancePath id, transactionLogPath id, snapshotPath id timestamp],
      AtAccount id path := by
  have hChild (name : String) : AtAccount id (accountPath id ++ "/" ++ name) :=
    Or.inr ((startsWith_iff _ _).mpr ⟨name, rfl⟩)
  rw [balancePath_eq, transactionLogPath_eq, snapshotPath_eq]
  simp only [List.forall_mem_cons, List.not_mem_nil, false_implies, implies_true, and_true]
  exact ⟨Or.inl rfl, hChild _, hChild _, hChild _⟩

/-- **Parsing a generated path gives back its identifier**, and the parser for the other kind
of identifier rejects it. -/
theorem parse_generated (C : FuseCrates) (hParse : ∀ u, C.parseStr u.toText.text = some u) :
    (∀ id timestamp, ∀ path ∈ [accountPath id, balancePath id, transactionLogPath id,
        snapshotPath id timestamp],
      (parseAccountId C path : Except (FuseError ε) AccountId) = .ok id ∧
        (parseTransactionId C path : Except (FuseError ε) TransactionId) =
          .error (.invalidPath path)) ∧
    ∀ id, (parseTransactionId C (transactionPath id) : Except (FuseError ε) TransactionId) =
        .ok id ∧
      (parseAccountId C (transactionPath id) : Except (FuseError ε) AccountId) =
        .error (.invalidPath (transactionPath id)) := by
  constructor
  · intro id timestamp path hPath
    exact parse_atAccount hParse (atAccount_generated id timestamp path hPath)
  · intro id
    exact parse_transactionPath hParse id

/-- A snapshot whose timestamp is a path, with a parser that takes every spelling. -/
theorem parse_generated_test :
    (parseAccountId FuseCrates.standard (snapshotPath ⟨Uuid.fromU128 1⟩ "2026/01/01") :
      Except (FuseError LedgerError) AccountId) = .ok ⟨Uuid.fromU128 1⟩ :=
  ((parse_generated FuseCrates.standard FuseCrates.standard_parses).1 ⟨Uuid.fromU128 1⟩
    "2026/01/01" (snapshotPath ⟨Uuid.fromU128 1⟩ "2026/01/01") (by simp)).1

/-! ## Other paths that are taken -/

/-- The second component is what the parser asks for, the first one and the rest are free, and
any spelling will do. -/
theorem parseAccountId_of_spelling {C : FuseCrates} {first text : String} {u : Uuid}
    (hFirst : slashes first = 0) (hText : slashes text = 0) (hParse : C.parseStr text = some u) :
    (parseAccountId C (first ++ "/accounts/" ++ text) : Except (FuseError ε) AccountId) =
      .ok ⟨u⟩ := by
  have hPath : first ++ "/accounts/" ++ text = first ++ "/" ++ "accounts" ++ "/" ++ text := by
    rw [String.append_assoc, String.append_assoc, String.append_assoc, String.append_assoc]
    rfl
  refine (parseAccountId_spec C _ _).mpr ⟨first, text, [], ?_, hParse⟩
  rw [hPath, splitSlash_three hFirst (by decide) hText]

/-- What is below a transaction's file is the transaction. -/
theorem parseTransactionId_below {C : FuseCrates}
    (hParse : ∀ u, C.parseStr u.toText.text = some u) (id : TransactionId) (rest : String) :
    (parseTransactionId C (transactionPath id ++ "/" ++ rest) :
      Except (FuseError ε) TransactionId) = .ok id := by
  refine (parseTransactionId_spec C _ _).mpr
    ⟨"", transactionText id, splitSlash rest, ?_, hParse id.uuid⟩
  rw [splitSlash_append, splitSlash_transactionPath]
  rfl

/-- **When a parser takes real paths only**: what it takes starts with a slash, spells the
identifier as it is printed and, if it is a transaction's, ends with the file. -/
theorem parsers_canonical_iff (C : FuseCrates) (path : String) :
    ((∀ id, (parseAccountId C path : Except (FuseError ε) AccountId) = .ok id →
        path = accountPath id ∨ startsWith (accountPath id ++ "/") path = true) ↔
      ∀ first text more u, splitSlash path = first :: "accounts" :: text :: more →
        C.parseStr text = some u → first = "" ∧ text = accountText ⟨u⟩) ∧
    ((∀ id, (parseTransactionId C path : Except (FuseError ε) TransactionId) = .ok id →
        path = transactionPath id) ↔
      ∀ first text more u,
        splitSlash path = first :: "transactions" :: (text ++ ".json") :: more →
        C.parseStr text = some u → first = "" ∧ more = [] ∧ text = transactionText ⟨u⟩) := by
  constructor
  · constructor
    · intro hReal first text more u hSplit hParse
      have hAt : AtAccount ⟨u⟩ path :=
        hReal ⟨u⟩ ((parseAccountId_spec C path ⟨u⟩).mpr ⟨first, text, more, hSplit, hParse⟩)
      obtain ⟨more', hSplit'⟩ := (splitSlash_atAccount_iff ⟨u⟩ path).mp hAt
      rw [hSplit] at hSplit'
      simp only [List.cons.injEq, true_and] at hSplit'
      exact ⟨hSplit'.1, hSplit'.2.1⟩
    · intro hSpelled id hOk
      obtain ⟨first, text, more, hSplit, hParse⟩ := (parseAccountId_spec C path id).mp hOk
      obtain ⟨rfl, rfl⟩ := hSpelled first text more id.uuid hSplit hParse
      exact (splitSlash_atAccount_iff id path).mpr ⟨more, hSplit⟩
  · constructor
    · intro hReal first text more u hSplit hParse
      have hPath := hReal ⟨u⟩
        ((parseTransactionId_spec C path ⟨u⟩).mpr ⟨first, text, more, hSplit, hParse⟩)
      rw [hPath, splitSlash_transactionPath] at hSplit
      simp only [List.cons.injEq, true_and] at hSplit
      exact ⟨hSplit.1.symm, hSplit.2.2.symm, ((String.append_left_inj _).mp hSplit.2.1).symm⟩
    · intro hSpelled id hOk
      obtain ⟨first, text, more, hSplit, hParse⟩ := (parseTransactionId_spec C path id).mp hOk
      obtain ⟨rfl, rfl, rfl⟩ := hSpelled first text more id.uuid hSplit hParse
      exact splitSlash_injective (hSplit.trans (splitSlash_transactionPath id).symm)

/-- Text before the first slash, a spelling without hyphens, and a component after a
transaction's file. -/
theorem parsers_not_canonical :
    ((parseAccountId FuseCrates.standard "x/accounts/00000000000000000000000000000001" :
        Except (FuseError LedgerError) AccountId) = .ok ⟨Uuid.fromU128 1⟩ ∧
      (parseAccountId FuseCrates.standard "/accounts/00000000000000000000000000000001" :
        Except (FuseError LedgerError) AccountId) = .ok ⟨Uuid.fromU128 1⟩ ∧
      (parseTransactionId FuseCrates.standard (transactionPath ⟨Uuid.fromU128 1⟩ ++ "/" ++ "x") :
        Except (FuseError LedgerError) TransactionId) = .ok ⟨Uuid.fromU128 1⟩) ∧
    ¬ (∀ path id, (parseAccountId FuseCrates.standard path :
        Except (FuseError LedgerError) AccountId) = .ok id →
      path = accountPath id ∨ startsWith (accountPath id ++ "/") path = true) ∧
    ¬ ∀ path id, (parseTransactionId FuseCrates.standard path :
        Except (FuseError LedgerError) TransactionId) = .ok id →
      path = transactionPath id := by
  have hSpelling : Uuid.parseStr "00000000000000000000000000000001" = some (Uuid.fromU128 1) := by
    decide
  have hAccount (first : String) (hFirst : slashes first = 0) :
      (parseAccountId FuseCrates.standard
        (first ++ "/accounts/" ++ "00000000000000000000000000000001") :
          Except (FuseError LedgerError) AccountId) = .ok ⟨Uuid.fromU128 1⟩ :=
    parseAccountId_of_spelling hFirst (by decide) hSpelling
  have hBelow : (parseTransactionId FuseCrates.standard
      (transactionPath ⟨Uuid.fromU128 1⟩ ++ "/" ++ "x") :
        Except (FuseError LedgerError) TransactionId) = .ok ⟨Uuid.fromU128 1⟩ :=
    parseTransactionId_below FuseCrates.standard_parses _ "x"
  refine ⟨⟨hAccount "x" (by decide), hAccount "" (by decide), hBelow⟩, ?_, ?_⟩
  · intro hReal
    obtain ⟨more, hSplit⟩ :=
      (splitSlash_atAccount_iff _ _).mp (hReal _ _ (hAccount "x" (by decide)))
    have hFirst : (splitSlash "x/accounts/00000000000000000000000000000001").head? = some "x" := by
      decide
    have hStart : "x" = "" :=
      Option.some.inj (hFirst.symm.trans (congrArg List.head? hSplit))
    exact absurd hStart (by decide)
  · intro hReal
    have hParts := congrArg splitSlash (hReal _ _ hBelow)
    rw [splitSlash_append, splitSlash_transactionPath] at hParts
    exact absurd (congrArg List.length hParts) (by simp [length_splitSlash])

end PathResolver

end LedgerFS.Fuse
