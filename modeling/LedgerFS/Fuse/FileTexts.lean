import LedgerFS.Fuse.Sizes
import LedgerFS.Fuse.UuidText
import LedgerFS.Library.JsonText

/-!
# What the text of a file says

`balance.json` and `tx.log` are rendered anew at every read, from what the repositories
answer.  The answer is turned into a `serde_json::Value` first, so the text does not show
in which order a tag map iterates, and it shows everything else.

* `file_texts_eq_iff` — two files have one text exactly if they show equal balances, or
  equal transactions of one account.
-/

namespace LedgerFS.Fuse

open LedgerFS.Core
open LedgerFS.Library.CompactJson
open LedgerFS.Library.PrettyJson
open LedgerFilesystem

variable {ε : Type}

/-! ## Values -/

@[simp] theorem toValue_string (s : RustString) : toValue s.toJson = s.toJson := by
  rw [RustString.toJson, toValue]

@[simp] theorem toValue_uuid (u : Uuid) : toValue u.toJson = u.toJson := by
  rw [Uuid.toJson, toValue]

@[simp] theorem toValue_accountId (id : AccountId) : toValue id.toJson = id.toJson :=
  toValue_uuid id.uuid

@[simp] theorem toValue_transactionId (id : TransactionId) : toValue id.toJson = id.toJson :=
  toValue_uuid id.uuid

@[simp] theorem toValue_currency (c : Currency) : toValue c.toJson = c.toJson :=
  toValue_string c.code

@[simp] theorem toValue_uint64 (n : UInt64) : toValue (uint64ToJson n) = uint64ToJson n := by
  rw [uint64ToJson, toValue]

@[simp] theorem toValue_dateTime (C : Crates) (t : DateTime) :
    toValue (t.toJson C) = t.toJson C :=
  toValue_string _

@[simp] theorem toValue_transactionType (t : TransactionType) : toValue t.toJson = t.toJson := by
  cases t <;> rw [TransactionType.toJson, toValue]

@[simp] theorem toValue_option {α : Type} {f : α → Json} (h : ∀ a, toValue (f a) = f a)
    (x : Option α) : toValue (optionToJson f x) = optionToJson f x := by
  cases x with
  | none => rw [optionToJson, toValue]
  | some a => exact h a

/-- One field needs no sorting. -/
@[simp] theorem toValue_amount (a : Amount) : toValue a.toJson = a.toJson := by
  simp [Amount.toJson, toValue, toFields]

@[simp] theorem toValue_strings (v : RustVec RustString) :
    toValue (stringsToJson v) = stringsToJson v := by
  rw [stringsToJson, toValue, toValues_eq, List.map_map]
  exact congrArg (fun f => Json.arr (v.items.map f)) (funext toValue_string)

/-- **A tag map** is equal to another as a value exactly if it is as a map. -/
theorem toValue_tags_eq_iff (m n : Tags) :
    toValue (Tags.toJson m) = toValue (Tags.toJson n) ↔ HashMap.PartialEq m n := by
  have hText : Function.Injective RustString.text := fun _ _ => RustString.ext
  have hNames : ((m.entries.map fun entry => (entry.1.text, entry.2.toJson)).map
      Prod.fst).Nodup := by
    have hTexts := m.nodup.map hText
    rw [List.map_map] at hTexts ⊢
    exact hTexts
  have hEntry : Function.Injective
      fun entry : RustString × RustString => (entry.1.text, entry.2.toJson) := by
    rintro ⟨k, v⟩ ⟨l, w⟩ h
    simpa [RustString.ext_iff] using h
  have hFields (l : Tags) : toFields (l.entries.map fun entry => (entry.1.text, entry.2.toJson)) =
      l.entries.map fun entry => (entry.1.text, entry.2.toJson) := by
    rw [toFields_eq, List.map_map]
    exact List.map_congr_left fun entry _ => by simp
  rw [Tags.toJson, Tags.toJson, toValue_obj_eq_iff hNames, hFields, hFields,
    List.map_perm_map_iff hEntry, HashMap.partialEq_iff_perm]

theorem toValue_transactionMetadata_eq_iff (m n : TransactionMetadata) :
    toValue m.toJson = toValue n.toJson ↔ m.PartialEq n := by
  rw [TransactionMetadata.toJson, TransactionMetadata.toJson,
    toValue_record_eq_iff (by rfl) (by simp)]
  simp [toFields, toValue_tags_eq_iff, TransactionMetadata.PartialEq]

/-- The derived `==` of `TransactionProcessedEvent`. -/
def SameTransaction (a b : TransactionProcessedEvent) : Prop :=
  (LedgerEvent.transactionProcessed a).PartialEq (.transactionProcessed b)

/-- The text of the instant is all that is shown of it. -/
theorem toValue_transaction_eq_iff (C : Crates) (a b : TransactionProcessedEvent) :
    toValue (a.toJson C) = toValue (b.toJson C) ↔
      SameTransaction { a with processedAt := b.processedAt } b ∧
        a.processedAt.toJson C = b.processedAt.toJson C := by
  rw [TransactionProcessedEvent.toJson, TransactionProcessedEvent.toJson,
    toValue_record_eq_iff (by rfl) (by simp)]
  cases a
  cases b
  simp only [toFields, toValue_transactionId, toValue_transactionType,
    toValue_option toValue_accountId, toValue_amount, toValue_currency, toValue_dateTime,
    toValue_transactionMetadata_eq_iff, List.cons.injEq, Prod.mk.injEq, true_and, and_true,
    TransactionId.toJson_inj, TransactionType.toJson_inj, optionAccountId_inj,
    Amount.toJson_inj, Currency.toJson_inj, SameTransaction,
    LedgerEvent.PartialEq, TransactionProcessedEvent.mk.injEq]
  tauto

/-! ## Files -/

/-- What a file shows. -/
inductive FileData
  | balance (balance : Balance)
  | transactions (accountId : AccountId) (transactions : List TransactionProcessedEvent)

namespace FileData

/-- The object that is rendered. -/
def toJson (C : FuseCrates) : FileData → Json
  | .balance b => balanceData C b
  | .transactions id txs => txData C id txs

def text (C : FuseCrates) (data : FileData) : String := toStringPretty (data.toJson C)

/-- What the texts of the instants are read back to. -/
def readBack : FileData → FileData
  | .balance b => .balance { b with asOf := b.asOf.readBack }
  | .transactions id txs =>
      .transactions id (txs.map fun tx => { tx with processedAt := tx.processedAt.readBack })

/-- Equal balances, or transactions of one account that are equal one by one. -/
def Same : FileData → FileData → Prop
  | .balance b, .balance b' => b = b'
  | .transactions id txs, .transactions id' txs' =>
      id = id' ∧ List.Forall₂ SameTransaction txs txs'
  | _, _ => False

end FileData

/-- The repositories let the file at a path show this. -/
def Shows (C : FuseCrates) (repos : Repositories ε) (path : String) : FileData → Prop
  | .balance b =>
      endsWith "/balance.json" path = true ∧
        ∃ u, ((splitSlash path)[2]?).bind C.parseStr = some u ∧
          repos.getBalance ⟨u⟩ = .ok (some b)
  | .transactions id txs =>
      endsWith "/tx.log" path = true ∧ ((splitSlash path)[2]?).bind C.parseStr = some id.uuid ∧
        repos.getTransactionHistory id none none (some 100) = .ok txs

/-- **What is rendered** is what the file shows. -/
theorem content_of_shows {C : FuseCrates} {repos : Repositories ε} {path : String}
    {data : FileData} (h : Shows C repos path data) :
    content C repos path = some (.ok (data.text C)) := by
  cases data with
  | balance b =>
      obtain ⟨hEnds, u, hParsed, hAnswer⟩ := h
      obtain ⟨accountId, hThird, hParse⟩ := Option.bind_eq_some_iff.mp hParsed
      simp only [content, hEnds, if_true, hThird, readAccountBalance, hParse, hAnswer]
      rfl
  | transactions id txs =>
      obtain ⟨hEnds, hParsed, hAnswer⟩ := h
      obtain ⟨accountId, hThird, hParse⟩ := Option.bind_eq_some_iff.mp hParsed
      have hOther : endsWith "/balance.json" path = false :=
        endsWith_of_apart hEnds (by decide) (by decide)
      simp only [content, hOther, Bool.false_eq_true, if_false, hEnds, if_true, hThird,
        readAccountTransactions, hParse, hAnswer]
      rfl

theorem rendered_of_shows {fs : LedgerFilesystem} {C : FuseCrates} {repos : Repositories ε}
    {ino : UInt64} {path : String} {data : FileData} (hPath : fs.getPath ino = some path)
    (h : Shows C repos path data) : fs.rendered C repos ino = some (.ok (data.text C)) := by
  rw [rendered, hPath, Option.bind_some, content_of_shows h]

/-! ## Texts -/

theorem balance_text_eq_iff (C : FuseCrates) (b b' : Balance) :
    toValue (balanceData C b) = toValue (balanceData C b') ↔
      { b with asOf := b'.asOf } = b' ∧ b.asOf.toJson C.toCrates = b'.asOf.toJson C.toCrates := by
  rw [balanceData, balanceData, toValue_record_eq_iff (by rfl) (by simp)]
  obtain ⟨⟨u⟩, ⟨a⟩, ⟨c⟩, t, v⟩ := b
  obtain ⟨⟨u'⟩, ⟨a'⟩, ⟨c'⟩, t', v'⟩ := b'
  simp only [toFields, toValue, toValue_uuid, toValue_string, toValue_dateTime, toValue_uint64,
    List.cons.injEq, Prod.mk.injEq, true_and, and_true, Uuid.toJson_inj, Json.num.injEq,
    Int64.toInt_inj, RustString.toJson_inj, uint64ToJson_inj, Balance.mk.injEq,
    AccountId.mk.injEq, Amount.mk.injEq, Currency.mk.injEq]
  tauto

theorem transactions_text_eq_iff (C : FuseCrates) (id id' : AccountId)
    (txs txs' : List TransactionProcessedEvent) :
    toValue (txData C id txs) = toValue (txData C id' txs') ↔ id = id' ∧
      List.Forall₂ (fun a b => toValue (a.toJson C.toCrates) = toValue (b.toJson C.toCrates))
        txs txs' := by
  have hList : (txs.map fun tx => toValue (tx.toJson C.toCrates)) =
      (txs'.map fun tx => toValue (tx.toJson C.toCrates)) ↔
        List.Forall₂ (fun a b => toValue (a.toJson C.toCrates) = toValue (b.toJson C.toCrates))
          txs txs' := by
    rw [← List.forall₂_eq_eq_eq, List.forall₂_map_left_iff, List.forall₂_map_right_iff]
  rw [txData, txData, toValue_record_eq_iff (by rfl) (by simp)]
  obtain ⟨u⟩ := id
  obtain ⟨u'⟩ := id'
  simp only [toFields, toValue, toValues_eq, List.map_map, toValue_uuid, List.cons.injEq,
    Prod.mk.injEq, true_and, and_true, Uuid.toJson_inj, Json.num.injEq, Json.arr.injEq,
    AccountId.mk.injEq, Function.comp_def, hList]
  constructor
  · rintro ⟨hId, -, hSame⟩
    exact ⟨hId, hSame⟩
  · rintro ⟨hId, hSame⟩
    exact ⟨hId, congrArg Int.ofNat hSame.length_eq, hSame⟩

/-- A balance has more fields than the transactions of an account. -/
theorem balanceData_ne_txData (C : FuseCrates) (b : Balance) (id : AccountId)
    (txs : List TransactionProcessedEvent) :
    toValue (balanceData C b) ≠ toValue (txData C id txs) := by
  intro h
  rw [balanceData, txData, toValue_obj_eq_iff (by simp)] at h
  have hLength := h.length_eq
  rw [toFields_eq, toFields_eq, List.length_map, List.length_map] at hLength
  exact absurd hLength (by simp)

/-- **Equal data** has one text. -/
theorem FileData.Same.text_eq {C : FuseCrates} {data data' : FileData} (h : data.Same data') :
    data.text C = data'.text C := by
  rw [text, text, toStringPretty_eq_iff]
  cases data with
  | balance b =>
      cases data' with
      | balance b' =>
          obtain rfl : b = b' := h
          rfl
      | transactions id txs => exact h.elim
  | transactions id txs =>
      cases data' with
      | balance b => exact h.elim
      | transactions id' txs' =>
          refine (transactions_text_eq_iff C id id' txs txs').mpr ⟨h.1, h.2.imp fun a b hSame => ?_⟩
          have hInstants : [a.processedAt] = [b.processedAt] :=
            LedgerEvent.PartialEq.instants_eq hSame
          have hInstant : a.processedAt = b.processedAt := (List.cons.inj hInstants).1
          rw [toValue_transaction_eq_iff, ← hInstant]
          exact ⟨hSame, rfl⟩

/-- **One text** is data that is read back equal. -/
theorem FileData.text_eq_iff {C : FuseCrates} (hTime : C.TimeTextReadsBack)
    (data data' : FileData) :
    data.text C = data'.text C ↔ data.readBack.Same data'.readBack := by
  rw [text, text, toStringPretty_eq_iff]
  cases data with
  | balance b =>
      cases data' with
      | balance b' =>
          rw [toJson, toJson, balance_text_eq_iff, DateTime.toJson_eq_iff hTime]
          cases b
          cases b'
          simp only [readBack, Same, Balance.mk.injEq]
          tauto
      | transactions id txs => exact iff_of_false (balanceData_ne_txData C b id txs) not_false
  | transactions id txs =>
      cases data' with
      | balance b => exact iff_of_false (balanceData_ne_txData C b id txs).symm not_false
      | transactions id' txs' =>
          have hEach (a b : TransactionProcessedEvent) :
              toValue (a.toJson C.toCrates) = toValue (b.toJson C.toCrates) ↔
                SameTransaction { a with processedAt := a.processedAt.readBack }
                  { b with processedAt := b.processedAt.readBack } := by
            rw [toValue_transaction_eq_iff, DateTime.toJson_eq_iff hTime]
            cases a
            cases b
            simp only [SameTransaction, LedgerEvent.PartialEq, TransactionProcessedEvent.mk.injEq]
            tauto
          rw [toJson, toJson, transactions_text_eq_iff]
          simp only [readBack, Same, hEach, List.forall₂_map_left_iff, List.forall₂_map_right_iff]

/-- **The text of a file says what it shows**: two files, of any filesystems at any times,
are rendered as one text exactly if the repositories answer with equal balances, or with
equal transactions of one account, once a reading inside a leap second that does not end a
minute is taken for the next second, as chrono writes it.  How the tag maps of an answer
iterate is not seen. -/
theorem file_texts_eq_iff {C : FuseCrates} (hTime : C.TimeTextReadsBack)
    {fs fs' : LedgerFilesystem} {repos repos' : Repositories ε} {ino ino' : UInt64}
    {path path' : String} {data data' : FileData} (hPath : fs.getPath ino = some path)
    (hShows : Shows C repos path data) (hPath' : fs'.getPath ino' = some path')
    (hShows' : Shows C repos' path' data') :
    ∃ text text', fs.rendered C repos ino = some (.ok text) ∧
      fs'.rendered C repos' ino' = some (.ok text') ∧
      (text = text' ↔ data.readBack.Same data'.readBack) :=
  ⟨data.text C, data'.text C, rendered_of_shows hPath hShows, rendered_of_shows hPath' hShows',
    data.text_eq_iff hTime data'⟩

/-! ### Two tags -/

/-- Repositories that know these transactions. -/
def Repositories.withHistory (txs : List TransactionProcessedEvent) : Repositories LedgerError where
  getBalance _ := .ok none
  findAccounts _ := .ok []
  getTransactionHistory _ _ _ _ := .ok txs

/-- A deposit with two tags. -/
def taggedDeposit : TransactionProcessedEvent where
  transactionId := ⟨Uuid.fromU128 7⟩
  transactionType := .credit
  fromAccount := none
  toAccount := some sampleId
  amount := ⟨500⟩
  currency := Currency.usd
  metadata :=
    { reference := none
      description := none
      tags := ⟨[(⟨"branch", by decide⟩, ⟨"east", by decide⟩),
        (⟨"desk", by decide⟩, ⟨"3", by decide⟩)], by decide, by decide⟩
      regulatoryFlags := RustVec.empty }
  processedAt := DateTime.epoch

/-- The tags iterate the other way round, and the text is the same. -/
theorem file_texts_eq_iff_test :
    let other := { taggedDeposit with
      metadata := taggedDeposit.metadata.rehash HashMap.RandomState.reversed }
    taggedDeposit ≠ other ∧ ∃ text,
      (lookedForFile sampleId "tx.log").rendered FuseCrates.standard
        (Repositories.withHistory [taggedDeposit]) 6 = some (.ok text) ∧
      (lookedForFile sampleId "tx.log").rendered FuseCrates.standard
        (Repositories.withHistory [other]) 6 = some (.ok text) := by
  intro other
  have hShows (txs : List TransactionProcessedEvent) :
      Shows FuseCrates.standard (Repositories.withHistory txs)
        (childPath (PathResolver.accountPath sampleId) "tx.log") (.transactions sampleId txs) := by
    refine ⟨endsWith_accountFile sampleId "tx.log", ?_, rfl⟩
    rw [third_accountFile]
    exact FuseCrates.standard_parses sampleId.uuid
  have hPath := (lookedForFile_spec LedgerError sampleId (show slashes "tx.log" = 0 by decide)).2
  have hSame : (FileData.transactions sampleId [taggedDeposit]).readBack.Same
      (FileData.transactions sampleId [other]).readBack :=
    ⟨rfl, .cons ⟨(taggedDeposit.metadata.rehash_partialEq _).symm, rfl⟩ .nil⟩
  obtain ⟨text, text', hText, hText', hEq⟩ := file_texts_eq_iff
    (C := FuseCrates.standard) Crates.sample_timeTextReadsBack hPath
    (hShows [taggedDeposit]) hPath (hShows [other])
  refine ⟨by decide, text, hText, ?_⟩
  rw [hEq.mpr hSame]
  exact hText'

end LedgerFS.Fuse
