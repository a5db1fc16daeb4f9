import LedgerFS.Fuse.FileTexts
import LedgerFS.Fuse.ResumedListing

/-!
# A file from its name to its last byte

A client looks for the names of a path one after another, and reads the file it arrives at
piece by piece, until a piece is empty.  Between its calls others use the filesystem, and
every read renders the file again from a new answer of the repositories.  An inode keeps its
path, and equal answers have one text however their tag maps iterate, so the pieces fit:

* `account_files_read_whole` — they make up the text of the file.
-/

namespace LedgerFS.Fuse

open LedgerFS.Core
open LedgerFS.Library
open LedgerFS.Library.CompactJson
open LedgerFS.Library.Interning
open LedgerFS.Library.PrettyJson
open LedgerFilesystem

variable {ε : Type}

/-! ## Looking for names -/

/-- Looks for one name after another, each below the inode that the look before it gave, in
the filesystem with number `k`; any steps come in between. -/
inductive Walk (ε : Type) (k : Nat) : World → UInt64 → List String → World → UInt64 → Prop
  | here {w : World} {ino : UInt64} : Walk ε k w ino [] w ino
  | look {w w' w'' : World} {fs : LedgerFilesystem} {ino last : UInt64} {name : String}
      {names : List String} {ttl : Nat} {attr : FileAttr} {generation : Nat} (now : UInt64)
      (at_k : w[k]? = some fs) (room : (fs.lookup now ino name).2.allocations < 2 ^ 64 - 5)
      (reply : (fs.lookup now ino name).1 = .entry ttl attr generation)
      (run : Run ε (w.set k (fs.lookup now ino name).2) w')
      (rest : Walk ε k w' attr.ino names w'' last) : Walk ε k w ino (name :: names) w'' last

/-- **One look** gives the inode of the path. -/
theorem Holds.lookup {fs : LedgerFilesystem} {t : Interned String} (h : Holds fs t)
    {now ino : UInt64} {path name : String} {ttl : Nat} {attr : FileAttr} {generation : Nat}
    (hPath : fs.getPath ino = some path)
    (hRoom : (fs.lookup now ino name).2.allocations < 2 ^ 64 - 5)
    (hReply : (fs.lookup now ino name).1 = .entry ttl attr generation) :
    (fs.lookup now ino name).2.Bound (childPath path name) attr.ino := by
  rw [lookup_snd now hPath] at hRoom ⊢
  have hIno : attr.ino = (fs.getOrCreateInode (childPath path name)).1 := by
    simp only [LedgerFilesystem.lookup, hPath] at hReply
    cases hReply
    rfl
  obtain ⟨hTable, hKey⟩ := h.represents.getOrCreate (childPath path name) hRoom
  rw [hIno]
  exact (hTable.bound_iff _ _).mpr hKey

/-- **A walk** ends at the path that is put together from the names. -/
theorem Walk.getPath {k : Nat} {w w' : World} {ino last : UInt64} {names : List String}
    (hWalk : Walk ε k w ino names w' last) (h : Reachable ε w) {fs : LedgerFilesystem}
    {path : String} (hFs : w[k]? = some fs) (hPath : fs.getPath ino = some path) :
    Reachable ε w' ∧ ∃ fs' : LedgerFilesystem, w'[k]? = some fs' ∧
      fs'.getPath last = some (names.foldl childPath path) := by
  induction hWalk generalizing fs path with
  | here => exact ⟨h, fs, hFs, hPath⟩
  | @look w w' w'' found ino last name names ttl attr generation now at_k room reply run rest ih =>
      obtain rfl := Option.some.inj (at_k.symm.trans hFs)
      obtain ⟨t, ht⟩ := h.sound k found at_k
      have hBound := ht.lookup hPath room reply
      have hStep : Step ε w (w.set k (found.lookup now ino name).2) :=
        Step.act Repositories.nothing now (.lookup ino name) at_k room
      have hLooked : Reachable ε (w.set k (found.lookup now ino name).2) := h.tail hStep
      have hIn : (w.set k (found.lookup now ino name).2)[k]? =
          some (found.lookup now ino name).2 := by
        rw [List.getElem?_set_self (List.getElem?_eq_some_iff.mp at_k).1]
      -- What others do next leaves the inode its path.
      obtain ⟨later, hLater, hKeeps⟩ := (Run.keeps hLooked.sound run).2.1 k _ hIn
      exact ih (hLooked.trans run) hLater (hKeeps _ _ hBound).1

/-- There is a walk to any path, while there is room: a look is never refused. -/
theorem exists_walk {k : Nat} {w : World} {fs : LedgerFilesystem} {t : Interned String}
    (h : Holds fs t) (hFs : w[k]? = some fs) {ino : UInt64} {path : String}
    (hPath : fs.getPath ino = some path) (names : List String)
    (hRoom : fs.allocations + names.length < 2 ^ 64 - 5) :
    ∃ w' last, Walk ε k w ino names w' last := by
  induction names generalizing w fs t ino path with
  | nil => exact ⟨w, ino, .here⟩
  | cons name names ih =>
      rw [List.length_cons] at hRoom
      have hGrow := allocations_lookup_le fs 0 ino name
      have hFits : (fs.lookup 0 ino name).2.allocations < 2 ^ 64 - 5 := by omega
      obtain ⟨attr, hReply⟩ : ∃ attr, (fs.lookup 0 ino name).1 = .entry TTL attr 0 := by
        simp only [LedgerFilesystem.lookup, hPath]
        exact ⟨_, rfl⟩
      have hBound := h.lookup hPath hFits hReply
      have hTable : ∃ u, Holds (fs.lookup 0 ino name).2 u := by
        rw [lookup_snd 0 hPath] at hFits ⊢
        refine ⟨_, h.allocate [childPath path name] ?_ hFits⟩
        intro p hp
        exact ⟨ino, path, name, hPath, List.mem_singleton.mp hp⟩
      obtain ⟨u, hu⟩ := hTable
      have hIn : (w.set k (fs.lookup 0 ino name).2)[k]? = some (fs.lookup 0 ino name).2 := by
        rw [List.getElem?_set_self (List.getElem?_eq_some_iff.mp hFs).1]
      obtain ⟨w', last, hWalk⟩ := ih hu hIn hBound.1 (by omega)
      exact ⟨w', last, .look 0 hFs hFits hReply Relation.ReflTransGen.refl hWalk⟩

/-! ## Reading pieces -/

/-- What may differ from call to call: the answers of the repositories, how many bytes are
asked for, which is never none, and what happens to the filesystem before the next call. -/
structure ReadCalls (ε : Type) where
  repos : Nat → Repositories ε
  size : Nat → UInt32
  between : Nat → LedgerFilesystem → LedgerFilesystem
  asks : ∀ i, 0 < size i
  runs : ∀ i fs, ∃ w, Run ε [fs] w ∧ w[0]? = some (between i fs)

namespace ReadCalls

/-- The call with number `i`, at an offset: the bytes it gets, and the offset behind them,
unless there are none. -/
def call (calls : ReadCalls ε) (C : FuseCrates) (ino : UInt64) (i offset : Nat)
    (fs : LedgerFilesystem) : Option (Portion UInt8 × LedgerFilesystem) :=
  match fs.read C (calls.repos i) ino (Int64.ofNat offset) (calls.size i) with
  | .data bytes =>
      some (⟨bytes, if bytes.isEmpty then none else some (offset + bytes.length)⟩,
        calls.between i fs)
  | _ => none

/-- The inode has its path. -/
structure Serves (ino : UInt64) (path : String) (fs : LedgerFilesystem) : Prop where
  table : ∃ t, Holds fs t
  bound : fs.Bound path ino

/-- At every call the file at the path shows the data, or what is equal to it. -/
def Answer (calls : ReadCalls ε) (C : FuseCrates) (path : String) (data : FileData) : Prop :=
  ∀ i, ∃ shown, Shows C (calls.repos i) path shown ∧ shown.Same data

end ReadCalls

/-- The bytes of the text. -/
def FileData.bytes (C : FuseCrates) (data : FileData) : List UInt8 :=
  (data.text C).toByteArray.data.toList

/-- **One read** of a file that shows some data: a slice of its bytes. -/
theorem read_of_shows {fs : LedgerFilesystem} {C : FuseCrates} {repos : Repositories ε}
    {ino : UInt64} {path : String} {data : FileData} (hPath : fs.getPath ino = some path)
    (hShows : Shows C repos path data) {offset : Nat} (hOffset : offset < 2 ^ 63) (size : UInt32) :
    fs.read C repos ino (Int64.ofNat offset) size =
      .data (((data.bytes C).drop offset).take size.toNat) := by
  have hBack : (Int64.ofNat offset).toUInt64.toNat = offset := by
    rw [Int64.toUInt64_ofNat', UInt64.toNat_ofNat_of_lt']
    show offset < 2 ^ 64
    omega
  have hSize := size.toNat_lt
  have hNoWrap : (offset + size.toNat) % 2 ^ 64 = offset + size.toNat :=
    Nat.mod_eq_of_lt (by omega)
  simp only [LedgerFilesystem.read, hPath, content_of_shows hShows, hBack, hNoWrap]
  show (if (data.bytes C).length ≤ offset then ReplyData.data []
    else .data (((data.bytes C).take (min (offset + size.toNat) (data.bytes C).length)).drop
      offset)) = _
  split
  · rename_i hBehind
    rw [List.drop_eq_nil_of_le hBehind, List.take_nil]
  · rw [← List.take_eq_take_min, List.drop_take, Nat.add_sub_cancel_left]

namespace ReadCalls

variable {calls : ReadCalls ε} {C : FuseCrates} {ino : UInt64} {path : String} {data : FileData}

theorem Serves.after {fs : LedgerFilesystem} (h : Serves ino path fs) (calls : ReadCalls ε)
    (i : Nat) : Serves ino path (calls.between i fs) := by
  obtain ⟨t, ht⟩ := h.table
  obtain ⟨w, hRun, hLater⟩ := calls.runs i fs
  obtain ⟨hKeeps, hTable⟩ := ht.run hRun hLater
  exact ⟨hTable, hKeeps _ _ h.bound⟩

/-- **One call** gives the bytes from its offset up to the offset of the next call, and none
behind the last byte only. -/
theorem resumes (hAnswer : calls.Answer C path data)
    (hFits : (data.bytes C).length < 2 ^ 63) :
    Resumes Eq (Serves ino path) (data.bytes C) (calls.call C ino) := by
  intro i offset fs h hOffset
  obtain ⟨shown, hShows, hSame⟩ := hAnswer i
  have hText : shown.bytes C = data.bytes C := by
    rw [FileData.bytes, hSame.text_eq]
    rfl
  have hRead := read_of_shows h.bound.1 hShows (Nat.lt_of_le_of_lt hOffset hFits) (calls.size i)
  rw [hText] at hRead
  refine ⟨_, calls.between i fs, ?_, h.after calls i,
    covers_piece hOffset (UInt32.lt_iff_toNat_lt.mp (calls.asks i))⟩
  rw [call, hRead]

end ReadCalls

/-- **From the root**: whatever file a walk leads to, its pieces make up its text. -/
theorem readAll_of_walk {C : FuseCrates} {k : Nat} {w w' : World} {ino : UInt64}
    {names : List String} (h : Reachable ε w) (hIn : k < w.length)
    (hWalk : Walk ε k w 1 names w' ino) (calls : ReadCalls ε) {data : FileData}
    (hAnswer : calls.Answer C (names.foldl childPath "/") data)
    (hFits : (data.bytes C).length < 2 ^ 63) :
    ∃ fs after, w'[k]? = some fs ∧
      readAll (calls.call C ino) ((data.bytes C).length + 1) 0 0 fs =
        some (data.bytes C, after) := by
  have hHere := List.getElem?_eq_getElem hIn
  obtain ⟨t, ht⟩ := h.sound k _ hHere
  obtain ⟨hReachable, fs, hFs, hPath⟩ := hWalk.getPath h hHere ht.invariant.root.1
  obtain ⟨u, hu⟩ := hReachable.sound k fs hFs
  have hServes : ReadCalls.Serves ino (names.foldl childPath "/") fs :=
    ⟨⟨u, hu⟩, (hu.represents.bound_iff _ _).mpr ((hu.represents.getPath_iff _ _).mp hPath)⟩
  obtain ⟨bytes, after, hRead, -, hBytes⟩ := readAll_eq (ReadCalls.resumes hAnswer hFits)
    ((data.bytes C).length + 1) 0 0 hServes (Nat.zero_le _) (by omega)
  rw [List.drop_zero, List.forall₂_eq_eq_eq] at hBytes
  exact ⟨fs, after, hFs, hBytes ▸ hRead⟩

/-- Put together from the root, these are the paths of the files of an account. -/
theorem foldl_accountFile (id : AccountId) (name : String) :
    ["accounts", accountText id, name].foldl childPath "/" =
      childPath (PathResolver.accountPath id) name := by
  show childPath (childPath "/accounts" (accountText id)) name = _
  rw [childPath_accountText]

/-- **The files of an account are read whole.**  A client that looks for `accounts`, the
identifier and the file one after another, in any reachable world, and then reads what it
arrives at piece by piece gets the text of the balance, or of the transactions, as long as
the repositories answer with that balance, or with equal transactions, at every read: whatever
else is done in between, however the tag maps iterate, and however much is asked for.  (No
`String` has `2 ^ 63` bytes.) -/
theorem account_files_read_whole {C : FuseCrates}
    (hParse : ∀ u, C.parseStr u.toText.text = some u) {k : Nat} {w w' : World} {ino : UInt64}
    (h : Reachable ε w) (hIn : k < w.length) (id : AccountId) (calls : ReadCalls ε) :
    (∀ balance : Balance, (∀ i, (calls.repos i).getBalance id = .ok (some balance)) →
      Walk ε k w 1 ["accounts", accountText id, "balance.json"] w' ino →
        let bytes := (FileData.balance balance).bytes C
        bytes.length < 2 ^ 63 → ∃ fs after, w'[k]? = some fs ∧
          readAll (calls.call C ino) (bytes.length + 1) 0 0 fs = some (bytes, after)) ∧
    ∀ txs : List TransactionProcessedEvent,
      (∀ i, ∃ answer, (calls.repos i).getTransactionHistory id none none (some 100) = .ok answer ∧
        List.Forall₂ SameTransaction answer txs) →
      Walk ε k w 1 ["accounts", accountText id, "tx.log"] w' ino →
        let bytes := (FileData.transactions id txs).bytes C
        bytes.length < 2 ^ 63 → ∃ fs after, w'[k]? = some fs ∧
          readAll (calls.call C ino) (bytes.length + 1) 0 0 fs = some (bytes, after) := by
  constructor
  · intro balance hBalance hWalk bytes hFits
    refine readAll_of_walk h hIn hWalk calls (fun i => ?_) hFits
    rw [foldl_accountFile]
    refine ⟨.balance balance, ⟨endsWith_accountFile id "balance.json", id.uuid, ?_, hBalance i⟩,
      rfl⟩
    rw [third_accountFile]
    exact hParse id.uuid
  · intro txs hHistory hWalk bytes hFits
    refine readAll_of_walk h hIn hWalk calls (fun i => ?_) hFits
    obtain ⟨answer, hAnswer, hSame⟩ := hHistory i
    rw [foldl_accountFile]
    refine ⟨.transactions id answer, ⟨endsWith_accountFile id "tx.log", ?_, hAnswer⟩, rfl, hSame⟩
    rw [third_accountFile]
    exact hParse id.uuid

/-! ### An account without transactions -/

theorem sixteen_pos : (0 : UInt32) < 16 := by decide

/-- Nothing happens. -/
theorem run_nothing (fs : LedgerFilesystem) : ∃ w, Run ε [fs] w ∧ w[0]? = some fs :=
  ⟨[fs], Relation.ReflTransGen.refl, rfl⟩

/-- Sixteen bytes at a time. -/
def sixteenAtATime : ReadCalls LedgerError where
  repos _ := Repositories.withHistory []
  size _ := 16
  between _ fs := fs
  asks _ := sixteen_pos
  runs _ := run_nothing

/-- Its text is short. -/
theorem length_emptyLog :
    ((FileData.transactions sampleId []).bytes FuseCrates.standard).length < 2 ^ 63 := by
  have hValue : toValue (txData FuseCrates.standard sampleId []) =
      .obj [("account_id", sampleId.uuid.toJson), ("transaction_count", .num 0),
        ("transactions", .arr [])] := by
    rw [txData, toValue, toFields_eq, List.mergeSort_of_pairwise (by simp)]
    simp [toValue, toValues]
  have hChars : (pretty 0 (.obj [("account_id", sampleId.uuid.toJson),
      ("transaction_count", .num 0), ("transactions", .arr [])])).length ≤ 1000 := by
    simp only [pretty, prettyFields, prettyElems, Uuid.toJson]
    decide
  have hBytes : ((FileData.transactions sampleId []).text FuseCrates.standard).utf8ByteSize ≤
      4 * 1000 := by
    refine Nat.le_trans (utf8ByteSize_ofList_le _) (Nat.mul_le_mul_left 4 ?_)
    rw [FileData.toJson, hValue]
    exact hChars
  exact Nat.lt_of_le_of_lt hBytes (by decide)

/-- Its file is found and read. -/
theorem account_files_read_whole_test :
    let bytes := (FileData.transactions sampleId []).bytes FuseCrates.standard
    ∃ w' ino fs after,
      Walk LedgerError 0 [LedgerFilesystem.new] 1 ["accounts", accountText sampleId, "tx.log"]
        w' ino ∧
      w'[0]? = some fs ∧
      readAll (sixteenAtATime.call FuseCrates.standard ino) (bytes.length + 1) 0 0 fs =
        some (bytes, after) := by
  intro bytes
  have hRoot : LedgerFilesystem.new.getPath 1 = some "/" :=
    (holds_new.represents.getPath_iff 1 "/").mpr rfl
  obtain ⟨w', ino, hWalk⟩ := exists_walk (ε := LedgerError) (k := 0)
    (w := [LedgerFilesystem.new]) holds_new rfl hRoot
    ["accounts", accountText sampleId, "tx.log"] (by rw [allocations_new]; decide)
  obtain ⟨fs, after, hFs, hRead⟩ := (account_files_read_whole (C := FuseCrates.standard)
    FuseCrates.standard_parses Relation.ReflTransGen.refl Nat.zero_lt_one sampleId
    sixteenAtATime).2 []
    (fun _ => ⟨[], rfl, .nil⟩) hWalk length_emptyLog
  exact ⟨w', ino, fs, after, hWalk, hFs, hRead⟩

end LedgerFS.Fuse
