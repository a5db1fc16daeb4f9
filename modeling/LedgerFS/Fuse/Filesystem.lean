import Std.Data.HashMap.Lemmas
import LedgerFS.Core.Hash
import LedgerFS.Fuse.Paths
import LedgerFS.Library.PrettyJson

/-!
# The FUSE filesystem (`filesystem.rs`)

`LedgerFilesystem` names inodes by two maps and a counter.  `lookup`, `getattr`,
`read` and `readdir` are the handlers the kernel calls; each gives its reply
and, where it can allocate, the filesystem after it.  A name comes as the text
`to_string_lossy` makes of it.

The repositories behind the filesystem are shared with the rest of the program
and answer differently at different times, so every call is given their
answers of the moment.  The clock reading is the number of seconds since 1970.
-/

namespace LedgerFS.Fuse

open LedgerFS.Core
open LedgerFS.Library.CompactJson
open LedgerFS.Library.PrettyJson

/-! ## The repositories -/

/-- Account aggregate. -/
structure Account where
  id : AccountId
  status : AccountStatus
  metadata : AccountMetadata
  createdAt : DateTime
  updatedAt : DateTime

/-- Balance snapshot for efficient queries. -/
structure Balance where
  accountId : AccountId
  amount : Amount
  currency : Currency
  asOf : DateTime
  version : UInt64

/-- What the filesystem asks of the three repositories, with their errors. -/
structure Repositories (ε : Type) where
  getBalance : AccountId → Except ε (Option Balance)
  findAccounts : Tags → Except ε (List Account)
  getTransactionHistory : AccountId → Option DateTime → Option DateTime → Option Nat →
    Except ε (List TransactionProcessedEvent)

/-- The crates behind a read: those of the event store and `Uuid::parse_str`. -/
structure FuseCrates extends Crates where
  parseStr : String → Option Uuid

/-- Error type for FUSE operations, as far as it is raised here. -/
inductive FuseError (ε : Type)
  | fileNotFound (path : String)
  | invalidPath (path : String)
  | ledgerError (error : ε)

variable {ε : Type}

/-- `list_accounts`. -/
def listAccounts (repos : Repositories ε) : Except (FuseError ε) (List String) :=
  match repos.findAccounts HashMap.empty with
  | .error error => .error (.ledgerError error)
  | .ok accounts => .ok (accounts.map fun acc => accountText acc.id)

/-- The fields of `balance.json`. -/
def balanceData (C : FuseCrates) (balance : Balance) : Json :=
  .obj [("account_id", balance.accountId.uuid.toJson),
    ("amount", .num balance.amount.value.toInt),
    ("currency", balance.currency.code.toJson),
    ("as_of", balance.asOf.toJson C.toCrates),
    ("version", uint64ToJson balance.version)]

/-- `read_account_balance`. -/
def readAccountBalance (C : FuseCrates) (repos : Repositories ε) (accountId : String) :
    Except (FuseError ε) String :=
  match C.parseStr accountId with
  | none => .error (.invalidPath accountId)
  | some uuid =>
      match repos.getBalance ⟨uuid⟩ with
      | .error error => .error (.ledgerError error)
      | .ok none => .error (.fileNotFound ("balance for " ++ accountText ⟨uuid⟩))
      | .ok (some balance) => .ok (toStringPretty (balanceData C balance))

/-- The fields of `tx.log`. -/
def txData (C : FuseCrates) (accountId : AccountId)
    (transactions : List TransactionProcessedEvent) : Json :=
  .obj [("account_id", accountId.uuid.toJson),
    ("transaction_count", .num transactions.length),
    ("transactions", .arr (transactions.map fun tx => tx.toJson C.toCrates))]

/-- `read_account_transactions`, limited to the last 100 transactions. -/
def readAccountTransactions (C : FuseCrates) (repos : Repositories ε) (accountId : String) :
    Except (FuseError ε) String :=
  match C.parseStr accountId with
  | none => .error (.invalidPath accountId)
  | some uuid =>
      match repos.getTransactionHistory ⟨uuid⟩ none none (some 100) with
      | .error error => .error (.ledgerError error)
      | .ok transactions => .ok (toStringPretty (txData C ⟨uuid⟩ transactions))

/-! ## Inodes -/

structure LedgerFilesystem where
  inodeMap : Std.HashMap UInt64 String
  pathMap : Std.HashMap String UInt64
  nextInode : UInt64

namespace LedgerFilesystem

/-- `LedgerFilesystem::new`. -/
def new : LedgerFilesystem where
  inodeMap :=
    (((Std.HashMap.emptyWithCapacity.insert 1 "/").insert 2 "/accounts").insert 3
      "/transactions").insert 4 "/docs"
  pathMap :=
    (((Std.HashMap.emptyWithCapacity.insert "/" 1).insert "/accounts" 2).insert
      "/transactions" 3).insert "/docs" 4
  nextInode := 5

/-- `clone`: maps of its own with the same content. -/
def clone (fs : LedgerFilesystem) : LedgerFilesystem where
  inodeMap := fs.inodeMap
  pathMap := fs.pathMap
  nextInode := fs.nextInode

/-- The part of `get_or_create_inode` under the write locks. -/
def createInode (fs : LedgerFilesystem) (path : String) : UInt64 × LedgerFilesystem :=
  -- Looked up again: another thread may have been faster.
  match fs.pathMap[path]? with
  | some inode => (inode, fs)
  | none =>
      let inode := fs.nextInode
      (inode,
        { inodeMap := fs.inodeMap.insert inode path
          pathMap := fs.pathMap.insert path inode
          nextInode := inode + 1 })

/-- `get_or_create_inode`. -/
def getOrCreateInode (fs : LedgerFilesystem) (path : String) : UInt64 × LedgerFilesystem :=
  match fs.pathMap[path]? with
  | some inode => (inode, fs)
  | none => fs.createInode path

/-- `get_path`. -/
def getPath (fs : LedgerFilesystem) (inode : UInt64) : Option String := fs.inodeMap[inode]?

end LedgerFilesystem

/-! ## Replies -/

/-- `ENOENT`. -/
def ENOENT : Nat := 2

/-- `TTL`, in seconds. -/
def TTL : Nat := 1

inductive FileType
  | directory
  | regularFile
deriving DecidableEq

/-- `fuser::FileAttr`, with times in seconds since 1970. -/
structure FileAttr where
  ino : UInt64
  size : UInt64
  blocks : UInt64
  atime : UInt64
  mtime : UInt64
  ctime : UInt64
  crtime : UInt64
  kind : FileType
  perm : UInt16
  nlink : UInt32
  uid : UInt32
  gid : UInt32
  rdev : UInt32
  flags : UInt32
  blksize : UInt32

/-- `create_file_attr`, at a clock reading. -/
def createFileAttr (now : UInt64) (inode size : UInt64) (isDir : Bool) : FileAttr where
  ino := inode
  size := size
  blocks := (size + 511) / 512
  atime := now
  mtime := now
  ctime := now
  crtime := now
  kind := if isDir then .directory else .regularFile
  perm := if isDir then 0o755 else 0o644
  nlink := 1
  uid := 1000
  gid := 1000
  rdev := 0
  flags := 0
  blksize := 4096

/-- `ReplyEntry`: an error code, or an entry with its lifetime and generation. -/
inductive ReplyEntry
  | error (code : Nat)
  | entry (ttl : Nat) (attr : FileAttr) (generation : Nat)

/-- `ReplyAttr`. -/
inductive ReplyAttr
  | error (code : Nat)
  | attr (ttl : Nat) (attr : FileAttr)

/-- `ReplyData`, or no reply because the handler panicked. -/
inductive ReplyData
  | error (code : Nat)
  | data (bytes : List UInt8)
  | panicked

/-- One line of a directory listing. -/
structure DirEntry where
  name : String
  inode : UInt64
  kind : FileType
deriving DecidableEq

/-- `ReplyDirectory`: an error code, or entries with the offset that follows
each. -/
inductive ReplyDirectory
  | error (code : Nat)
  | ok (added : List (Nat × DirEntry))

/-- Whether the reply buffer has no room for one more entry, given what was
added before. -/
abbrev Full : Type := List (Nat × DirEntry) → Nat × DirEntry → Bool

/-! ## Handlers -/

namespace LedgerFilesystem

/-- The match of `lookup`, which does not name the root. -/
def lookupIsDir (fullPath : String) : Bool :=
  classify ["/accounts", "/transactions", "/docs"] fullPath

/-- `lookup`. -/
def lookup (fs : LedgerFilesystem) (now : UInt64) (parent : UInt64) (name : String) :
    ReplyEntry × LedgerFilesystem :=
  match fs.getPath parent with
  | none => (.error ENOENT, fs)
  | some parentPath =>
      let fullPath := childPath parentPath name
      let created := fs.getOrCreateInode fullPath
      let attr := createFileAttr now created.1 0 (lookupIsDir fullPath)
      (.entry TTL attr 0, created.2)

/-- The match of `getattr`. -/
def getattrIsDir (path : String) : Bool :=
  classify ["/", "/accounts", "/transactions", "/docs"] path

/-- `getattr`. -/
def getattr (fs : LedgerFilesystem) (now : UInt64) (ino : UInt64) : ReplyAttr :=
  match fs.getPath ino with
  | none => .error ENOENT
  | some path =>
      let isDir := getattrIsDir path
      let size := if isDir then 0 else 1024
      .attr TTL (createFileAttr now ino size isDir)

/-- The content `read` computes for a path; `none` is a panic, of the `unwrap`
of the third component. -/
def content (C : FuseCrates) (repos : Repositories ε) (path : String) :
    Option (Except (FuseError ε) String) :=
  if endsWith "/balance.json" path then
    match (splitSlash path)[2]? with
    | none => none
    | some accountId => some (readAccountBalance C repos accountId)
  else if endsWith "/tx.log" path then
    match (splitSlash path)[2]? with
    | none => none
    | some accountId => some (readAccountTransactions C repos accountId)
  else some (.error (.fileNotFound path))

/-- `read`.  The end of the slice is computed in a `usize` that wraps, as in a
release build; it does so only from a start far beyond any content. -/
def read (fs : LedgerFilesystem) (C : FuseCrates) (repos : Repositories ε) (ino : UInt64)
    (offset : Int64) (size : UInt32) : ReplyData :=
  match fs.getPath ino with
  | none => .error ENOENT
  | some path =>
      match content C repos path with
      | none => .panicked
      | some (.error _) => .error ENOENT
      | some (.ok text) =>
          let contentBytes := text.toByteArray.data.toList
          let start := offset.toUInt64.toNat
          let stop := min ((start + size.toNat) % 2 ^ 64) contentBytes.length
          if contentBytes.length ≤ start then .data []
          else .data ((contentBytes.take stop).drop start)

/-- The loop of the `/accounts` listing. -/
def listEntries (fs : LedgerFilesystem) : List String → List DirEntry × LedgerFilesystem
  | [] => ([], fs)
  | accountId :: accounts =>
      let created := fs.getOrCreateInode ("/accounts/" ++ accountId)
      let rest := created.2.listEntries accounts
      (⟨accountId, created.1, .directory⟩ :: rest.1, rest.2)

/-- The match of `readdir`: the entries of a path, or no listing. -/
def entries (fs : LedgerFilesystem) (repos : Repositories ε) (ino : UInt64) (path : String) :
    Option (List DirEntry) × LedgerFilesystem :=
  if path = "/" then
    (some [⟨".", 1, .directory⟩, ⟨"..", 1, .directory⟩, ⟨"accounts", 2, .directory⟩,
      ⟨"transactions", 3, .directory⟩, ⟨"docs", 4, .directory⟩], fs)
  else if path = "/accounts" then
    match listAccounts repos with
    | .error _ => (some [⟨".", 2, .directory⟩, ⟨"..", 1, .directory⟩], fs)
    | .ok accounts =>
        let listed := fs.listEntries accounts
        (some (⟨".", 2, .directory⟩ :: ⟨"..", 1, .directory⟩ :: listed.1), listed.2)
  else if underAccounts path then
    let balance := fs.getOrCreateInode (path ++ "/balance.json")
    let tx := balance.2.getOrCreateInode (path ++ "/tx.log")
    (some [⟨".", ino, .directory⟩, ⟨"..", 2, .directory⟩,
      ⟨"balance.json", balance.1, .regularFile⟩, ⟨"tx.log", tx.1, .regularFile⟩], tx.2)
  else if path = "/transactions" then
    (some [⟨".", 3, .directory⟩, ⟨"..", 1, .directory⟩], fs)
  else if path = "/docs" then
    (some [⟨".", 4, .directory⟩, ⟨"..", 1, .directory⟩], fs)
  else (none, fs)

/-- The loop of `readdir` over the entries from index `i` on: each is added
under the offset after it until the buffer is full. -/
def addEntries (full : Full) (i : Nat) (added : List (Nat × DirEntry)) :
    List DirEntry → List (Nat × DirEntry)
  | [] => added
  | entry :: rest =>
      if full added (i + 1, entry) then added
      else addEntries full (i + 1) (added ++ [(i + 1, entry)]) rest

/-- `readdir`. -/
def readdir (fs : LedgerFilesystem) (repos : Repositories ε) (full : Full) (ino : UInt64)
    (offset : Int64) : ReplyDirectory × LedgerFilesystem :=
  match fs.getPath ino with
  | none => (.error ENOENT, fs)
  | some path =>
      match fs.entries repos ino path with
      | (none, after) => (.error ENOENT, after)
      | (some entries, after) =>
          let skipped := offset.toUInt64.toNat
          (.ok (addEntries full skipped [] (entries.drop skipped)), after)

end LedgerFilesystem

end LedgerFS.Fuse
