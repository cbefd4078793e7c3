import CertRenewer.Document
import CertRenewer.Journal

/-!
# The text of the journal

`write_journal` and `read_journal` of `unifi_executor_files.py`, the stricter
reader in `secure_after_linuxserver_init`, and `_validate_journal` on the values
they write and read. Python's codecs and its JSON scanner are not modelled; what
they are asked for is.
-/

namespace CertRenewer.JournalText

def points (text : String) : List Nat := text.toList.map Char.toNat

/-! ## `_validate_journal` -/

/-- The values of a dictionary with exactly these names. -/
def members (value : Document) (names : List (List Nat)) (message : String) : Result (List Document) :=
  match value with
  | .object fields => do
    require (sameSet (fields.map Prod.fst) names) message
    names.mapM fun name => orFail (fields.lookup name) message
  | _ => fail message

/-- `[0-9a-f]{n}`. -/
def hexadecimal (n : Nat) (text : List Nat) : Bool :=
  text.length == n && text.all fun p => (48 ≤ p && p ≤ 57) || (97 ≤ p && p ≤ 102)

def hexText (n : Nat) (value : Document) (message : String) : Result (List Nat) :=
  match value with
  | .string text => do
    require (hexadecimal n text = true) message
    .ok text
  | _ => fail message

def flag (value : Document) (message : String) : Result Bool :=
  match value with
  | .bool b => .ok b
  | _ => fail message

def Phase.text : Phase → String
  | .quiescing => "quiescing"
  | .quiesced => "quiesced"
  | .staging => "staging"
  | .stagedValidated => "staged_validated"
  | .rollbackDurable => "rollback_durable"
  | .commitPossible => "commit_possible"
  | .committed => "committed"
  | .canonicalVerified => "canonical_verified"
  | .serviceResumedPendingLiveVerification => "service_resumed_pending_live_verification"
  | .liveVerified => "live_verified"
  | .recoveryRequired => "recovery_required"
  | .recoveredOld => "recovered_old"

/-- `_PHASES`. -/
def phases : List Phase :=
  [.quiescing, .quiesced, .staging, .stagedValidated, .rollbackDurable, .commitPossible, .committed, .canonicalVerified,
    .serviceResumedPendingLiveVerification, .liveVerified, .recoveryRequired, .recoveredOld]

def phaseOf (value : Document) (message : String) : Result Phase :=
  match value with
  | .string text => orFail (phases.find? fun phase => points (Phase.text phase) = text) message
  | _ => fail message

structure Identity where
  spki : List Nat
  chain : List (List Nat)
  deriving DecidableEq

def identity (value : Document) : Result Identity := do
  match ← members value [points "spki", points "chain"] "invalid journal public identity" with
  | [spki, .array chain] =>
    require (1 ≤ chain.length ∧ chain.length ≤ 10) "invalid journal public identity"
    let spki ← hexText 64 spki "invalid journal public identity"
    let chain ← chain.mapM fun digest => hexText 64 digest "invalid journal public identity"
    .ok ⟨spki, chain⟩
  | _ => fail "invalid journal public identity"

/-- Two integers that are no booleans and not negative. -/
def inode (value : Document) : Result (Nat × Nat) :=
  match value with
  | .array [.int dev, .int ino] => do
    require (0 ≤ dev ∧ 0 ≤ ino) "invalid journal file identity"
    .ok (dev.toNat, ino.toNat)
  | _ => fail "invalid journal file identity"

def optional {α : Type} (read : Document → Result α) : Document → Result (Option α)
  | .null => .ok none
  | value => do .ok (some (← read value))

structure Fields where
  policyDigest : List Nat
  transaction : List Nat
  phase : Phase
  resume : Bool
  old : Identity
  issued : Option Identity
  oldInode : Nat × Nat
  stageInode : Option (Nat × Nat)
  rollbackExpected : Bool
  commitPossible : Bool
  deriving DecidableEq

def fieldNames : List (List Nat) :=
  ["version", "policy_digest", "transaction", "phase", "resume", "old", "issued", "old_inode", "stage_inode",
    "rollback_expected", "commit_possible"].map points

/-- `type(version) is int and version == 2`. -/
def isVersion2 : Document → Bool
  | .int 2 => true
  | _ => false

/-- The checks between the fields. -/
def Fields.consistent (f : Fields) : Result Unit := do
  require (¬(f.commitPossible ∧ (f.issued.isNone ∨ f.stageInode.isNone ∨ !f.rollbackExpected)))
    "inconsistent recovery journal"
  require (¬(f.phase = .liveVerified ∧ (!f.resume ∨ !f.rollbackExpected ∨ !f.commitPossible ∨
      f.issued.isNone ∨ f.stageInode.isNone ∨ some f.oldInode = f.stageInode ∨
      some f.old.spki ≠ f.issued.map Identity.spki ∨ f.issued.map (fun id => id.chain.length) ≠ some 2)))
    "inconsistent live-verified journal"

/-- `_validate_journal`, with what it saw of the value. -/
def validateJournal (value : Document) : Result Fields := do
  match ← members value fieldNames "invalid recovery journal" with
  | [version, policyDigest, transaction, phase, resume, old, issued, oldInode, stageInode, rollbackExpected,
      commitPossible] =>
    require (isVersion2 version = true) "invalid recovery journal"
    let policyDigest ← hexText 64 policyDigest "invalid recovery journal"
    let transaction ← hexText 32 transaction "invalid recovery journal"
    let phase ← phaseOf phase "invalid recovery journal"
    let resume ← flag resume "invalid recovery journal"
    let rollbackExpected ← flag rollbackExpected "invalid recovery journal"
    let commitPossible ← flag commitPossible "invalid recovery journal"
    let old ← identity old
    let issued ← optional identity issued
    let oldInode ← inode oldInode
    let stageInode ← optional inode stageInode
    let fields : Fields := ⟨policyDigest, transaction, phase, resume, old, issued, oldInode, stageInode,
      rollbackExpected, commitPossible⟩
    fields.consistent
    .ok fields
  | _ => fail "invalid recovery journal"

/-! ## Writing -/

/-- `text.encode("ascii")`. -/
def encodeAscii (text : List Char) : Option Bytes :=
  if text.all (·.toNat < 128) then some (text.map fun c => .ofNat c.toNat) else none

/-- The bytes of `write_journal`. -/
def writeJournal (value : Document) : Result Bytes := do
  let data ← orFail (encodeAscii value.sorted.write) "'ascii' codec can't encode characters"
  require (data.length ≤ maxJournal) "journal exceeds limit"
  .ok data

/-! ## Reading -/

inductive Encoding where
  | utf8
  | utf8Sig
  | utf16
  | utf16Be
  | utf16Le
  | utf32
  | utf32Be
  | utf32Le
  deriving DecidableEq

/-- `json.detect_encoding`. -/
def detectEncoding (data : Bytes) : Encoding :=
  if [0, 0, 0xfe, 0xff].isPrefixOf data || [0xff, 0xfe, 0, 0].isPrefixOf data then .utf32
  else if [0xfe, 0xff].isPrefixOf data || [0xff, 0xfe].isPrefixOf data then .utf16
  else if [0xef, 0xbb, 0xbf].isPrefixOf data then .utf8Sig
  else
    match data with
    | 0 :: second :: _ :: _ :: _ => if second ≠ 0 then .utf16Be else .utf32Be
    | _ :: 0 :: third :: fourth :: _ => if third ≠ 0 ∨ fourth ≠ 0 then .utf16Le else .utf32Le
    | [0, _] => .utf16Be
    | [_, 0] => .utf16Le
    | _ => .utf8

/-- What the standard library makes of bytes and of a text. -/
structure Decoder where
  decode : Encoding → Bytes → Option (List Nat)
  scan : List Nat → Option Document

/-- `data.decode("ascii")`. -/
def decodeAscii (data : Bytes) : Option (List Nat) :=
  if data.all (· < 128) then some (data.map UInt8.toNat) else none

/-- `read_journal`, on the bytes of the file. -/
def readJournal (json : Decoder) (file : Bytes) : Result Document := do
  let data := file.take (maxJournal + 1)
  require (data.length ≤ maxJournal) "journal exceeds limit"
  let text ← orFail (json.decode (detectEncoding data) data) "invalid text"
  let document ← orFail (json.scan text) "invalid document"
  orFail document.load "repeated name"

/-- The reader in `secure_after_linuxserver_init`. -/
def readAsciiJournal (json : Decoder) (file : Bytes) : Result Document := do
  let data := file.take (maxJournal + 1)
  require (data.length ≤ maxJournal) "recovery journal exceeds limit"
  let text ← orFail (decodeAscii data) "'ascii' codec can't decode byte"
  let document ← orFail (json.scan text) "invalid document"
  orFail document.load "repeated name"

end CertRenewer.JournalText
