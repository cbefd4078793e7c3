import CertRenewer.Crash.Program
import CertRenewer.Crash.Directory
import CertRenewer.Journal

/-!
# The executor's world

The data directory with its files, the UniFi service, and what the executor
process holds in memory. Everything outside the program is an `Oracle`: for
each primitive step in turn, what the platform makes of it and what the
outside answers. A run is a function of the world and the oracle, so a
statement about every oracle is one about every failure, every answer and
every point at which the process can be cut off.

`trace` records what the executor did, newest first, each entry with the world
as it was just before.
-/

namespace CertRenewer

open Crash

inductive Name where
  | canonical
  | stage
  | rollback
  | journal
  | journalNew
  | lock
  deriving DecidableEq, Repr

def Name.all : List Name := [.canonical, .stage, .rollback, .journal, .journalNew, .lock]

/-- What a file holds: a keystore's bytes, the complete text of a journal, or
anything else (an empty, half-written or damaged file). -/
inductive Content where
  | store (bytes : Bytes)
  | journal (j : Journal)
  | other (bytes : Bytes)
  deriving DecidableEq, Repr

/-- `content` is what a reader sees, `stored` what a power loss leaves;
`outside` counts links to the file from outside the directory, and `stamp`
stands for the modification and change times. -/
structure Inode where
  dev : Nat
  regular : Bool
  mode : Nat
  uid : Nat
  gid : Nat
  size : Nat
  outside : Nat
  stamp : Nat
  content : Content
  stored : Content
  deriving DecidableEq, Repr

structure Disk where
  dev : Nat
  files : Nat → Inode
  dir : Dir Name

/-- The s6 state of the UniFi service and the processes a scan finds. -/
structure Service where
  up : Bool
  java : Bool
  keytool : Bool
  deriving DecidableEq, Repr

inductive KeytoolCommand where
  | list
  | certreq (dname ext : String)
  | importcert (reply : Bytes)
  deriving DecidableEq, Repr

/-- The `stage` variable of `install_certificate`. -/
inductive InstallStage where
  | preImport
  | import
  | postImport
  deriving DecidableEq, Repr

def InstallStage.text : InstallStage → String
  | .preImport => "pre-import validation"
  | .import => "certificate import; keystore may have changed"
  | .postImport => "post-import verification; keystore may have changed"

/-- The executor object: its in-memory journal, whether it holds the lock, and
whether it must leave the service stopped. -/
structure Process where
  journal : Option Journal := none
  locked : Bool := false
  expectStopped : Bool := false
  stage : InstallStage := .preImport
  deriving DecidableEq, Repr

inductive Event where
  | keytool (name : Name) (command : KeytoolCommand)
  | created (name : Name) (file : Nat)
  | linked (name : Name) (file : Nat)
  | renamed (source target : Name) (file : Nat)
  | unlinked (name : Name)
  | syncedFile (name : Name) (file : Nat)
  | syncedDirectory
  | journalWrite (value : Journal)
  | stamped (time : Time)
  | stageVerified (policy : RenewalPolicy) (request : CertificateImportRequest) (now : Clock)
  | observed (policyDigest : Sha256) (leaf : Bytes)
  | stopIssued
  | startIssued
  | provenStopped
  | acquired
  | released
  deriving DecidableEq, Repr

structure Entry where
  event : Event
  disk : Disk
  service : Service
  process : Process

structure World where
  disk : Disk
  service : Service
  process : Process
  held : Bool
  uuids : Nat
  tick : Nat
  trace : List Entry

def maxStore : Nat := 16 * 1024 * 1024

/-- What `keytool -importcert` leaves in the file it rewrites, of any size. -/
structure Imported where
  content : Content
  size : Nat

/-- The verdict on each primitive, the clock, whether the JVM outlives a stop,
what an unfinished copy or write holds, what keytool writes and prints, the
length of an encoded journal, and the leaf the live endpoint authenticates
with. -/
structure Oracle where
  verdict : Nat → Verdict
  clock : Nat → Time
  lingers : Nat → Bool
  partly : Nat → Bytes
  encodedSize : Nat → Fin (maxJournal + 1)
  imported : Nat → Imported
  csrOutput : Nat → Bytes
  served : Nat → Option Bytes

/-- The code the executor runs on: the libraries, and the text
`keytool -list -rfc` prints for a file's content (`none` when it cannot read
it). -/
structure Host where
  lib : Library
  listing : Content → Option Bytes

/-- One executor instance: the host, its policy, and the outside it meets. -/
structure Session where
  host : Host
  policy : RenewalPolicy
  oracle : Oracle

abbrev Exec := Prog World Error

/-- Nothing outside fails: every primitive proceeds and the JVM goes down with
its service. -/
def Oracle.Reliable (o : Oracle) : Prop := ∀ n, o.verdict n = .proceed ∧ o.lingers n = false

def World.log (w : World) (e : Event) : World :=
  { w with trace := ⟨e, w.disk, w.service, w.process⟩ :: w.trace }

def emit (e : Event) : Exec Unit := Prog.update fun w => w.log e

/-- One primitive step, under the oracle's verdict for it. -/
def primitive {α : Type} (x : Session) (m : Exec α) : Exec α := fun w =>
  Prog.interrupted .os m (x.oracle.verdict w.tick) { w with tick := w.tick + 1 }

def setDisk (f : Disk → Disk) : Exec Unit := Prog.update fun w => { w with disk := f w.disk }

def setService (f : Service → Service) : Exec Unit :=
  Prog.update fun w => { w with service := f w.service }

def setProcess (f : Process → Process) : Exec Unit :=
  Prog.update fun w => { w with process := f w.process }

def refuse {α : Type} (message : String) : Exec α := Prog.raise (.operation message)

def demand (p : Prop) [Decidable p] (message : String) : Exec Unit :=
  Prog.guard p (.operation message)

def lift {α : Type} (x : Result α) : Exec α := Prog.ofExcept x

/-- `except Exception: raise … from None`. -/
def mask {α : Type} (message : String) (m : Exec α) : Exec α :=
  Prog.handle m fun e => Prog.raise (.masked message e)

/-! ## Files -/

namespace Disk

def inode (d : Disk) (n : Name) : Option Inode := (d.dir.visible n).map d.files

/-- A power loss drops pending directory changes and leaves `torn` data in the
files that were not synced. -/
def lose (d : Disk) (kept : List Bool) (torn : Nat → Content) : Disk :=
  { d with
    dir := d.dir.lose kept
    files := fun i =>
      if (d.files i).content = (d.files i).stored then d.files i
      else { d.files i with content := torn i, stored := torn i } }

def links (d : Disk) (i : Nat) : Nat :=
  Name.all.countP (fun n => d.dir.visible n = some i) + (d.files i).outside

def modify (d : Disk) (i : Nat) (f : Inode → Inode) : Disk :=
  { d with files := Function.update d.files i (f (d.files i)) }

def touch (d : Disk) (i : Nat) : Disk :=
  d.modify i fun file => { file with stamp := file.stamp + 1 }

end Disk

end CertRenewer
