import CertRenewer.World

/-!
# Filesystem and service primitives

`_Files` of `unifi_executor_files.py` and `_Service` of `unifi_process.py`.
Each system call or child process is one `primitive`. A copy or a write in
several chunks is two: the file it fills holds unusable data until the last
chunk.
-/

namespace CertRenewer

open Crash

def abc : Nat := 1000

/-- The `os.stat_result` fields of `_identity`. -/
structure Stat where
  dev : Nat
  ino : Nat
  size : Nat
  regular : Bool
  mode : Nat
  uid : Nat
  gid : Nat
  stamp : Nat
  nlink : Nat
  deriving DecidableEq, Repr

/-- `_inode`. -/
def Stat.fileId (s : Stat) : FileId := ⟨s.dev, s.ino⟩

def Disk.statOf (d : Disk) (i : Nat) : Stat :=
  let file := d.files i
  ⟨file.dev, i, file.size, file.regular, file.mode, file.uid, file.gid, file.stamp, d.links i⟩

def Disk.stat (d : Disk) (n : Name) : Option Stat := (d.dir.visible n).map d.statOf

def Name.isStore : Name → Bool
  | .canonical | .stage | .rollback => true
  | _ => false

/-- The owner a file under this name must have: the UniFi user for keystores,
root for the executor's own files. -/
def Name.owner (n : Name) : Nat := if n.isStore then abc else 0

def Name.linkCounts : Name → List Nat
  | .canonical | .rollback => [1, 2]
  | _ => [1]

/-- The checks of `status` on what it found. -/
def Stat.safe (s : Stat) (n : Name) (dev : Nat) : Bool :=
  s.regular && s.mode == 0o600 && s.uid == n.owner && s.gid == n.owner && s.dev == dev &&
    decide (s.size ≤ maxStore) && n.linkCounts.contains s.nlink

section
variable (x : Session)

/-- `_name`: the directory behind the open descriptor is still the trusted one. -/
def checkName : Exec Unit := primitive x (pure ())

def status (n : Name) : Exec Stat := do
  checkName x
  primitive x do
    let d ← Prog.read World.disk
    match d.stat n with
    | none => Prog.raise .os
    | some s =>
      demand (s.safe n d.dev) "unsafe transaction file"
      pure s

def exists_ (n : Name) : Exec Bool := do
  checkName x
  primitive x (Prog.read fun w => (w.disk.dir.visible n).isSome)

def same (n : Name) (expected : Stat) : Exec Unit := do
  let s ← status x n
  demand (s = expected) "transaction file identity changed"

/-- The identity check both modes of `opened` end with. -/
def checkOpened (n : Name) (i : Nat) : Exec Unit := do
  let opened ← primitive x (Prog.read fun w => w.disk.statOf i)
  let named ← status x n
  demand (opened = named) "transaction file changed while opening"

/-- `opened(name)`: the number of the file it opened. -/
def opened (n : Name) : Exec Nat := do
  checkName x
  let i ← primitive x do
    let d ← Prog.read World.disk
    match d.dir.visible n with
    | none => Prog.raise .os
    | some i => pure i
  checkOpened x n i
  pure i

/-- A new file of root's, empty and not yet on the disk. -/
def Disk.create (d : Disk) (n : Name) : Disk :=
  { d with
    dir := d.dir.create n
    files := Function.update d.files d.dir.next
      ⟨d.dev, true, 0o600, 0, 0, 0, 0, 0, .other [], .other []⟩ }

def createEntry (n : Name) : Exec Nat := do
  let d ← Prog.read World.disk
  match d.dir.visible n with
  | some _ => Prog.raise .os
  | none =>
    emit (.created n d.dir.next)
    setDisk fun d => d.create n
    pure d.dir.next

/-- `opened(name, create=True)`: root creates the file, then gives it its owner
and mode. -/
def create (n : Name) : Exec Nat := do
  checkName x
  let i ← primitive x (createEntry n)
  let owner := if n = .stage then abc else 0
  primitive x (setDisk fun d => d.modify i fun file => { file with uid := owner, gid := owner })
  primitive x (setDisk fun d => d.modify i fun file => { file with mode := 0o600 })
  checkOpened x n i
  pure i

def fsyncFile (n : Name) (i : Nat) : Exec Unit := primitive x do
  emit (.syncedFile n i)
  setDisk fun d => d.modify i fun file => { file with stored := file.content }

def syncFile (n : Name) : Exec Unit := do
  let i ← opened x n
  fsyncFile x n i

def syncDirectory : Exec Unit := primitive x do
  emit .syncedDirectory
  setDisk fun d => { d with dir := d.dir.sync }

def fill (i : Nat) (content : Content) (size : Nat) : Exec Unit :=
  setDisk fun d => d.modify i fun file =>
    { file with content := content, size := size, stamp := file.stamp + 1 }

def write (i : Nat) (content : Content) (size : Nat) : Exec Unit := do
  primitive x do
    let w ← Prog.read id
    let chunk := x.oracle.partly w.tick
    fill i (.other chunk) (min chunk.length size)
  primitive x (fill i content size)

def copyStage : Exec Unit := do
  let source ← opened x .canonical
  let dest ← create x .stage
  let before ← status x .canonical
  demand (before.nlink = 1) "unexpected canonical hard link"
  let file ← Prog.read fun w => w.disk.files source
  write x dest file.content before.size
  same x .canonical before
  demand (dest ≠ before.ino) "stage must be an independent inode"

def linkEntry : Exec Unit := do
  let d ← Prog.read World.disk
  match d.dir.visible .canonical, d.dir.visible .rollback with
  | some i, none =>
    emit (.linked .rollback i)
    setDisk fun d => { d.touch i with dir := d.dir.link .canonical .rollback }
  | _, _ => Prog.raise .os

def linkRollback : Exec Unit := do
  let _ ← status x .canonical
  primitive x linkEntry

def renameEntry (source target : Name) : Exec Unit := do
  let d ← Prog.read World.disk
  match d.dir.visible source with
  | none => Prog.raise .os
  | some i =>
    emit (.renamed source target i)
    setDisk fun d => { d.touch i with dir := d.dir.rename source target }

def replace (source target : Name) : Exec Unit := do
  demand ((source, target) ∈
      [(Name.stage, Name.canonical), (.rollback, .canonical), (.journalNew, .journal)])
    "invalid internal replacement"
  let _ ← status x source
  primitive x (renameEntry source target)

def unlinkEntry (n : Name) : Exec Unit := do
  let d ← Prog.read World.disk
  match d.dir.visible n with
  | none => Prog.raise .os
  | some i =>
    emit (.unlinked n)
    setDisk fun d => { d.touch i with dir := d.dir.unlink n }

def remove (n : Name) : Exec Unit := do
  demand (n ∈ [Name.stage, .rollback, .journal, .journalNew]) "invalid internal cleanup"
  if ← exists_ x n then
    let _ ← status x n
    primitive x (unlinkEntry n)

/-- The temporary file is complete and synced before it takes the journal's
name. Encoding the value is the first primitive, which also refuses a text
that is too long. -/
def writeJournal (value : Journal) : Exec Unit := do
  emit (.journalWrite value)
  let size ← primitive x (Prog.read fun w => (x.oracle.encodedSize w.tick).val)
  remove x .journalNew
  let i ← create x .journalNew
  write x i (.journal value) size
  fsyncFile x .journalNew i
  replace x .journalNew .journal
  syncDirectory x

def readJournal : Exec Journal := do
  let i ← opened x .journal
  let file ← primitive x (Prog.read fun w => w.disk.files i)
  match file.content with
  | .journal j => pure j
  | _ => Prog.raise .os

/-! ## The service -/

/-- A scan for the UniFi JVM and for keytool. -/
def processes : Exec (Bool × Bool) :=
  primitive x (Prog.read fun w => (w.service.java, w.service.keytool))

def running : Exec Bool := primitive x (Prog.read fun w => w.service.up)

def noKeytool : Exec Unit := do
  let (_, keytool) ← processes x
  demand (!keytool) "surviving keytool prevents execution"

def stopped : Exec Unit := do
  let (unifi, keytool) ← processes x
  demand (!unifi && !keytool) "UniFi writer exclusion failed"
  let up ← running x
  demand (!up) "UniFi writer exclusion failed"
  emit .provenStopped

def stop : Exec Unit := do
  noKeytool x
  primitive x do
    emit .stopIssued
    let w ← Prog.read id
    setService fun s => { s with up := false, java := s.java && x.oracle.lingers w.tick }
  stopped x

def start : Exec Unit := do
  noKeytool x
  primitive x do
    emit .startIssued
    setService fun s => { s with up := true, java := true }
  let up ← running x
  demand up "UniFi service readiness failed"
  let (unifi, _) ← processes x
  demand unifi "UniFi service readiness failed"

end

end CertRenewer
