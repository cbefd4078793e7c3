import CertRenewer.Crash.Program
import CertRenewer.Certificate

/-!
# The process scan

`_processes` of `unifi_process.py`: every mutation of the keystore waits for it
to say that no UniFi JVM and no keytool is running. Each entry of `/proc` comes
with what every call on it answers, in the parent and in the child the parent
forks when it is not allowed to look. The parent's failed reads are recorded, and
the child's reports that an entry is gone.
-/

namespace CertRenewer.Processes

open Crash

/-- Errors of a call: `ENOENT`, `ESRCH`, those of `PermissionError`, any other. -/
inductive Errno where
  | noent
  | srch
  | denied
  | other
  deriving DecidableEq, Repr

def Errno.gone : Errno → Bool
  | .noent | .srch => true
  | _ => false

inductive Fault where
  | disappeared
  | permission
  | os
  | operation (message : String)
  deriving DecidableEq, Repr

/-- What is noted of an entry: a failed read of the parent, or the child's report
that it is gone. -/
inductive Note where
  | failed (error : Errno)
  | reported
  deriving DecidableEq, Repr

/-- The parent itself found the entry gone. -/
def Note.gone : Note → Bool
  | .failed error => error.gone
  | .reported => false

structure Sighting where
  entry : Nat
  note : Note
  deriving DecidableEq, Repr

abbrev Scan := Prog (List Sighting) Fault

def exclusionFails {α : Type} : Scan α := Prog.raise (.operation "cannot establish process exclusion")

/-- `_target_error`. -/
def targetError {α : Type} (error : Errno) : Scan α :=
  match error with
  | .noent | .srch => Prog.raise .disappeared
  | .denied => Prog.raise .permission
  | .other => Prog.raise .os

/-- A call on entry `n`, under `except OSError as error: _target_error(error)`. -/
def attempt {α : Type} (n : Nat) (answer : Except Errno α) : Scan α :=
  match answer with
  | .ok a => pure a
  | .error error => do
    Prog.update fun seen => seen ++ [⟨n, .failed error⟩]
    targetError error

/-- A call that is not on the entry: its error is an `OSError`. -/
def call (answer : Option Errno) : Scan Unit :=
  match answer with
  | none => pure ()
  | some .denied => Prog.raise .permission
  | some _ => Prog.raise .os

/-- `try: …; finally: os.close(fd)`. A failed close takes the place of the rest. -/
def closing {α : Type} (closes : Bool) (m : Scan α) : Scan α :=
  Prog.ensure m (if closes then pure () else Prog.raise .os)

/-! ## Reading a file of an entry -/

/-- How the kernel answers the calls of `_read_at`: the errors, and how many
bytes each read gives. -/
structure FileReads where
  opened : Except Errno Unit
  reads : Nat → Except Errno Nat
  closes : Bool

/-- The loop of `_read_at`, at its `count`th read. A read gives at least one byte
of what is left, and no byte only at the end. -/
def readLoop (n maximum : Nat) (reads : Nat → Except Errno Nat) (count : Nat) (result left : Bytes) : Scan Bytes :=
  if maximum < result.length then Prog.raise (.operation "process data exceeds inspection limit")
  else do
    let size ← attempt n (reads count)
    match left with
    | [] => pure result
    | byte :: rest =>
      let more := min size (min 4096 (maximum + 1 - result.length)) - 1
      readLoop n maximum reads (count + 1) (result ++ byte :: rest.take more) (rest.drop more)
  termination_by left.length
  decreasing_by
    simp only [List.length_drop, List.length_cons]
    omega

/-- `_read_at` of a file with this content. -/
def readAt (n maximum : Nat) (answers : FileReads) (content : Bytes) : Scan Bytes := do
  attempt n answers.opened
  closing answers.closes (readLoop n maximum answers.reads 0 [] content)

/-! ## One process -/

def ascii (text : String) : Bytes := text.toList.map fun c => .ofNat c.toNat

/-- What a process is: the target of `exe`, and `cmdline`. -/
structure Process where
  exe : Bytes
  cmdline : Bytes

def removeSuffix (suffix text : Bytes) : Bytes :=
  if suffix.isSuffixOf text then text.take (text.length - suffix.length) else text

/-- `Path(text).name`: empty components and `.` do not count. -/
def pathName (text : Bytes) : Bytes :=
  (((text.splitOn 47).filter fun part => part ≠ [] ∧ part ≠ [46]).getLast?).getD []

def executable (exe : Bytes) : Bytes := pathName (removeSuffix (ascii " (deleted)") exe)

/-- `args[index : index + 3]` for some index. -/
def startsUnifi (args : List Bytes) : Bool :=
  (List.range args.length).any fun index =>
    ((args.drop index).take 3) = [ascii "-jar", ascii "/usr/lib/unifi/lib/ace.jar", ascii "start"]

/-- A UniFi JVM, and a keytool. -/
def Process.classification (p : Process) : Bool × Bool :=
  let name := executable p.exe
  if name ≠ ascii "java" ∧ name ≠ ascii "keytool" then (false, false)
  else
    let args := p.cmdline.splitOn 0
    (decide (name = ascii "java") && startsUnifi args,
      decide (name = ascii "keytool") || decide (ascii "sun.security.tools.keytool.Main" ∈ args))

/-- The answers to `_inspect_process_fd`. -/
structure Inspection where
  readlink : Except Errno Unit
  cmdline : FileReads

/-- `_inspect_process_fd`. -/
def inspectProcessFd (n : Nat) (p : Process) (answers : Inspection) : Scan (Bool × Bool) := do
  attempt n answers.readlink
  let name := executable p.exe
  if name ≠ ascii "java" ∧ name ≠ ascii "keytool" then pure (false, false)
  else
    let command ← readAt n 65536 answers.cmdline p.cmdline
    let args := command.splitOn 0
    pure (decide (name = ascii "java") && startsUnifi args,
      decide (name = ascii "keytool") || decide (ascii "sun.security.tools.keytool.Main" ∈ args))

/-! ## The identity of a process -/

def abcUid : Nat := 1000
def abcGid : Nat := 1000
def maxProcessStatus : Nat := 16 * 1024

/-- `os.fstat` of the entry's directory. -/
structure Stat where
  dev : Nat
  ino : Nat
  uid : Nat
  gid : Nat
  deriving DecidableEq, Repr

/-- `bytes.splitlines`, after the beginning of the first line. -/
def linesFrom (line : Bytes) : Bytes → List Bytes
  | [] => if line = [] then [] else [line]
  | 13 :: 10 :: rest => line :: linesFrom [] rest
  | b :: rest => if b = 10 ∨ b = 13 then line :: linesFrom [] rest else linesFrom (line ++ [b]) rest

/-- `bytes.split()`, after the beginning of the first word. -/
def wordsFrom (word : Bytes) : Bytes → List Bytes
  | [] => if word = [] then [] else [word]
  | b :: rest =>
    if isAsciiSpace b then if word = [] then wordsFrom [] rest else word :: wordsFrom [] rest
    else wordsFrom (word ++ [b]) rest

/-- Digits, with single underscores between them, after a value and whether a
digit was just read. -/
def digitsFrom (value : Nat) (digit : Bool) : Bytes → Option Nat
  | [] => if digit then some value else none
  | b :: rest =>
    if 48 ≤ b ∧ b ≤ 57 then digitsFrom (value * 10 + (b.toNat - 48)) true rest
    else if b = 95 ∧ digit then digitsFrom value false rest
    else none

/-- `int` takes at most so many digits. -/
def maxDigits : Nat := 4300

def magnitude (digits : Bytes) : Option Nat :=
  if digits.countP (fun b => 48 ≤ b ∧ b ≤ 57) ≤ maxDigits then digitsFrom 0 false digits else none

/-- `int(item)`, for a word. -/
def integer : Bytes → Option Int
  | 43 :: digits => (magnitude digits).map fun n => (n : Int)
  | 45 :: digits => (magnitude digits).map fun n => -(n : Int)
  | digits => (magnitude digits).map fun n => (n : Int)

def readIds (value : Bytes) : Option (List Int) := (wordsFrom [] value).mapM integer

/-- `line.partition(b":")`, when there is a colon. -/
def partitionColon (line : Bytes) : Option (Bytes × Bytes) :=
  match line.span (· ≠ 58) with
  | (name, _ :: value) => some (name, value)
  | _ => none

/-- `fields`: the numbers after `Uid` and `Gid`. -/
structure Ids where
  uid : Option (List Int)
  gid : Option (List Int)
  deriving DecidableEq

def readStatusLine (fields : Ids) (line : Bytes) : Scan Ids :=
  match partitionColon line with
  | none => pure fields
  | some (name, value) =>
    if name = ascii "Uid" then
      match fields.uid, readIds value with
      | none, some ids => pure { fields with uid := some ids }
      | _, _ => exclusionFails
    else if name = ascii "Gid" then
      match fields.gid, readIds value with
      | none, some ids => pure { fields with gid := some ids }
      | _, _ => exclusionFails
    else pure fields

def readStatus (status : Bytes) : Scan Ids := (linesFrom [] status).foldlM readStatusLine ⟨none, none⟩

/-- The answers to `_abc_process_identity`, with the text of `status`. -/
structure IdentityReads where
  before : Except Errno Stat
  status : FileReads
  text : Bytes
  after : Except Errno Stat

/-- `_abc_process_identity`. -/
def abcProcessIdentity (n : Nat) (answers : IdentityReads) : Scan Stat := do
  let before ← attempt n answers.before
  if (before.uid, before.gid) ≠ (abcUid, abcGid) then exclusionFails
  else
    let status ← readAt n maxProcessStatus answers.status answers.text
    let fields ← readStatus status
    if fields ≠ ⟨some (List.replicate 4 abcUid), some (List.replicate 4 abcGid)⟩ then exclusionFails
    else
      let after ← attempt n answers.after
      if before ≠ after then exclusionFails else pure before

/-! ## The child -/

/-- `_PROCESS_RESULTS`. -/
def resultByte : Bool × Bool → UInt8
  | (false, false) => 78
  | (true, false) => 85
  | (false, true) => 75
  | (true, true) => 66

def processResult (byte : UInt8) : Option (Bool × Bool) :=
  [(false, false), (true, false), (false, true), (true, true)].find? fun found => resultByte found = byte

/-- What comes through the pipe: the child's byte, nothing, or bytes that are not
one byte of a result. -/
inductive Delivery where
  | written
  | silent
  | garbled (bytes : Bytes) (wrong : ∀ found, bytes ≠ [resultByte found])

/-- One turn of the loop in `_receive_child`: whether the deadline has passed,
what `select` and a read of the pipe answer, and what `waitpid` answers. -/
structure Turn where
  late : Bool
  select : Except Errno Bool
  read : Except Errno Nat
  waited : Except Errno (Option Int)

/-- The child and the calls around it. -/
structure Child where
  pipe : Option Errno
  fork : Option Errno
  closesWriter : Bool
  dropped : Bool
  inspection : Inspection
  delivery : Delivery
  turns : List Turn
  closesReader : Bool

/-- The byte `_child_inspection` writes. -/
def childByte (n : Nat) (p : Process) (child : Child) : UInt8 :=
  if child.dropped then
    match (inspectProcessFd n p child.inspection []).1 with
    | .ok found => resultByte found
    | .raised .disappeared => 68
    | _ => 69
  else 69

def Child.delivered (n : Nat) (p : Process) (child : Child) : Bytes :=
  match child.delivery with
  | .written => [childByte n p child]
  | .silent => []
  | .garbled bytes _ => bytes

/-- Where the loop of `_receive_child` stands, with what is left in the pipe. -/
structure Receiving where
  output : Bytes
  left : Bytes
  eof : Bool
  status : Option Int

/-- `os.read(result_fd, 2)` and what follows it. -/
def readPipe (size : Nat) (s : Receiving) : Scan Receiving :=
  match s.left with
  | [] => pure { s with eof := true }
  | byte :: rest =>
    let more := min size 2 - 1
    let output := s.output ++ byte :: rest.take more
    if 1 < output.length then exclusionFails else pure { s with output := output, left := rest.drop more }

/-- The events of one turn, unless the end was read. -/
def pollPipe (turn : Turn) (s : Receiving) : Scan Receiving :=
  if s.eof then pure s
  else
    match turn.select, turn.read with
    | .error error, _ | .ok true, .error error => do
      call (some error)
      pure s
    | .ok false, _ => pure s
    | .ok true, .ok size => readPipe size s

/-- `waitpid`, unless the child was waited for. -/
def pollChild (turn : Turn) (s : Receiving) : Scan Receiving :=
  match s.status, turn.waited with
  | some _, _ => pure s
  | none, .ok waited => pure { s with status := waited }
  | none, .error error => do
    call (some error)
    pure s

/-- The loop of `_receive_child`, which ends when the child was waited for and
the pipe is at its end. The turns end with the deadline. -/
def receiveLoop (s : Receiving) : List Turn → Scan (Int × Bytes)
  | [] =>
    match s.status, s.eof with
    | some code, true => pure (code, s.output)
    | _, _ => exclusionFails
  | turn :: rest =>
    match s.status, s.eof with
    | some code, true => pure (code, s.output)
    | _, _ =>
      if turn.late then exclusionFails
      else do
        let polled ← pollPipe turn s
        let waited ← pollChild turn polled
        receiveLoop waited rest

/-- `_receive_child`. -/
def receiveChild (n : Nat) (p : Process) (child : Child) : Scan (Bool × Bool) :=
  closing child.closesReader do
    let (code, output) ← receiveLoop ⟨[], child.delivered n p, false, none⟩ child.turns
    match code, output with
    | 0, [byte] =>
      if byte = 68 then Prog.raise .disappeared
      else
        match processResult byte with
        | some found => pure found
        | none => exclusionFails
    | _, _ => exclusionFails

/-- `_inspect_as_abc`. -/
def inspectAsAbc (n : Nat) (p : Process) (child : Child) : Scan (Bool × Bool) := do
  call child.pipe
  call child.fork
  closing child.closesWriter (pure ())
  receiveChild n p child

/-! ## The scan -/

/-- An entry of `/proc` and what the calls on it answer. -/
structure ProcEntry where
  name : List Char
  process : Process
  opened : Except Errno Unit
  direct : Inspection
  first : IdentityReads
  child : Child
  second : IdentityReads
  closes : Bool

/-- `name.isdecimal()`; the names in `/proc` are ASCII. -/
def ProcEntry.isDecimal (e : ProcEntry) : Bool := e.name ≠ [] && e.name.all Char.isDigit

/-- The child's report, when the parent was denied. -/
def inspectDenied (n : Nat) (e : ProcEntry) : Scan (Bool × Bool) := do
  let identity ← abcProcessIdentity n e.first
  let found ← Prog.handle (inspectAsAbc n e.process e.child) fun fault =>
    match fault with
    | .disappeared => do
      Prog.update fun seen => seen ++ [⟨n, .reported⟩]
      let _ ← abcProcessIdentity n e.second
      exclusionFails
    | fault => Prog.raise fault
  let again ← abcProcessIdentity n e.second
  if identity ≠ again then exclusionFails else pure found

/-- The body of the loop: nothing for an entry that is passed over. -/
def inspectEntry (n : Nat) (e : ProcEntry) : Scan (Option (Bool × Bool)) := do
  let opened ← Prog.handle
    (do
      attempt n e.opened
      pure true)
    (fun fault =>
      match fault with
      | .disappeared => pure false
      | .permission | .os => exclusionFails
      | fault => Prog.raise fault)
  if opened then
    closing e.closes
      (Prog.handle
        (do
          let found ← Prog.handle (inspectProcessFd n e.process e.direct) fun fault =>
            match fault with
            | .permission => inspectDenied n e
            | fault => Prog.raise fault
          pure (some found))
        (fun fault =>
          match fault with
          | .disappeared => pure none
          | .permission | .os => exclusionFails
          | fault => Prog.raise fault))
  else pure none

/-- The loop of `_processes`, from entry `n` on. -/
def processesFrom (n : Nat) (found : Bool × Bool) : List ProcEntry → Scan (Bool × Bool)
  | [] => pure found
  | e :: rest =>
    if e.isDecimal then do
      match ← inspectEntry n e with
      | some (unifi, keytool) => processesFrom (n + 1) (found.1 || unifi, found.2 || keytool) rest
      | none => processesFrom (n + 1) found rest
    else processesFrom (n + 1) found rest

/-- `_processes`. -/
def processes (entries : List ProcEntry) : Scan (Bool × Bool) := processesFrom 0 (false, false) entries

end CertRenewer.Processes
