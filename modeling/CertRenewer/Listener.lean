import CertRenewer.Concurrent.System

/-!
# The executor's socket

`_listener` and `serve_forever` of `unifi_executor_service.py`, call by call, in
any number of service processes at once. The directory is theirs alone: mode
0750 keeps the invoking group from writing in it. An inode number is free again
as soon as no name and no descriptor refers to it.
-/

namespace CertRenewer.Listener

open Concurrent

inductive FileKind where
  | directory
  | regular
  | socket
  | symlink
  | other
  deriving DecidableEq, Repr

/-- The `os.stat_result` fields the service reads. -/
structure Status where
  kind : FileKind
  mode : Nat
  uid : Nat
  gid : Nat
  nlink : Nat
  dev : Nat
  ino : Nat
  deriving DecidableEq, Repr

/-- The names in the socket directory. -/
inductive Entry where
  | lock
  | socket
  deriving DecidableEq, Repr

/-- A file; `outside` counts its links from other directories. -/
structure Node where
  kind : FileKind
  mode : Nat
  uid : Nat
  gid : Nat
  dev : Nat
  outside : Nat
  deriving DecidableEq, Repr

structure Endpoint where
  bound : Option Nat := none
  listening : Bool := false
  deriving DecidableEq, Repr

/-- The variables of `_listener` that its `finally` reads. -/
structure Locals where
  lock : Bool := false
  listener : Bool := false
  identity : Option (Nat × Nat) := none
  deriving DecidableEq, Repr

/-- A service process: its umask, the inode of its open lock descriptor, its
socket, and its variables. -/
structure Instance where
  umask : Nat
  lock : Option Nat := none
  socket : Option Endpoint := none
  locals : Locals := {}
  deriving DecidableEq, Repr

/-- `holder` is the process that has a file locked; `umask` is what processes
start with. -/
structure Machine where
  directory : Status
  umask : Nat
  node : Nat → Node
  entry : Entry → Option Nat
  holder : Nat → Option Nat
  instances : Nat → Instance

inductive Fault where
  | notFound
  | os
  | operation (message : String)
  | other
  deriving DecidableEq, Repr

inductive Call where
  | statDirectory
  | openDirectory
  | fstatDirectory
  | closeDirectory
  | stat (name : Entry)
  | create (mode : Nat)
  | fchown (uid gid : Nat)
  | fchmod (mode : Nat)
  | openLock
  | fstat
  | flock
  | close
  | unlink
  | socket
  | umask (mask : Nat)
  | bind
  | chown (uid gid : Nat)
  | chmod (mode : Nat)
  | listen
  | accept
  | serve
  | closeListener
  | locals
  | keepLock
  | keepListener
  | keepIdentity (dev ino : Nat)

abbrev Answer : Call → Type
  | .statDirectory | .fstatDirectory | .stat _ | .fstat => Status
  | .umask _ => Nat
  | .locals => Locals
  | _ => Unit

/-- Reading or setting a variable cannot fail. -/
def Call.isSystem : Call → Bool
  | .locals | .keepLock | .keepListener | .keepIdentity _ _ => false
  | _ => true

/-- `mode & ~umask`. -/
def masked (mode umask : Nat) : Nat := mode ^^^ (mode &&& umask)

namespace Machine

def linked (m : Machine) (name : Entry) (n : Nat) : Nat := if m.entry name = some n then 1 else 0

def status (m : Machine) (n : Nat) : Status :=
  let file := m.node n
  ⟨file.kind, file.mode, file.uid, file.gid, file.outside + m.linked .lock n + m.linked .socket n,
    file.dev, n⟩

def setInstance (m : Machine) (i : Nat) (v : Instance) : Machine :=
  { m with instances := Function.update m.instances i v }

def setNode (m : Machine) (n : Nat) (file : Node) : Machine :=
  { m with node := Function.update m.node n file }

def setEntry (m : Machine) (name : Entry) (n : Option Nat) : Machine :=
  { m with entry := Function.update m.entry name n }

def release (m : Machine) (i : Nat) : Machine :=
  { m with holder := fun k => if m.holder k = some i then none else m.holder k }

/-- No name and no descriptor refers to the inode. -/
def Unused (m : Machine) (n : Nat) : Prop :=
  (∀ name, m.entry name ≠ some n) ∧
    ∀ i, (m.instances i).lock ≠ some n ∧ ∀ e, (m.instances i).socket = some e → e.bound ≠ some n

/-- A call of process `i` that meets no trouble; `n` is the inode a new file
gets. -/
def perform (m : Machine) (i n : Nat) : (c : Call) → Except Fault (Answer c) × Machine
  | .statDirectory => (.ok m.directory, m)
  | .openDirectory => (if m.directory.kind = .directory then .ok () else .error .os, m)
  | .fstatDirectory => (.ok m.directory, m)
  | .closeDirectory => (.ok (), m)
  | .stat name =>
    match m.entry name with
    | some k => (.ok (m.status k), m)
    | none => (.error .notFound, m)
  | .create mode =>
    match m.entry .lock with
    | some _ => (.error .os, m)
    | none =>
      let v := m.instances i
      (.ok (), ((m.setNode n ⟨.regular, masked mode v.umask, 0, 0, m.directory.dev, 0⟩).setEntry
        .lock (some n)).setInstance i { v with lock := some n })
  | .fchown uid gid =>
    match (m.instances i).lock with
    | some k => (.ok (), m.setNode k { m.node k with uid := uid, gid := gid })
    | none => (.error .os, m)
  | .fchmod mode =>
    match (m.instances i).lock with
    | some k => (.ok (), m.setNode k { m.node k with mode := mode })
    | none => (.error .os, m)
  | .openLock =>
    match m.entry .lock with
    | some k =>
      -- O_NOFOLLOW refuses a symbolic link, O_RDWR a directory or a socket.
      if (m.node k).kind = .regular ∨ (m.node k).kind = .other then
        (.ok (), m.setInstance i { m.instances i with lock := some k })
      else (.error .os, m)
    | none => (.error .notFound, m)
  | .fstat =>
    match (m.instances i).lock with
    | some k => (.ok (m.status k), m)
    | none => (.error .os, m)
  | .flock =>
    match (m.instances i).lock with
    | some k =>
      match m.holder k with
      | none => (.ok (), { m with holder := Function.update m.holder k (some i) })
      | some j => (if j = i then .ok () else .error .os, m)
    | none => (.error .os, m)
  | .close => (.ok (), (m.release i).setInstance i { m.instances i with lock := none })
  | .unlink =>
    match m.entry .socket with
    | some _ => (.ok (), m.setEntry .socket none)
    | none => (.error .notFound, m)
  | .socket => (.ok (), m.setInstance i { m.instances i with socket := some {} })
  | .umask mask => (.ok (m.instances i).umask, m.setInstance i { m.instances i with umask := mask })
  | .bind =>
    match (m.instances i).socket, m.entry .socket with
    | some ⟨none, _⟩, none =>
      let v := m.instances i
      (.ok (), ((m.setNode n ⟨.socket, masked 0o777 v.umask, 0, 0, m.directory.dev, 0⟩).setEntry
        .socket (some n)).setInstance i { v with socket := some ⟨some n, false⟩ })
    | _, _ => (.error .os, m)
  | .chown uid gid =>
    match m.entry .socket with
    | some k => (.ok (), m.setNode k { m.node k with uid := uid, gid := gid })
    | none => (.error .notFound, m)
  | .chmod mode =>
    match m.entry .socket with
    | some k => (.ok (), m.setNode k { m.node k with mode := mode })
    | none => (.error .notFound, m)
  | .listen =>
    match (m.instances i).socket with
    | some ⟨some k, _⟩ =>
      (.ok (), m.setInstance i { m.instances i with socket := some ⟨some k, true⟩ })
    | _ => (.error .os, m)
  | .accept => (.ok (), m)
  | .serve => (.ok (), m)
  | .closeListener => (.ok (), m.setInstance i { m.instances i with socket := none })
  | .locals => (.ok (m.instances i).locals, m)
  | .keepLock =>
    let v := m.instances i
    (.ok (), m.setInstance i { v with locals := { v.locals with lock := true } })
  | .keepListener =>
    let v := m.instances i
    (.ok (), m.setInstance i { v with locals := { v.locals with listener := true } })
  | .keepIdentity dev ino =>
    let v := m.instances i
    (.ok (), m.setInstance i { v with locals := { v.locals with identity := some (dev, ino) } })

/-- The kernel closes the descriptors of a process that is gone. -/
def ends (m : Machine) (i : Nat) : Machine := (m.release i).setInstance i ⟨m.umask, none, none, {}⟩

end Machine

/-- Any system call can raise an `OSError` or be interrupted by something
else. -/
def platform : Platform Nat Call Answer Fault Machine where
  answers i c m r t := ∃ n, m.Unused n ∧ m.perform i n c = (r, t)
  trouble c e := c.isSystem = true ∧ (e = .os ∨ e = .other)
  ends i m := m.ends i
  environment _ _ := False

abbrev Program := Concurrent.Process Call Answer Fault

open Concurrent.Process hiding ask

abbrev ask (c : Call) : Program (Answer c) := Concurrent.Process.ask c

/-! ## The program -/

/-- `_validate_socket_directory`. -/
def validateSocketDirectory : Program Status := do
  let info ← ask .statDirectory
  guard (info.kind = .directory ∧ info.uid = 0 ∧ info.mode = 0o750)
    (.operation "unsafe executor socket directory")
  return info

/-- `os.stat`, with `FileNotFoundError` caught. -/
def find (name : Entry) : Program (Option Status) :=
  (do return some (← ask (.stat name))).handle fun
    | .notFound => return none
    | e => .raised e

/-- The `except FileNotFoundError` and the `else` branch of `_open_socket_lock`. -/
def openOrCreate : Option Status → Program Status
  | none => do
    ask (.create 0o600)
    (do
      ask (.fchown 0 0)
      ask (.fchmod 0o600)
      ask (.stat .lock)).handle fun e => do
        ask .close
        .raised e
  | some expected => do
    ask .openLock
    return expected

/-- `_open_socket_lock`. -/
def openSocketLock : Program Unit := do
  let found ← find .lock
  let expected ← openOrCreate found
  let actual ← ask .fstat
  if expected.kind ≠ .regular ∨ expected.mode ≠ 0o600 ∨
      (expected.uid, expected.gid, expected.nlink) ≠ (0, 0, 1) ∨
      (actual.dev, actual.ino) ≠ (expected.dev, expected.ino) then
    ask .close
    .raised (.operation "unsafe executor socket lock")

/-- A socket that `bind` under the controlled umask can have left. -/
def Status.bindable (s directory : Status) : Prop :=
  s.kind = .socket ∧ s.mode = 0o660 ∧ s.uid = 0 ∧ (s.gid = 0 ∨ s.gid = directory.gid) ∧
    s.nlink = 1 ∧ s.dev = directory.dev

instance (s directory : Status) : Decidable (s.bindable directory) :=
  inferInstanceAs (Decidable (_ ∧ _))

/-- `_remove_stale_socket`. -/
def removeStaleSocket (directory : Status) : Program Unit := do
  match ← find .socket with
  | none => return ()
  | some existing =>
    guard (existing.bindable directory) (.operation "unsafe existing executor socket")
    ask .unlink

/-- The `try` block of `_listener` before its `yield`. -/
def setUp (directory : Status) : Program Unit := do
  let first ← ask .fstatDirectory
  let second ← ask .fstatDirectory
  guard ((first.dev, second.ino) = (directory.dev, directory.ino))
    (.operation "executor socket directory changed")
  openSocketLock
  ask .keepLock
  ask .flock
  removeStaleSocket directory
  ask .socket
  ask .keepListener
  let previousUmask ← ask (.umask 0o117)
  (ask .bind).ensure (do let _ ← ask (.umask previousUmask))
  let created ← ask (.stat .socket)
  guard (created.bindable directory) (.operation "unsafe newly bound executor socket")
  ask (.keepIdentity created.dev created.ino)
  ask (.chown 0 directory.gid)
  ask (.chmod 0o660)
  let settled ← ask (.stat .socket)
  guard ((settled.dev, settled.ino) = (created.dev, created.ino) ∧ settled.kind = .socket ∧
      settled.mode = 0o660 ∧ (settled.uid, settled.gid, settled.nlink) = (0, directory.gid, 1))
    (.operation "executor socket changed during setup")
  ask .listen

/-- The `finally` block removes the socket only if it is still the one bound. -/
def removeOwnSocket : Option (Nat × Nat) → Program Unit
  | none => return ()
  | some identity =>
    (do
      let existing ← ask (.stat .socket)
      when ((existing.dev, existing.ino) = identity) (ask .unlink)).handle fun
        | .notFound => return ()
        | e => .raised e

/-- The `finally` block of `_listener`. -/
def cleanUp : Program Unit := do
  let v ← ask .locals
  when v.listener (ask .closeListener)
  removeOwnSocket v.identity
  when v.lock (ask .close)
  ask .closeDirectory

/-- `except (OSError, ValueError)`; an operation error is a `ValueError`. -/
def Fault.reported : Fault → Fault
  | .other => .other
  | _ => .operation "executor socket setup failed"

/-- `with _listener(): body`. -/
def listener (body : Program Unit) : Program Unit := do
  let directory ← validateSocketDirectory
  ask .openDirectory
  ((do
    setUp directory
    body).handle fun e => .raised e.reported).ensure cleanUp

/-- The loop of `serve_forever`. Only an exception ends it: after this many
clients, unless one of the calls raises before. -/
def serveClients : Nat → Program Unit
  | 0 => .raised .other
  | rounds + 1 => do
    ask .accept
    ask .serve
    serveClients rounds

def serveForever (rounds : Nat) : Program Unit := listener (serveClients rounds)

end CertRenewer.Listener
