import CertRenewer.Concurrent.Process
import CertRenewer.Listener
import CertRenewer.PosixPath

/-!
# Opening a secret

`open_secure_file` of `secure_file.py`, call by call, while others rename, relink and
change the files as they like. What was true at some moment is kept beside the state:
the names as each system call found them.
-/

namespace CertRenewer.SecureFile

open Concurrent
open Listener (FileKind)

abbrev Filename := PosixPath.Path

/-- A device and the number of an inode on it. -/
abbrev Inode := Nat × Nat

structure Node where
  kind : FileKind
  mode : Nat
  uid : Nat
  deriving DecidableEq, Repr

/-- The `os.stat_result` fields that are read. -/
structure Status where
  file : Node
  inode : Inode
  deriving DecidableEq, Repr

/-- `path` is what the trusted root names, `entry d` what the names in the
directory `d` name, and `target` where a symbolic link leads to in the end. -/
structure Names where
  path : Option Inode
  entry : Inode → Filename → Option Inode
  node : Inode → Node
  target : Inode → Option Inode

/-- `owned` says that a file object owns the descriptor `file`: it closes it when
nothing refers to the object. -/
structure Machine where
  names : Names
  root : Option Inode := none
  file : Option Inode := none
  owned : Bool := false
  moments : List Names := []

/-- `secure` is a `SecureFileError`, `runtime` a `RuntimeError`, `loop` an `OSError`
with `ELOOP`, and `other` no `Exception`. -/
inductive Fault where
  | os
  | loop
  | secure (text : String)
  | runtime (text : String)
  | other
  deriving DecidableEq, Repr

inductive Call where
  | lstatRoot
  | openRoot (nofollow : Bool)
  | fstatRoot
  | closeRoot
  | statAt (name : Filename)
  | openAt (name : Filename) (nofollow : Bool)
  | fstatFile
  | fdopen
  | closeFile

abbrev Answer : Call → Type
  | .lstatRoot | .fstatRoot | .statAt _ | .fstatFile => Status
  | _ => Unit

def Call.closes : Call → Bool
  | .closeRoot | .closeFile => true
  | _ => false

namespace Machine

def look (m : Machine) : Option Inode → Except Fault Status
  | some n => .ok ⟨m.names.node n, n⟩
  | none => .error .os

/-- What opening the name of `n` opens, or `ELOOP`. -/
def followed (m : Machine) (nofollow : Bool) (n : Inode) : Except Fault Inode :=
  if (m.names.node n).kind = .symlink then
    if nofollow then .error .loop
    else match m.names.target n with
      | some k => .ok k
      | none => .error .os
  else .ok n

/-- The directory or the file a name leads to, as it is opened. -/
def lead (m : Machine) (nofollow : Bool) : Option Inode → Except Fault Inode
  | some n => m.followed nofollow n
  | none => .error .os

/-- A call that meets no trouble. -/
def perform (m : Machine) : (c : Call) → Except Fault (Answer c) × Machine
  | .lstatRoot => (m.look m.names.path, m)
  | .openRoot nofollow =>
    match m.lead nofollow m.names.path with
    | .ok d =>
      -- O_DIRECTORY.
      if (m.names.node d).kind = .directory then (.ok (), { m with root := some d })
      else (.error .os, m)
    | .error e => (.error e, m)
  | .fstatRoot => (m.look m.root, m)
  | .closeRoot => (.ok (), { m with root := none })
  | .statAt name => (m.look (m.root.bind fun d => m.names.entry d name), m)
  | .openAt name nofollow =>
    match m.lead nofollow (m.root.bind fun d => m.names.entry d name) with
    | .ok n => (.ok (), { m with file := some n })
    | .error e => (.error e, m)
  | .fstatFile => (m.look m.file, m)
  | .fdopen => (.ok (), { m with owned := true })
  | .closeFile => (.ok (), { m with file := none })

/-- The moment of a system call is remembered. -/
def witnessed (m : Machine) : Machine := { m with moments := m.names :: m.moments }

/-- What others may do at any moment. The kind of an open file cannot change, and
its number is not given to another one. -/
structure Meddled (m t : Machine) : Prop where
  root : t.root = m.root
  file : t.file = m.file
  owned : t.owned = m.owned
  moments : t.moments = m.moments
  kind : ∀ n, m.root = some n ∨ m.file = some n → (t.names.node n).kind = (m.names.node n).kind

end Machine

/-- A call does what it should, or fails before it does anything; a descriptor is
closed also by a `close` that fails. -/
def Answers (c : Call) (m : Machine) (r : Except Fault (Answer c)) (t : Machine) : Prop :=
  (r, t) = m.witnessed.perform c ∨
    ∃ e, (e = .os ∨ e = .other) ∧ r = .error e ∧
      t = if c.closes then (m.witnessed.perform c).2 else m.witnessed

def platform : Platform Unit Call Answer Fault Machine where
  answers _ := Answers
  trouble _ _ := False
  ends _ m := m
  environment := Machine.Meddled

abbrev Program := Concurrent.Process Call Answer Fault

open Concurrent.Process hiding ask

abbrev ask (c : Call) : Program (Answer c) := Concurrent.Process.ask c

/-! ## The name -/

/-- What `_resolve_secure_path` returns: the trusted root, the path and the name in
the root. -/
structure Resolved where
  root : PosixPath.Path
  path : PosixPath.Path
  name : Filename
  deriving DecidableEq, Repr

def maxSecureFilenameChars : Nat := 255
def secureFileRoot : PosixPath.Path := "/run/secrets".toList

def filenameCharacter (c : Char) : Bool := c.isAlphanum || c == '.' || c == '_' || c == '-'

/-- `_SAFE_FILENAME_RE.fullmatch`. -/
def safeFilename : List Char → Bool
  | [] => false
  | first :: rest =>
    first.isAlphanum && rest.length ≤ maxSecureFilenameChars - 1 && rest.all filenameCharacter

def outside (sourceName : String) : Except Fault Resolved :=
  .error (.secure (sourceName ++ " filename is outside the trusted root"))

/-- `_resolve_secure_path`, for any root. -/
def resolveSecurePath (root : PosixPath.Path) (filename : Filename) (sourceName : String) :
    Except Fault Resolved :=
  if safeFilename filename = false ∨ filename = PosixPath.current ∨ filename = PosixPath.parent then
    .error (.secure (sourceName ++ " filename is invalid"))
  else
    let trustedRoot := PosixPath.normpath root
    if PosixPath.isabs trustedRoot = false then .error (.runtime "secure-file root must be absolute")
    else
      let resolvedPath := PosixPath.normpath (PosixPath.join trustedRoot filename)
      match PosixPath.commonpath trustedRoot resolvedPath with
      | none => outside sourceName
      | some containedRoot =>
        if containedRoot ≠ trustedRoot ∨ resolvedPath = trustedRoot then outside sourceName
        else .ok ⟨trustedRoot, resolvedPath, PosixPath.relpath resolvedPath trustedRoot⟩

theorem safe_proper {filename : Filename} (safe : safeFilename filename = true) :
    PosixPath.Proper filename := by
  cases filename with
  | nil => cases safe
  | cons first rest =>
    simp only [safeFilename, Bool.and_eq_true] at safe
    obtain ⟨⟨start, -⟩, rest'⟩ := safe
    have dotless : first ≠ '.' := by
      rintro rfl
      exact absurd start (by decide)
    refine ⟨List.cons_ne_nil first rest, ?_, ?_, ?_⟩
    · exact fun same => dotless (List.cons.inj same).1
    · exact fun same => dotless (List.cons.inj same).1
    · intro slash
      rcases List.mem_cons.1 slash with rfl | later
      · exact absurd start (by decide)
      · exact absurd (List.all_eq_true.1 rest' '/' later) (by decide)

theorem resolveSecurePath_refused {root : PosixPath.Path} {filename : Filename} {sourceName : String}
    (wrong : ¬safeFilename filename = true) :
    resolveSecurePath root filename sourceName =
      .error (.secure (sourceName ++ " filename is invalid")) :=
  if_pos (Or.inl (by simpa using wrong))

theorem resolveSecurePath_resolved {root : PosixPath.Path} {filename : Filename} {sourceName : String}
    {cs : List PosixPath.Path} (proper : ∀ c ∈ cs, PosixPath.Proper c)
    (normal : PosixPath.normpath root = PosixPath.through cs) (safe : safeFilename filename = true) :
    resolveSecurePath root filename sourceName =
      .ok ⟨PosixPath.through cs, PosixPath.through (cs ++ [filename]), filename⟩ := by
  have last := safe_proper safe
  have whole := PosixPath.proper_append proper last
  have valid : ¬(safeFilename filename = false ∨ filename = PosixPath.current ∨
      filename = PosixPath.parent) := by
    rintro (wrong | here | up)
    · rw [safe] at wrong
      cases wrong
    · exact last.current here
    · exact last.parent up
  have apart : PosixPath.through (cs ++ [filename]) ≠ PosixPath.through cs := by
    intro same
    have names := congrArg PosixPath.names same
    rw [PosixPath.names_through whole, PosixPath.names_through proper] at names
    have lengths := congrArg List.length names
    simp at lengths
  have isabs : PosixPath.isabs (PosixPath.through cs) = true := rfl
  unfold resolveSecurePath
  rw [if_neg valid]
  simp only [normal, isabs, PosixPath.join_through proper last, PosixPath.normpath_proper whole,
    PosixPath.commonpath_through whole, PosixPath.relpath_through (List.cons_ne_nil filename []) whole]
  simp [apart, PosixPath.joinNames]

/-- Exactly the safe names resolve, each to a file right in the root that is
trusted and to nothing else: no name gets as far as being outside of it. -/
theorem safe_names_stay_in_root {root : PosixPath.Path} (absolute : PosixPath.initialSlashes root = 1)
    (filename : Filename) (sourceName : String) :
    ∃ cs, (∀ c ∈ cs, PosixPath.Proper c) ∧ PosixPath.normpath root = PosixPath.through cs ∧
      resolveSecurePath root filename sourceName =
        if safeFilename filename = true then
          .ok ⟨PosixPath.through cs, PosixPath.through (cs ++ [filename]), filename⟩
        else .error (.secure (sourceName ++ " filename is invalid")) := by
  obtain ⟨cs, proper, normal⟩ := PosixPath.normpath_through absolute
  refine ⟨cs, proper, normal, ?_⟩
  by_cases safe : safeFilename filename = true
  · rw [if_pos safe]
    exact resolveSecurePath_resolved proper normal safe
  · rw [if_neg safe]
    exact resolveSecurePath_refused safe

theorem secrets_stay_in_root : ∃ cs, (∀ c ∈ cs, PosixPath.Proper c) ∧
    PosixPath.normpath secureFileRoot = PosixPath.through cs ∧
      resolveSecurePath secureFileRoot "api-key".toList "OPNsense API key" =
        if safeFilename "api-key".toList = true then
          .ok ⟨PosixPath.through cs, PosixPath.through (cs ++ ["api-key".toList]), "api-key".toList⟩
        else .error (.secure ("OPNsense API key" ++ " filename is invalid")) :=
  safe_names_stay_in_root (by decide +kernel) "api-key".toList "OPNsense API key"

/-! ## The program -/

/-- What the `os` module of the platform has. -/
structure Features where
  directoryOperations : Bool
  nofollow : Bool
  geteuid : Option Nat

/-- `except OSError`. -/
def Fault.isOs : Fault → Bool
  | .os | .loop => true
  | _ => false

def orRaise {α : Type} (m : Program α) (text : String) : Program α :=
  m.handle fun e => if e.isOs then .raised (.secure text) else .raised e

def refuse {α : Type} (sourceName condition : String) : Program α :=
  .raised (.secure (sourceName ++ " " ++ condition))

def insist (p : Prop) [Decidable p] (sourceName condition : String) : Program Unit :=
  guard p (.secure (sourceName ++ " " ++ condition))

def groupWrite : Nat := 0o020
def otherWrite : Nat := 0o002
def groupRead : Nat := 0o040
def otherRead : Nat := 0o004

/-- Without `os.geteuid` nobody is known to be an owner that can be trusted. -/
def checkOwner (unknown untrusted : String) (status : Status) : Option Nat → Program Unit
  | none => .raised (.secure unknown)
  | some effectiveUid =>
    guard (status.file.uid = 0 ∨ status.file.uid = effectiveUid) (.secure untrusted)

/-- `_check_trusted_root_metadata`. -/
def checkTrustedRootMetadata (f : Features) (status : Status) : Program Unit := do
  guard (status.file.kind = .directory) (.secure "secure-file root is not a trusted directory")
  checkOwner "secure-file root ownership cannot be validated" "secure-file root has an untrusted owner"
    status f.geteuid
  guard (status.file.mode &&& (groupWrite ||| otherWrite) = 0)
    (.secure "secure-file root has unsafe permissions")

/-- Without `O_NOFOLLOW` the root is looked at first. -/
def lookAtRoot (f : Features) : Program (Option Status) :=
  if f.nofollow then return none
  else do
    let before ← orRaise (ask .lstatRoot) "secure-file root could not be read"
    guard (before.file.kind ≠ .symlink) (.secure "secure-file root is not a trusted directory")
    return some before

def compareRoot (opened : Status) : Option Status → Program Unit
  | none => return ()
  | some before => do
    let after ← orRaise (ask .lstatRoot) "secure-file root changed while being opened"
    guard (after.file.kind ≠ .symlink ∧ after.inode = before.inode ∧ opened.inode = before.inode)
      (.secure "secure-file root changed while being opened")

def inspectRoot (f : Features) (before : Option Status) : Program Unit := do
  let opened ← orRaise (ask .fstatRoot) "secure-file root cannot be inspected safely"
  checkTrustedRootMetadata f opened
  compareRoot opened before

/-- `except BaseException: os.close(…); raise`. -/
def closing {α : Type} (c : Call) (m : Program α) : Program α :=
  m.handle fun e => do
    let _ ← ask c
    .raised e

/-- `_open_trusted_root`. -/
def openTrustedRoot (f : Features) : Program Unit := do
  guard (f.directoryOperations = true) (.runtime "secure-file directory operations are unavailable")
  let before ← lookAtRoot f
  orRaise (ask (.openRoot f.nofollow)) "secure-file root could not be read"
  closing .closeRoot (inspectRoot f before)

/-- `_check_opened_metadata`. -/
def checkOpenedMetadata (f : Features) (sourceName : String) (requirePrivate : Bool) (status : Status) :
    Program Unit := do
  insist (status.file.kind = .regular) sourceName "is not a regular file"
  checkOwner (sourceName ++ " ownership cannot be validated") (sourceName ++ " has an untrusted owner")
    status f.geteuid
  insist (status.file.mode &&& groupWrite = 0) sourceName "is group-writable"
  insist (status.file.mode &&& otherWrite = 0) sourceName "is world-writable"
  insist (¬(requirePrivate = true ∧ status.file.mode &&& groupRead ≠ 0)) sourceName "is group-readable"
  insist (¬(requirePrivate = true ∧ status.file.mode &&& otherRead ≠ 0)) sourceName "is world-readable"

/-- `_lstat_for_fallback`. -/
def lstatForFallback (name : Filename) (sourceName : String) : Program Status := do
  let status ← orRaise (ask (.statAt name)) (sourceName ++ " could not be read")
  insist (status.file.kind ≠ .symlink) sourceName "is a symbolic link"
  insist (status.file.kind = .regular) sourceName "is not a regular file"
  return status

/-- `_raise_classified_open_error`. -/
def raiseClassifiedOpenError (name : Filename) (sourceName : String) : Program Unit := do
  let status ← orRaise (ask (.statAt name)) (sourceName ++ " could not be read")
  insist (status.file.kind ≠ .symlink) sourceName "is a symbolic link"
  insist (status.file.kind = .regular) sourceName "is not a regular file"
  refuse sourceName "could not be read"

def lookAtFile (f : Features) (name : Filename) (sourceName : String) : Program (Option Status) :=
  if f.nofollow then return none
  else do
    let before ← lstatForFallback name sourceName
    return some before

def openFile (f : Features) (name : Filename) (sourceName : String) : Program Unit :=
  (ask (.openAt name f.nofollow)).handle fun e =>
    if e.isOs then
      if f.nofollow ∧ e = .loop then refuse sourceName "is a symbolic link"
      else raiseClassifiedOpenError name sourceName
    else .raised e

def compareFile (name : Filename) (sourceName : String) (opened : Status) : Option Status → Program Unit
  | none => return ()
  | some before => do
    let after ← orRaise (ask (.statAt name)) (sourceName ++ " changed while being opened")
    insist (after.file.kind ≠ .symlink ∧ after.inode = before.inode ∧ opened.inode = before.inode)
      sourceName "changed while being opened"

def inspectFile (f : Features) (name : Filename) (sourceName : String) (requirePrivate : Bool)
    (before : Option Status) : Program Unit := do
  let opened ← orRaise (ask .fstatFile) (sourceName ++ " cannot be inspected safely")
  checkOpenedMetadata f sourceName requirePrivate opened
  compareFile name sourceName opened before
  orRaise (ask .fdopen) (sourceName ++ " could not be read")

/-- What `open_secure_file` does once the root is open. -/
def openNamed (f : Features) (name : Filename) (sourceName : String) (requirePrivate : Bool) :
    Program Unit := do
  let before ← lookAtFile f name sourceName
  openFile f name sourceName
  closing .closeFile (inspectFile f name sourceName requirePrivate before)

def openInRoot (f : Features) (name : Filename) (sourceName : String) (requirePrivate : Bool) :
    Program Unit := do
  openTrustedRoot f
  (openNamed f name sourceName requirePrivate).ensure (ask .closeRoot)

/-- `open_secure_file`. -/
def openSecureFile (f : Features) (filename : Filename) (sourceName : String) (requirePrivate : Bool) :
    Program Unit :=
  match resolveSecurePath secureFileRoot filename sourceName with
  | .ok resolved => openInRoot f resolved.name sourceName requirePrivate
  | .error e => .raised e

/-! ## What is known at a moment -/

/-- It was so at some moment of the call. -/
def Once (P : Names → Prop) (m : Machine) : Prop := ∃ s ∈ m.moments, P s

/-- The descriptors that are open. -/
structure Holding (root file : Option Inode) (owned : Bool) (m : Machine) : Prop where
  root : m.root = root
  file : m.file = file
  owned : m.owned = owned

/-- What neither the others nor the passing of a system call can end. -/
structure Stable (H : Machine → Prop) : Prop where
  meddled : ∀ m t, m.Meddled t → H m → H t
  witnessed : ∀ m, H m → H m.witnessed

theorem stable_once (P : Names → Prop) : Stable (Once P) where
  meddled m t meddled h := by
    obtain ⟨s, there, holds⟩ := h
    exact ⟨s, meddled.moments.symm ▸ there, holds⟩
  witnessed m h := by
    obtain ⟨s, there, holds⟩ := h
    exact ⟨s, List.mem_cons_of_mem _ there, holds⟩

theorem stable_holding (root file : Option Inode) (owned : Bool) : Stable (Holding root file owned) where
  meddled _ _ meddled h :=
    ⟨meddled.root.trans h.root, meddled.file.trans h.file, meddled.owned.trans h.owned⟩
  witnessed _ h := ⟨h.root, h.file, h.owned⟩

theorem Stable.and {H H' : Machine → Prop} (first : Stable H) (second : Stable H') :
    Stable fun m => H m ∧ H' m where
  meddled m t meddled h := ⟨first.meddled m t meddled h.1, second.meddled m t meddled h.2⟩
  witnessed m h := ⟨first.witnessed m h.1, second.witnessed m h.2⟩

theorem Stable.given {H : Machine → Prop} (stable : Stable H) (p : Prop) : Stable fun m => p → H m where
  meddled m t meddled h holds := stable.meddled m t meddled (h holds)
  witnessed m h holds := stable.witnessed m (h holds)

theorem once_now {P : Names → Prop} {m : Machine} (now : P m.names) : Once P m.witnessed :=
  ⟨m.names, List.mem_cons_self, now⟩

abbrev contract : Contract Machine := ⟨fun _ => True, Machine.Meddled, fun _ _ => True⟩

section
variable {m t : Machine} {f : Features} {d n : Inode} {name : Filename} {sourceName : String}
  {requirePrivate : Bool}

/-- The rule for one call. -/
theorem asks {c : Call} {H : Machine → Prop} {Q : Answer c → Machine → Prop} {E : Fault → Machine → Prop}
    (stable : Stable H) (here : H m)
    (value : ∀ m a, H m → (m.witnessed.perform c).1 = .ok a → Q a (m.witnessed.perform c).2)
    (failure : ∀ m e, H m → (m.witnessed.perform c).1 = .error e → E e (m.witnessed.perform c).2)
    (trouble : ∀ m e, H m → E e (if c.closes then (m.witnessed.perform c).2 else m.witnessed)) :
    Upholds platform () contract Q E (ask c) m := by
  refine upholds_ask stable.meddled here (fun _ _ _ _ no => False.elim no) ?_
  rintro m r t known - (run | ⟨e, -, rfl, rfl⟩)
  · obtain ⟨rfl, rfl⟩ := Prod.mk.inj run
    exact ⟨trivial, fun a ok => value m a known ok, fun e bad => failure m e known bad,
      fun _ no => False.elim no⟩
  · refine ⟨trivial, fun _ no => (by cases no), fun e' bad => ?_, fun _ no => False.elim no⟩
    cases bad
    exact trouble m e known

/-- The rule for a call that only looks. -/
theorem looks {c : Call} {H : Machine → Prop} {Q : Answer c → Machine → Prop}
    (stable : Stable H) (here : H m) (still : ∀ m : Machine, (m.perform c).2 = m) (opens : c.closes = false)
    (value : ∀ m a, H m → (m.witnessed.perform c).1 = .ok a → Q a m.witnessed) :
    Upholds platform () contract Q (fun _ => H) (ask c) m := by
  refine asks stable here ?_ ?_ ?_
  · intro m a known ok
    rw [still]
    exact value m a known ok
  · intro m e known _
    rw [still]
    exact stable.witnessed m known
  · intro m e known
    rw [opens]
    exact stable.witnessed m known

theorem orRaise_upholds {α : Type} {p : Program α} {text : String} {Q : α → Machine → Prop}
    {H : Machine → Prop} (h : Upholds platform () contract Q (fun _ => H) p m) :
    Upholds platform () contract Q (fun _ => H) (orRaise p text) m := by
  refine upholds_handle.2 (h.mono (fun _ _ h => h) fun e t known => ?_)
  split <;> exact known

theorem look_ok {o : Option Inode} {s : Status} (ok : m.look o = .ok s) :
    o = some s.inode ∧ m.names.node s.inode = s.file := by
  cases o with
  | none => cases ok
  | some n =>
    cases ok
    exact ⟨rfl, rfl⟩

/-! ## The root -/

/-- The root is the directory itself, not a link to it. -/
def RootDirect (d : Inode) (s : Names) : Prop := s.path = some d ∧ (s.node d).kind ≠ .symlink

/-- Only root and the process itself can write the directory. -/
def RootTrusted (f : Features) (d : Inode) (s : Names) : Prop :=
  (s.node d).kind = .directory ∧ ((s.node d).uid = 0 ∨ f.geteuid = some (s.node d).uid) ∧
    (s.node d).mode &&& (groupWrite ||| otherWrite) = 0

theorem lstatRoot_upholds {H : Machine → Prop} (stable : Stable H) (h : H m) (text : String) :
    Upholds platform () contract
      (fun s t => H t ∧ (s.file.kind ≠ .symlink → Once (RootDirect s.inode) t)) (fun _ => H)
      (orRaise (ask .lstatRoot) text) m := by
  refine orRaise_upholds (looks stable h (fun _ => rfl) rfl ?_)
  intro m s h ok
  obtain ⟨path, node⟩ := look_ok ok
  refine ⟨stable.witnessed m h, fun direct => once_now ⟨path, ?_⟩⟩
  have node' : m.names.node s.inode = s.file := node
  rw [node']
  exact direct

theorem lookAtRoot_upholds {H : Machine → Prop} (stable : Stable H) (h : H m) :
    Upholds platform () contract (fun before t => H t ∧ (before = none → f.nofollow = true)) (fun _ => H)
      (lookAtRoot f) m := by
  unfold lookAtRoot
  split <;> rename_i nofollow
  · exact ⟨h, fun _ => nofollow⟩
  refine upholds_bind.2 ((lstatRoot_upholds stable h _).mono ?_ fun _ _ h => h)
  rintro s t ⟨h, -⟩
  exact upholds_bind.2 ((upholds_guard _ _).2 ⟨fun _ => ⟨h, fun no => (by cases no)⟩, fun _ => h⟩)

theorem lead_direct {o : Option Inode} {n : Inode} (ok : m.lead true o = .ok n) :
    o = some n ∧ (m.names.node n).kind ≠ .symlink := by
  cases o with
  | none => cases ok
  | some k =>
    simp only [Machine.lead, Machine.followed] at ok
    split at ok <;> rename_i link
    · cases ok
    · cases ok
      exact ⟨rfl, link⟩

theorem openRoot_upholds (h : Holding none none false m) (text : String) :
    Upholds platform () contract
      (fun _ t => ∃ d, Holding (some d) none false t ∧ (f.nofollow = true → Once (RootDirect d) t))
      (fun _ => Holding none none false) (orRaise (ask (.openRoot f.nofollow)) text) m := by
  refine orRaise_upholds (asks (stable_holding _ _ _) h ?_ ?_
    fun _ _ h => ⟨h.root, h.file, h.owned⟩)
  · intro m a h ok
    simp only [Machine.perform] at ok ⊢
    cases led : m.witnessed.lead f.nofollow m.witnessed.names.path with
    | error e =>
      rw [led] at ok
      cases ok
    | ok d =>
      simp only [led] at ok ⊢
      split at ok <;> rename_i kind
      · rw [if_pos kind]
        refine ⟨d, ⟨rfl, h.file, h.owned⟩, fun nofollow => ?_⟩
        rw [nofollow] at led
        have direct := lead_direct led
        exact ⟨m.names, List.mem_cons_self, direct⟩
      · cases ok
  · intro m e h bad
    simp only [Machine.perform] at bad ⊢
    cases led : m.witnessed.lead f.nofollow m.witnessed.names.path with
    | error e => exact ⟨h.root, h.file, h.owned⟩
    | ok d =>
      simp only [led] at bad ⊢
      split at bad <;> rename_i kind
      · cases bad
      · rw [if_neg kind]
        exact ⟨h.root, h.file, h.owned⟩

theorem checkOwner_upholds {unknown untrusted : String} {status : Status} {Q : Unit → Machine → Prop}
    {H : Machine → Prop} (h : H m)
    (next : status.file.uid = 0 ∨ f.geteuid = some status.file.uid → Q () m) :
    Upholds platform () contract Q (fun _ => H) (checkOwner unknown untrusted status f.geteuid) m := by
  cases euid : f.geteuid with
  | none => exact h
  | some effectiveUid =>
    refine (upholds_guard _ _).2 ⟨fun owner => next ?_, fun _ => h⟩
    exact owner.imp_right fun same => by rw [euid, same]

theorem checkTrustedRootMetadata_upholds {status : Status} {H : Machine → Prop} (h : H m)
    (node : Once (fun s => s.node d = status.file) m) :
    Upholds platform () contract (fun _ t => H t ∧ Once (RootTrusted f d) t) (fun _ => H)
      (checkTrustedRootMetadata f status) m := by
  refine upholds_bind.2 ((upholds_guard _ _).2 ⟨fun directory => ?_, fun _ => h⟩)
  refine upholds_bind.2 (checkOwner_upholds h fun owner => ?_)
  refine (upholds_guard _ _).2 ⟨fun unwritable => ⟨h, ?_⟩, fun _ => h⟩
  obtain ⟨s, there, same⟩ := node
  refine ⟨s, there, ?_⟩
  unfold RootTrusted
  rw [same]
  exact ⟨directory, owner, unwritable⟩

theorem compareRoot_upholds {before : Option Status} {opened : Status} {H : Machine → Prop}
    (stable : Stable H) (h : H m) (direct : f.nofollow = true → Once (RootDirect opened.inode) m)
    (looked : before = none → f.nofollow = true) :
    Upholds platform () contract (fun _ t => H t ∧ Once (RootDirect opened.inode) t) (fun _ => H)
      (compareRoot opened before) m := by
  cases before with
  | none => exact ⟨h, direct (looked rfl)⟩
  | some before =>
    refine upholds_bind.2 ((lstatRoot_upholds stable h _).mono ?_ fun _ _ h => h)
    rintro after m ⟨h, seen⟩
    refine (upholds_guard _ _).2 ⟨?_, fun _ => h⟩
    rintro ⟨kind, first, second⟩
    -- The directory that is open was found under the name after it was opened.
    rw [first, ← second] at seen
    exact ⟨h, seen kind⟩

theorem inspectRoot_upholds {before : Option Status} (h : Holding (some d) none false m)
    (direct : f.nofollow = true → Once (RootDirect d) m) (looked : before = none → f.nofollow = true) :
    Upholds platform () contract
      (fun _ t => Holding (some d) none false t ∧ Once (RootDirect d) t ∧ Once (RootTrusted f d) t)
      (fun _ => Holding (some d) none false) (inspectRoot f before) m := by
  have stable := stable_holding (some d) none false
  have known := stable.and ((stable_once (RootDirect d)).given (f.nofollow = true))
  refine upholds_bind.2 (Upholds.mono (orRaise_upholds (looks (c := .fstatRoot)
    (Q := fun opened t => opened.inode = d ∧ Once (fun s => s.node d = opened.file) t ∧
      Holding (some d) none false t ∧ (f.nofollow = true → Once (RootDirect d) t))
    known ⟨h, direct⟩ (fun _ => rfl) rfl ?_)) ?_ fun _ _ h => h.1)
  · rintro m opened ⟨h, direct⟩ ok
    obtain ⟨root, node⟩ := look_ok ok
    have same : opened.inode = d := Option.some.inj (root.symm.trans h.root)
    subst same
    exact ⟨rfl, once_now node, known.witnessed m ⟨h, direct⟩⟩
  rintro opened m ⟨rfl, node, h⟩
  refine upholds_bind.2 ((checkTrustedRootMetadata_upholds (H := fun m =>
    Holding (some opened.inode) none false m ∧ (f.nofollow = true → Once (RootDirect opened.inode) m))
    h node).mono ?_ fun _ _ h => h.1)
  rintro _ m ⟨⟨h, direct⟩, trusted⟩
  have checked := stable.and (stable_once (RootTrusted f opened.inode))
  refine (compareRoot_upholds checked ⟨h, trusted⟩ direct looked).mono ?_ fun _ _ h => h.1
  rintro _ m ⟨⟨h, trusted⟩, direct⟩
  exact ⟨h, direct, trusted⟩

/-- A descriptor is closed when what was done with it fails. -/
theorem closing_upholds {α : Type} {c : Call} {p : Program α} {Q : α → Machine → Prop}
    {H H' : Machine → Prop} (stable : Stable H) (closes : c.closes = true)
    (closed : ∀ m, H m → H' (m.witnessed.perform c).2)
    (h : Upholds platform () contract Q (fun _ => H) p m) :
    Upholds platform () contract Q (fun _ => H') (closing c p) m := by
  refine upholds_handle.2 (h.mono (fun _ _ h => h) fun e t known => ?_)
  refine upholds_bind.2 ((asks (Q := fun _ => H') (E := fun _ => H') stable known
    (fun m _ h _ => closed m h) (fun m _ h _ => closed m h) ?_).mono (fun _ _ h => h) fun _ _ h => h)
  intro m e h
  rw [if_pos closes]
  exact closed m h

theorem openTrustedRoot_upholds (h : Holding none none false m) :
    Upholds platform () contract
      (fun _ t => ∃ d, Holding (some d) none false t ∧ Once (RootDirect d) t ∧ Once (RootTrusted f d) t)
      (fun _ => Holding none none false) (openTrustedRoot f) m := by
  refine upholds_bind.2 ((upholds_guard _ _).2 ⟨fun _ => ?_, fun _ => h⟩)
  refine upholds_bind.2 ((lookAtRoot_upholds (stable_holding _ _ _) h).mono ?_ fun _ _ h => h)
  rintro before m ⟨h, looked⟩
  refine upholds_bind.2 ((openRoot_upholds h _).mono ?_ fun _ _ h => h)
  rintro _ m ⟨d, h, direct⟩
  refine closing_upholds (stable_holding (some d) none false) rfl
    (fun m h => ⟨rfl, h.file, h.owned⟩) ?_
  exact (inspectRoot_upholds h direct looked).mono (fun _ _ h => ⟨d, h⟩) fun _ _ h => h

/-! ## The file -/

/-- The name in the directory is the file itself, not a link to it. -/
def FileDirect (d : Inode) (name : Filename) (n : Inode) (s : Names) : Prop :=
  s.entry d name = some n ∧ (s.node n).kind ≠ .symlink

/-- Only root and the process itself can write the file, and read it where it has
to be private. -/
def FileTrusted (f : Features) (requirePrivate : Bool) (n : Inode) (s : Names) : Prop :=
  (s.node n).kind = .regular ∧ ((s.node n).uid = 0 ∨ f.geteuid = some (s.node n).uid) ∧
    (s.node n).mode &&& groupWrite = 0 ∧ (s.node n).mode &&& otherWrite = 0 ∧
    (requirePrivate = true → (s.node n).mode &&& groupRead = 0 ∧ (s.node n).mode &&& otherRead = 0)

theorem statAt_upholds {H : Machine → Prop} (stable : Stable H) (root : ∀ m, H m → m.root = some d)
    (h : H m) (text : String) :
    Upholds platform () contract
      (fun s t => H t ∧ (s.file.kind ≠ .symlink → Once (FileDirect d name s.inode) t)) (fun _ => H)
      (orRaise (ask (.statAt name)) text) m := by
  refine orRaise_upholds (looks stable h (fun _ => rfl) rfl ?_)
  intro m s h ok
  obtain ⟨entry, node⟩ := look_ok ok
  refine ⟨stable.witnessed m h, fun direct => once_now ⟨?_, ?_⟩⟩
  · have root' : m.witnessed.root = some d := root m h
    rw [root'] at entry
    exact entry
  · have node' : m.names.node s.inode = s.file := node
    rw [node']
    exact direct

theorem insist_upholds {p : Prop} [Decidable p] {condition : String} {Q : Unit → Machine → Prop}
    {H : Machine → Prop} (h : H m) (next : p → Q () m) :
    Upholds platform () contract Q (fun _ => H) (insist p sourceName condition) m :=
  (upholds_guard _ _).2 ⟨next, fun _ => h⟩

theorem lookAtFile_upholds {H : Machine → Prop} (stable : Stable H) (root : ∀ m, H m → m.root = some d)
    (h : H m) :
    Upholds platform () contract (fun before t => H t ∧ (before = none → f.nofollow = true)) (fun _ => H)
      (lookAtFile f name sourceName) m := by
  unfold lookAtFile
  split <;> rename_i nofollow
  · exact ⟨h, fun _ => nofollow⟩
  refine upholds_bind.2 (upholds_bind.2 ((statAt_upholds stable root h _).mono ?_ fun _ _ h => h))
  rintro s t ⟨h, -⟩
  refine upholds_bind.2 (insist_upholds h fun _ => ?_)
  exact upholds_bind.2 (insist_upholds h fun _ => ⟨h, fun no => by cases no⟩)

theorem raiseClassifiedOpenError_upholds {Q : Unit → Machine → Prop} {H : Machine → Prop}
    (stable : Stable H) (root : ∀ m, H m → m.root = some d) (h : H m) :
    Upholds platform () contract Q (fun _ => H) (raiseClassifiedOpenError name sourceName) m := by
  refine upholds_bind.2 ((statAt_upholds stable root h _).mono ?_ fun _ _ h => h)
  rintro s t ⟨h, -⟩
  refine upholds_bind.2 (insist_upholds h fun _ => ?_)
  exact upholds_bind.2 (insist_upholds h fun _ => h)

/-- What is known of the root once it is open. -/
structure Rooted (f : Features) (d : Inode) (m : Machine) : Prop where
  direct : Once (RootDirect d) m
  trusted : Once (RootTrusted f d) m

theorem stable_rooted (f : Features) (d : Inode) : Stable (Rooted f d) where
  meddled m t meddled h :=
    ⟨(stable_once _).meddled m t meddled h.direct, (stable_once _).meddled m t meddled h.trusted⟩
  witnessed m h := ⟨(stable_once _).witnessed m h.direct, (stable_once _).witnessed m h.trusted⟩

theorem openAt_upholds (h : Holding (some d) none false m ∧ Rooted f d m) :
    Upholds platform () contract
      (fun _ t => ∃ n, (Holding (some d) (some n) false t ∧ Rooted f d t) ∧
        (f.nofollow = true → Once (FileDirect d name n) t))
      (fun _ t => Holding (some d) none false t ∧ Rooted f d t) (ask (.openAt name f.nofollow)) m := by
  have stable := (stable_holding (some d) none false).and (stable_rooted f d)
  refine asks stable h ?_ ?_ fun m _ h => stable.witnessed m h
  · intro m a h ok
    have rooted := (stable_rooted f d).witnessed m h.2
    have root : m.witnessed.root = some d := h.1.root
    simp only [Machine.perform, root, Option.bind_some] at ok ⊢
    cases led : m.witnessed.lead f.nofollow (m.witnessed.names.entry d name) with
    | error e =>
      rw [led] at ok
      cases ok
    | ok n =>
      refine ⟨n, ⟨⟨rfl, rfl, h.1.owned⟩, rooted.direct, rooted.trusted⟩, fun nofollow => ?_⟩
      rw [nofollow] at led
      exact ⟨m.names, List.mem_cons_self, lead_direct led⟩
  · intro m e h bad
    have root : m.witnessed.root = some d := h.1.root
    simp only [Machine.perform, root, Option.bind_some] at bad ⊢
    cases led : m.witnessed.lead f.nofollow (m.witnessed.names.entry d name) with
    | error e => exact stable.witnessed m h
    | ok n =>
      rw [led] at bad
      cases bad

theorem openFile_upholds (h : Holding (some d) none false m ∧ Rooted f d m) :
    Upholds platform () contract
      (fun _ t => ∃ n, (Holding (some d) (some n) false t ∧ Rooted f d t) ∧
        (f.nofollow = true → Once (FileDirect d name n) t))
      (fun _ t => Holding (some d) none false t ∧ Rooted f d t) (openFile f name sourceName) m := by
  refine upholds_handle.2 ((openAt_upholds h).mono (fun _ _ h => h) fun e t h => ?_)
  by_cases os : e.isOs = true
  · simp only [os, if_true]
    split
    · exact h
    · exact raiseClassifiedOpenError_upholds ((stable_holding _ _ _).and (stable_rooted f d))
        (fun _ h => h.1.root) h
  · simp only [os]
    exact h

theorem checkOpenedMetadata_upholds {status : Status} {H : Machine → Prop} (h : H m)
    (node : Once (fun s => s.node n = status.file) m) :
    Upholds platform () contract
      (fun _ t => (H t ∧ status.file.kind = .regular) ∧ Once (FileTrusted f requirePrivate n) t)
      (fun _ => H) (checkOpenedMetadata f sourceName requirePrivate status) m := by
  refine upholds_bind.2 (insist_upholds h fun regular => ?_)
  refine upholds_bind.2 (checkOwner_upholds h fun owner => ?_)
  refine upholds_bind.2 (insist_upholds h fun group => ?_)
  refine upholds_bind.2 (insist_upholds h fun other => ?_)
  refine upholds_bind.2 (insist_upholds h fun groupPrivate => ?_)
  refine insist_upholds h fun otherPrivate => ⟨⟨h, regular⟩, ?_⟩
  obtain ⟨s, there, same⟩ := node
  refine ⟨s, there, ?_⟩
  unfold FileTrusted
  rw [same]
  refine ⟨regular, owner, group, other, fun secret => ⟨?_, ?_⟩⟩
  · by_contra readable
    exact groupPrivate ⟨secret, readable⟩
  · by_contra readable
    exact otherPrivate ⟨secret, readable⟩

theorem compareFile_upholds {before : Option Status} {opened : Status} {H : Machine → Prop}
    (stable : Stable H) (root : ∀ m, H m → m.root = some d) (h : H m)
    (direct : f.nofollow = true → Once (FileDirect d name opened.inode) m)
    (looked : before = none → f.nofollow = true) :
    Upholds platform () contract (fun _ t => H t ∧ Once (FileDirect d name opened.inode) t) (fun _ => H)
      (compareFile name sourceName opened before) m := by
  cases before with
  | none => exact ⟨h, direct (looked rfl)⟩
  | some before =>
    refine upholds_bind.2 ((statAt_upholds stable root h _).mono ?_ fun _ _ h => h)
    rintro after m ⟨h, seen⟩
    refine insist_upholds h ?_
    rintro ⟨kind, first, second⟩
    rw [first, ← second] at seen
    exact ⟨h, seen kind⟩

/-- The open file is of this kind now. -/
def OpenKind (n : Inode) (kind : FileKind) (m : Machine) : Prop :=
  m.file = some n ∧ (m.names.node n).kind = kind

theorem stable_openKind (n : Inode) (kind : FileKind) : Stable (OpenKind n kind) where
  meddled _ _ meddled h :=
    ⟨meddled.file.trans h.1, (meddled.kind n (Or.inr h.1)).trans h.2⟩
  witnessed _ h := h

/-- What makes a file one that can be used. -/
structure Trusted (f : Features) (name : Filename) (requirePrivate : Bool) (d n : Inode) (m : Machine) :
    Prop where
  rooted : Rooted f d m
  direct : Once (FileDirect d name n) m
  trusted : Once (FileTrusted f requirePrivate n) m
  regular : OpenKind n .regular m

theorem stable_trusted (f : Features) (name : Filename) (requirePrivate : Bool) (d n : Inode) :
    Stable (Trusted f name requirePrivate d n) where
  meddled m t meddled h :=
    ⟨(stable_rooted f d).meddled m t meddled h.rooted, (stable_once _).meddled m t meddled h.direct,
      (stable_once _).meddled m t meddled h.trusted, (stable_openKind n _).meddled m t meddled h.regular⟩
  witnessed m h :=
    ⟨(stable_rooted f d).witnessed m h.rooted, (stable_once _).witnessed m h.direct,
      (stable_once _).witnessed m h.trusted, h.regular⟩

/-- Only the names, the file and what is remembered of them matter. -/
theorem Trusted.carried (h : Trusted f name requirePrivate d n m) (names : t.names = m.names)
    (file : t.file = m.file) (moments : t.moments = m.moments) :
    Trusted f name requirePrivate d n t := by
  obtain ⟨⟨direct, trusted⟩, found, guarded, regular⟩ := h
  unfold Once at direct trusted found guarded
  rw [← moments] at direct trusted found guarded
  exact ⟨⟨direct, trusted⟩, found, guarded, file.trans regular.1, names ▸ regular.2⟩

theorem fdopen_upholds (h : Holding (some d) (some n) false m ∧ Trusted f name requirePrivate d n m)
    (text : String) :
    Upholds platform () contract
      (fun _ t => Holding (some d) (some n) true t ∧ Trusted f name requirePrivate d n t)
      (fun _ => Holding (some d) (some n) false) (orRaise (ask .fdopen) text) m := by
  have stable := (stable_holding (some d) (some n) false).and (stable_trusted f name requirePrivate d n)
  refine orRaise_upholds (asks stable h ?_ ?_ fun m _ h => (stable.witnessed m h).1)
  · rintro m a ⟨h, trusted⟩ -
    have now := (stable_trusted f name requirePrivate d n).witnessed m trusted
    exact ⟨⟨h.root, h.file, rfl⟩, now.carried rfl rfl rfl⟩
  · rintro m e - no
    cases no

theorem inspectFile_upholds {before : Option Status}
    (h : Holding (some d) (some n) false m ∧ Rooted f d m)
    (direct : f.nofollow = true → Once (FileDirect d name n) m)
    (looked : before = none → f.nofollow = true) :
    Upholds platform () contract
      (fun _ t => Holding (some d) (some n) true t ∧ Trusted f name requirePrivate d n t)
      (fun _ => Holding (some d) (some n) false)
      (inspectFile f name sourceName requirePrivate before) m := by
  have stable := (stable_holding (some d) (some n) false).and (stable_rooted f d)
  have known := stable.and ((stable_once (FileDirect d name n)).given (f.nofollow = true))
  refine upholds_bind.2 (Upholds.mono (orRaise_upholds (looks (c := .fstatFile)
    (Q := fun opened t => opened.inode = n ∧ Once (fun s => s.node n = opened.file) t ∧
      OpenKind n opened.file.kind t ∧ (Holding (some d) (some n) false t ∧ Rooted f d t) ∧
        (f.nofollow = true → Once (FileDirect d name n) t))
    known ⟨h, direct⟩ (fun _ => rfl) rfl ?_)) ?_ fun _ _ h => h.1.1)
  · intro m opened h ok
    obtain ⟨file, node⟩ := look_ok ok
    have same : opened.inode = n := Option.some.inj (file.symm.trans h.1.1.file)
    subst same
    exact ⟨rfl, once_now node, ⟨h.1.1.file, congrArg Node.kind node⟩, known.witnessed m h⟩
  rintro opened m ⟨rfl, node, kind, h⟩
  refine upholds_bind.2 (Upholds.mono (checkOpenedMetadata_upholds (H := fun m =>
    OpenKind opened.inode opened.file.kind m ∧
      (Holding (some d) (some opened.inode) false m ∧ Rooted f d m) ∧
        (f.nofollow = true → Once (FileDirect d name opened.inode) m)) ⟨kind, h⟩ node) ?_
    fun _ _ h => h.2.1.1)
  rintro _ m ⟨⟨⟨kind, h, direct⟩, regular⟩, trusted⟩
  rw [regular] at kind
  have checked := stable.and ((stable_once (FileTrusted f requirePrivate opened.inode)).and
    (stable_openKind opened.inode .regular))
  refine upholds_bind.2 ((compareFile_upholds checked (fun _ h => h.1.1.root) ⟨h, trusted, kind⟩
    direct looked).mono ?_ fun _ _ h => h.1.1)
  rintro _ m ⟨⟨⟨h, rooted⟩, trusted, kind⟩, direct⟩
  exact fdopen_upholds ⟨h, rooted, direct, trusted, kind⟩ _

theorem openInRoot_upholds (closed : Holding none none false m) :
    Upholds platform () contract
      (fun _ t => ∃ d n, Holding none (some n) true t ∧ Trusted f name requirePrivate d n t)
      (fun _ t => t.root = none ∧ (t.file = none ∨ t.owned = true))
      (openInRoot f name sourceName requirePrivate) m := by
  refine upholds_bind.2 ((openTrustedRoot_upholds closed).mono ?_ fun _ _ h => ⟨h.root, Or.inl h.file⟩)
  rintro _ m ⟨d, h, direct, trusted⟩
  have rooted : Rooted f d m := ⟨direct, trusted⟩
  have stable := (stable_holding (some d) none false).and (stable_rooted f d)
  refine upholds_ensure.2 (Upholds.mono
    (Q := fun _ t => ∃ n, Holding (some d) (some n) true t ∧ Trusted f name requirePrivate d n t)
    (E := fun _ => Holding (some d) none false) ?_ ?_ ?_)
  · refine upholds_bind.2 ((lookAtFile_upholds stable (fun _ h => h.1.root) ⟨h, rooted⟩).mono ?_
      fun _ _ h => h.1)
    rintro before m ⟨h, looked⟩
    refine upholds_bind.2 ((openFile_upholds h).mono ?_ fun _ _ h => h.1)
    rintro _ m ⟨n, h, direct⟩
    refine closing_upholds (stable_holding (some d) (some n) false) rfl
      (fun m h => ⟨h.root, rfl, h.owned⟩) ?_
    exact (inspectFile_upholds h direct looked).mono (fun _ _ h => ⟨n, h⟩) fun _ _ h => h
  · rintro _ m ⟨n, h, trusted⟩
    have both := (stable_holding (some d) (some n) true).and (stable_trusted f name requirePrivate d n)
    refine asks both ⟨h, trusted⟩ ?_ ?_ ?_
    · rintro m a ⟨h, trusted⟩ -
      have now := (stable_trusted f name requirePrivate d n).witnessed m trusted
      exact ⟨d, n, ⟨rfl, h.file, h.owned⟩, now.carried rfl rfl rfl⟩
    · rintro m e - no
      cases no
    · rintro m e ⟨h, -⟩
      exact ⟨rfl, Or.inr h.owned⟩
  · intro e m h
    refine asks (stable_holding (some d) none false) h ?_ ?_ ?_
    · rintro m a h -
      exact ⟨rfl, Or.inl h.file⟩
    · rintro m e - no
      cases no
    · rintro m e h
      exact ⟨rfl, Or.inl h.file⟩

end

/-- Whatever others do to the files meanwhile, on a platform with `O_NOFOLLOW` or
without it: a file that is opened is a regular file, found under the very name that
was asked for in the very directory the root names, and neither the file nor the
directory was writable by anybody untrusted when it was looked at. On every other
way out nothing stays open. -/
theorem opened_file_is_trusted (f : Features) (filename : Filename) (sourceName : String)
    (requirePrivate : Bool) {m : Machine} (closed : Holding none none false m) :
    Upholds platform () contract
      (fun _ t => safeFilename filename = true ∧
        ∃ d n, Holding none (some n) true t ∧ Trusted f filename requirePrivate d n t)
      (fun _ t => t.root = none ∧ (t.file = none ∨ t.owned = true))
      (openSecureFile f filename sourceName requirePrivate) m := by
  unfold openSecureFile
  by_cases safe : safeFilename filename = true
  · obtain ⟨cs, proper, normal⟩ :=
      PosixPath.normpath_through (p := secureFileRoot) (by decide +kernel)
    rw [resolveSecurePath_resolved proper normal safe]
    exact (openInRoot_upholds closed).mono (fun _ _ h => ⟨safe, h⟩) fun _ _ h => h
  · rw [resolveSecurePath_refused safe]
    exact ⟨closed.root, Or.inl closed.file⟩

/-- A secrets directory with one file in it. -/
def Sample.names : Names where
  path := some (5, 1)
  entry _ name := if name = "api-key".toList then some (5, 2) else none
  node n := if n = (5, 1) then ⟨.directory, 0o755, 0⟩ else ⟨.regular, 0o400, 1000⟩
  target _ := none

theorem sample_opened_file :
    Upholds platform () contract
      (fun _ t => safeFilename "api-key".toList = true ∧ ∃ d n, Holding none (some n) true t ∧
        Trusted ⟨true, true, some 1000⟩ "api-key".toList true d n t)
      (fun _ t => t.root = none ∧ (t.file = none ∨ t.owned = true))
      (openSecureFile ⟨true, true, some 1000⟩ "api-key".toList "OPNsense API key" true) { names := Sample.names } :=
  opened_file_is_trusted ⟨true, true, some 1000⟩ "api-key".toList "OPNsense API key" true ⟨rfl, rfl, rfl⟩

end CertRenewer.SecureFile
