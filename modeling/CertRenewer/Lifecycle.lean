import CertRenewer.Listener
import CertRenewer.Worker

/-!
# The lifecycle lock

`_lifecycle_lock` and `run_one_shot` of `production_renewer.py`, call by call, in
any number of workers at once. The host provides the directory and the lock
file, and may replace either; a worker only opens and locks them.
-/

namespace CertRenewer.Lifecycle

open Concurrent
open Listener (FileKind)
open CertRenewer.Worker (Mode)

/-- A device and the number of an inode on it. -/
abbrev Inode := Nat × Nat

structure Node where
  kind : FileKind
  mode : Nat
  uid : Nat
  gid : Nat
  nlink : Nat
  size : Nat
  deriving DecidableEq, Repr

/-- The `os.stat_result` fields the worker reads. -/
structure Status where
  file : Node
  inode : Inode
  deriving DecidableEq, Repr

/-- The descriptors a worker has open, and whether its variables `directory`
and `lock` are set. -/
structure Descriptors where
  directory : Option Inode := none
  lock : Option Inode := none
  keptDirectory : Bool := false
  keptLock : Bool := false
  deriving DecidableEq, Repr

/-- A run's requests, to the executor and to OPNsense, in the mode it was
started in. -/
structure Request where
  mode : Mode
  number : Nat
  deriving DecidableEq, Repr

/-- `directory` is what `LIFECYCLE_DIRECTORY` names, `entry d` what `LIFECYCLE_LOCK`
names in the directory `d`, and `holder` the worker that has a file locked. -/
structure Machine where
  directory : Option Inode
  entry : Inode → Option Inode
  node : Inode → Node
  holder : Inode → Option Nat
  workers : Nat → Descriptors
  requests : List (Nat × Request)

inductive Fault where
  | wouldBlock
  | os
  | busy
  | run (message : String)
  | other
  deriving DecidableEq, Repr

inductive Call where
  | openDirectory
  | keepDirectory
  | fstatDirectory
  | openLock
  | keepLock
  | fstatLock
  | flock
  | statLock
  | statDirectory
  | locals
  | closeLock
  | closeDirectory
  | request (r : Request)

abbrev Answer : Call → Type
  | .fstatDirectory | .fstatLock | .statLock | .statDirectory => Status
  | .locals => Bool × Bool
  | .request _ => Nat
  | _ => Unit

/-- Reading or setting a variable cannot fail. -/
def Call.isSystem : Call → Bool
  | .keepDirectory | .keepLock | .locals => false
  | _ => true

namespace Machine

def status (m : Machine) (n : Inode) : Status := ⟨m.node n, n⟩

def setWorker (m : Machine) (i : Nat) (v : Descriptors) : Machine :=
  { m with workers := Function.update m.workers i v }

def release (m : Machine) (i : Nat) : Machine :=
  { m with holder := fun n => if m.holder n = some i then none else m.holder n }

/-- `os.fstat`. -/
def fstat (m : Machine) : Option Inode → Except Fault Status
  | some n => .ok (m.status n)
  | none => .error .os

/-- A call of worker `i` that meets no trouble; `a` is what a peer answers. -/
def perform (m : Machine) (i a : Nat) : (c : Call) → Except Fault (Answer c) × Machine
  | .openDirectory =>
    match m.directory with
    | some d =>
      -- O_DIRECTORY and O_NOFOLLOW.
      if (m.node d).kind = .directory then
        (.ok (), m.setWorker i { m.workers i with directory := some d })
      else (.error .os, m)
    | none => (.error .os, m)
  | .keepDirectory => (.ok (), m.setWorker i { m.workers i with keptDirectory := true })
  | .fstatDirectory => (m.fstat (m.workers i).directory, m)
  | .openLock =>
    match (m.workers i).directory.bind m.entry with
    | some n =>
      -- O_NOFOLLOW refuses a symbolic link, O_RDWR a directory or a socket.
      if (m.node n).kind = .regular ∨ (m.node n).kind = .other then
        (.ok (), m.setWorker i { m.workers i with lock := some n })
      else (.error .os, m)
    | none => (.error .os, m)
  | .keepLock => (.ok (), m.setWorker i { m.workers i with keptLock := true })
  | .fstatLock => (m.fstat (m.workers i).lock, m)
  | .flock =>
    match (m.workers i).lock with
    | some n =>
      match m.holder n with
      | none => (.ok (), { m with holder := Function.update m.holder n (some i) })
      | some j => (if j = i then .ok () else .error .wouldBlock, m)
    | none => (.error .os, m)
  | .statLock => (m.fstat ((m.workers i).directory.bind m.entry), m)
  | .statDirectory => (m.fstat m.directory, m)
  | .locals => (.ok ((m.workers i).keptLock, (m.workers i).keptDirectory), m)
  | .closeLock => (.ok (), (m.release i).setWorker i { m.workers i with lock := none })
  | .closeDirectory => (.ok (), m.setWorker i { m.workers i with directory := none })
  | .request r => (.ok a, { m with requests := m.requests ++ [(i, r)] })

/-- The kernel closes the descriptors of a worker that is gone. -/
def ends (m : Machine) (i : Nat) : Machine := (m.release i).setWorker i {}

/-- What the host may do at any moment: anything to the files, but it leaves in
place a lock that a worker holds. -/
structure Hosted (m t : Machine) : Prop where
  workers : t.workers = m.workers
  holder : t.holder = m.holder
  requests : t.requests = m.requests
  lock : ∀ d n, m.entry d = some n → m.holder n ≠ none → t.entry d = some n
  directory : ∀ d n, m.directory = some d → m.entry d = some n → m.holder n ≠ none →
    t.directory = some d

end Machine

/-- Any system call can raise an `OSError` or be interrupted by something else;
a request can fail in any way. -/
def platform : Platform Nat Call Answer Fault Machine where
  answers i c m r t := ∃ a, m.perform i a c = (r, t)
  trouble c e := c.isSystem = true ∧ (e = .os ∨ e = .other)
  ends i m := m.ends i
  environment := Machine.Hosted

abbrev Program := Concurrent.Process Call Answer Fault

open Concurrent.Process hiding ask

abbrev ask (c : Call) : Program (Answer c) := Concurrent.Process.ask c

/-! ## The program -/

def ownerUid : Nat := 0
def groupGid : Nat := 1000

def safeDirectory (info : Status) : Prop :=
  info.file.uid = ownerUid ∧ info.file.gid = groupGid ∧ info.file.mode = 0o750

def safeLock (info : Status) : Prop :=
  info.file.kind = .regular ∧ info.file.uid = ownerUid ∧ info.file.gid = groupGid ∧
    info.file.mode = 0o660 ∧ info.file.nlink = 1 ∧ info.file.size = 0

instance (info : Status) : Decidable (safeDirectory info) := inferInstanceAs (Decidable (_ ∧ _))
instance (info : Status) : Decidable (safeLock info) := inferInstanceAs (Decidable (_ ∧ _))

/-- The identity check is a chain of `or`: the second `fstat` is made only when
both identities agree. -/
def confirm (info file : Status) : Program Unit := do
  let path ← ask .statLock
  let current ← ask .statDirectory
  guard (file.inode = path.inode ∧ info.inode = current.inode) .os
  let again ← ask .fstatLock
  guard (again.file.nlink = 1) .os

def takeLock : Program Unit :=
  (ask .flock).handle fun
    | .wouldBlock => .raised .busy
    | e => .raised e

/-- The `try` block of `_lifecycle_lock`. -/
def acquire : Program Unit := do
  ask .openDirectory
  ask .keepDirectory
  let info ← ask .fstatDirectory
  guard (safeDirectory info) .os
  ask .openLock
  ask .keepLock
  let file ← ask .fstatLock
  guard (safeLock file) .os
  takeLock
  confirm info file

/-- `except _LifecycleBusy: raise`, then `except OSError`. -/
def Fault.reported : Fault → Fault
  | .wouldBlock | .os => .run "Renewer lifecycle lock unavailable"
  | e => e

/-- The `finally` block of `_lifecycle_lock`. -/
def leave : Program Unit := do
  let kept ← ask .locals
  when kept.1 (ask .closeLock)
  when kept.2 (ask .closeDirectory)

/-- `with _lifecycle_lock(): body`. The `except` clauses do not cover the body. -/
def lifecycleLock {α : Type} (body : Program α) : Program α :=
  (do
    acquire.handle fun e => .raised e.reported
    body).ensure leave

/-- The modes that change something. -/
def locks : Mode → Bool
  | .prepare | .install | .renew => true
  | _ => false

/-- What `run_one_shot` returns: the result of the run, or the busy report. -/
inductive Output where
  | ran (result : Nat)
  | busy (mode : Mode)
  deriving DecidableEq, Repr

/-- `run_one_shot`, around `_run_one_shot`. -/
def runOneShot (body : Mode → Program Output) (mode : Mode) : Program Output :=
  if locks mode then
    (lifecycleLock (body mode)).handle fun
      | .busy => return .busy mode
      | e => .raised e
  else body mode

/-- A run that makes no calls but requests, in its own mode. -/
def Requests {α : Type} (mode : Mode) : Program α → Prop
  | .returned _ => True
  | .raised e => e ≠ .busy
  | .call c next => (∃ n, c = .request ⟨mode, n⟩) ∧ ∀ r, Requests mode (next r)

/-! ## What a worker is told and what it does -/

namespace Machine

/-- Worker `i` has the lock that the names lead to. -/
def Holds (m : Machine) (i : Nat) : Prop :=
  ∃ d n, m.directory = some d ∧ m.entry d = some n ∧ m.holder n = some i

theorem Holds.unique {m : Machine} {i j : Nat} (first : m.Holds i) (second : m.Holds j) : i = j := by
  obtain ⟨d, n, directory, entry, held⟩ := first
  obtain ⟨d', n', directory', entry', held'⟩ := second
  rw [directory] at directory'
  cases directory'
  rw [entry] at entry'
  cases entry'
  rw [held] at held'
  exact Option.some.inj held'

end Machine

open Machine

/-- What can happen between two calls of worker `i`. -/
structure Seen (i : Nat) (m t : Machine) : Prop where
  own : t.workers i = m.workers i
  held : ∀ n, t.holder n = some i ↔ m.holder n = some i
  lock : ∀ d n, m.entry d = some n → m.holder n = some i → t.entry d = some n
  directory : ∀ d n, m.directory = some d → m.entry d = some n → m.holder n = some i →
    t.directory = some d

/-- What a call of worker `i` can do. -/
structure Within (i : Nat) (m t : Machine) : Prop where
  others : ∀ j, j ≠ i → t.workers j = m.workers j
  held : ∀ j, j ≠ i → ∀ n, t.holder n = some j ↔ m.holder n = some j
  entry : t.entry = m.entry
  directory : t.directory = m.directory
  requests : t.requests = m.requests ∨
    ∃ r, t.requests = m.requests ++ [(i, r)] ∧ (locks r.mode = true → m.Holds i)

section
variable {i j : Nat} {m t u : Machine} {d n : Inode}

theorem Seen.refl (i : Nat) (m : Machine) : Seen i m m :=
  ⟨rfl, fun _ => Iff.rfl, fun _ _ entry _ => entry, fun _ _ directory _ _ => directory⟩

theorem Seen.trans (first : Seen i m t) (second : Seen i t u) : Seen i m u where
  own := second.own.trans first.own
  held n := (second.held n).trans (first.held n)
  lock d n entry held := second.lock d n (first.lock d n entry held) ((first.held n).2 held)
  directory d n directory entry held := second.directory d n
    (first.directory d n directory entry held) (first.lock d n entry held) ((first.held n).2 held)

theorem Seen.holds (seen : Seen i m t) (holds : m.Holds i) : t.Holds i := by
  obtain ⟨d, n, directory, entry, held⟩ := holds
  exact ⟨d, n, seen.directory d n directory entry held, seen.lock d n entry held, (seen.held n).2 held⟩

theorem Within.refl (i : Nat) (m : Machine) : Within i m m :=
  ⟨fun _ _ => rfl, fun _ _ _ => Iff.rfl, rfl, rfl, Or.inl rfl⟩

theorem Within.seen (other : i ≠ j) (within : Within j m t) : Seen i m t where
  own := within.others i other
  held := within.held i other
  lock d n entry _ := by rw [within.entry]; exact entry
  directory d n directory _ _ := by rw [within.directory]; exact directory

theorem Machine.Hosted.seen (hosted : m.Hosted t) (i : Nat) : Seen i m t where
  own := by rw [hosted.workers]
  held n := by rw [hosted.holder]
  lock d n entry held := hosted.lock d n entry (by rw [held]; exact Option.some_ne_none i)
  directory d n directory entry held :=
    hosted.directory d n directory entry (by rw [held]; exact Option.some_ne_none i)

theorem setWorker_self (v : Descriptors) : (m.setWorker i v).workers i = v := by
  simp [setWorker]

theorem setWorker_other (v : Descriptors) (other : j ≠ i) :
    (m.setWorker i v).workers j = m.workers j := by
  simp [setWorker, other]

theorem within_setWorker (v : Descriptors) : Within i m (m.setWorker i v) where
  others _ other := setWorker_other v other
  held _ _ _ := Iff.rfl
  entry := rfl
  directory := rfl
  requests := Or.inl rfl

theorem release_held (other : j ≠ i) (n : Inode) :
    (m.release i).holder n = some j ↔ m.holder n = some j := by
  by_cases mine : m.holder n = some i
  · have no : some i ≠ some j := fun eq => other (Option.some.inj eq).symm
    simp [Machine.release, mine, no]
  · simp [Machine.release, mine]

theorem within_release (v : Descriptors) : Within i m ((m.release i).setWorker i v) where
  others _ other := setWorker_other v other
  held _ other n := release_held other n
  entry := rfl
  directory := rfl
  requests := Or.inl rfl

theorem within_flock (free : m.holder n = none) :
    Within i m { m with holder := Function.update m.holder n (some i) } where
  others _ _ := rfl
  held j other k := by
    by_cases same : k = n
    · subst same
      have no : some i ≠ some j := fun eq => other (Option.some.inj eq).symm
      simp [free, no]
    · simp [same]
  entry := rfl
  directory := rfl
  requests := Or.inl rfl

/-- Everything but a request is within bounds wherever it is made. -/
theorem within_perform (c : Call) (a : Nat) (plain : ∀ r, c ≠ .request r) :
    Within i m (m.perform i a c).2 := by
  cases c with
  | openDirectory =>
    simp only [perform]
    split
    · split
      · exact within_setWorker _
      · exact .refl i m
    · exact .refl i m
  | openLock =>
    simp only [perform]
    split
    · split
      · exact within_setWorker _
      · exact .refl i m
    · exact .refl i m
  | flock =>
    simp only [perform]
    split
    · split
      · exact within_flock (by assumption)
      · exact .refl i m
    · exact .refl i m
  | keepDirectory => exact within_setWorker _
  | keepLock => exact within_setWorker _
  | closeLock => exact within_release _
  | closeDirectory => exact within_setWorker _
  | request r => exact absurd rfl (plain r)
  | fstatDirectory => exact .refl i m
  | fstatLock => exact .refl i m
  | statLock => exact .refl i m
  | statDirectory => exact .refl i m
  | locals => exact .refl i m

/-! ## The program keeps to it -/

abbrev contract (i : Nat) : Contract Machine := ⟨fun _ => True, Seen i, Within i⟩

/-- The rule for a call that is no request. -/
theorem asks {c : Call} {H : Machine → Prop} {Q : Answer c → Machine → Prop}
    (plain : ∀ r, c ≠ .request r) (stable : ∀ m t, Seen i m t → H m → H t) (here : H m)
    (value : ∀ m a v, H m → (m.perform i a c).1 = .ok v → Q v (m.perform i a c).2) :
    Upholds platform i (contract i) Q (fun _ _ => True) (ask c) m := by
  refine upholds_ask stable here (fun _ _ _ _ _ => ⟨.refl i _, trivial⟩) ?_
  rintro m r t known - ⟨a, run⟩
  have within := within_perform (i := i) (m := m) c a plain
  have ends := value m a
  rw [run] at within ends
  exact ⟨within, fun v ok => ends v known ok, fun _ _ => trivial, fun _ _ => trivial⟩

/-- The rule for a call whose answer does not matter. -/
theorem passes {c : Call} (plain : ∀ r, c ≠ .request r) :
    Keeps platform i (contract i) (fun _ => True) (ask c) := fun _ _ =>
  asks (H := fun _ => True) plain (fun _ _ _ _ => trivial) trivial (fun _ _ _ _ _ => trivial)

/-- The rule for a call that only looks. -/
theorem looks {c : Call} {H : Machine → Prop} {Q : Answer c → Machine → Prop}
    (plain : ∀ r, c ≠ .request r) (still : ∀ (m : Machine) (a : Nat), (m.perform i a c).2 = m)
    (stable : ∀ m t, Seen i m t → H m → H t) (here : H m)
    (value : ∀ m a v, H m → (m.perform i a c).1 = .ok v → Q v m) :
    Upholds platform i (contract i) Q (fun _ _ => True) (ask c) m := by
  refine asks plain stable here ?_
  intro m a v known ok
  rw [still m a]
  exact value m a v known ok

theorem fstat_ok {s : Status} {o : Option Inode} (h : m.fstat o = .ok s) : o = some s.inode := by
  cases o with
  | none => cases h
  | some n => cases h; rfl

/-- The worker's descriptors are for `d` and `n`. -/
def Open (i : Nat) (d : Inode) (n : Option Inode) (m : Machine) : Prop :=
  (m.workers i).directory = some d ∧ (m.workers i).lock = n

theorem Open.seen {l : Option Inode} (seen : Seen i m t) (opened : Open i d l m) : Open i d l t := by
  unfold Open
  rw [seen.own]
  exact opened

/-- The worker has locked the file `n`, whatever the names lead to. -/
structure Locked (i : Nat) (d n : Inode) (m : Machine) : Prop where
  opened : Open i d (some n) m
  held : m.holder n = some i

theorem Locked.seen (seen : Seen i m t) (locked : Locked i d n m) : Locked i d n t :=
  ⟨locked.opened.seen seen, (seen.held n).2 locked.held⟩

theorem flock_upholds (opened : Open i d (some n) m) :
    Upholds platform i (contract i) (fun _ => Locked i d n) (fun _ _ => True) (ask .flock) m := by
  refine asks (fun _ no => by cases no) (fun _ _ seen h => h.seen seen) opened ?_
  intro m a v opened ok
  have lock := opened.2
  cases holder : m.holder n with
  | none =>
    simp only [perform, lock, holder]
    exact ⟨opened, by simp⟩
  | some j =>
    simp only [perform, lock, holder] at ok ⊢
    by_cases mine : j = i
    · subst mine
      exact ⟨opened, holder⟩
    · simp [mine] at ok

/-- Once the file is locked the names cannot be changed under it: what the two
checks saw is still so when both have passed. -/
theorem confirm_upholds {info file : Status} (locked : Locked i info.inode file.inode m) :
    Upholds platform i (contract i) (fun _ t => t.Holds i) (fun _ _ => True)
      (confirm info file) m := by
  refine upholds_bind.2 ((looks (c := .statLock) (Q := fun path m =>
    Locked i info.inode file.inode m ∧ (file.inode = path.inode → m.entry info.inode = some file.inode))
    (fun _ no => by cases no) (fun _ _ => rfl) (fun _ _ seen h => h.seen seen) locked ?_).mono ?_
    fun _ _ h => h)
  · intro m a path locked ok
    refine ⟨locked, fun same => ?_⟩
    have entry := fstat_ok ok
    rw [locked.opened.1] at entry
    rw [same]
    exact entry
  rintro path m ⟨locked, named⟩
  refine upholds_bind.2 ((looks (c := .statDirectory) (H := fun m =>
    Locked i info.inode file.inode m ∧ (file.inode = path.inode → m.entry info.inode = some file.inode))
    (Q := fun current m => Locked i info.inode file.inode m ∧
      (file.inode = path.inode ∧ info.inode = current.inode → m.Holds i))
    (fun _ no => by cases no) (fun _ _ => rfl) ?_ ⟨locked, named⟩ ?_).mono ?_ fun _ _ h => h)
  · rintro m t seen ⟨locked, named⟩
    exact ⟨locked.seen seen, fun same => seen.lock _ _ (named same) locked.held⟩
  · rintro m a current ⟨locked, named⟩ ok
    refine ⟨locked, ?_⟩
    rintro ⟨same, here⟩
    have directory := fstat_ok ok
    rw [← here] at directory
    exact ⟨_, _, directory, named same, locked.held⟩
  rintro current m ⟨-, holds⟩
  refine upholds_bind.2 ((upholds_guard _ _).2 ⟨fun same => ?_, fun _ => trivial⟩)
  refine upholds_bind.2 ((looks (c := .fstatLock) (Q := fun _ m => m.Holds i)
    (fun _ no => by cases no) (fun _ _ => rfl) (fun _ _ seen h => seen.holds h) (holds same)
    (fun _ _ _ h _ => h)).mono ?_ fun _ _ h => h)
  intro again m holds
  exact (upholds_guard _ _).2 ⟨fun _ => holds, fun _ => trivial⟩

theorem acquire_upholds :
    Upholds platform i (contract i) (fun _ t => t.Holds i) (fun _ _ => True) acquire m := by
  refine upholds_bind.2 ((asks (c := .openDirectory) (H := fun _ => True)
    (Q := fun _ m => ∃ d, (m.workers i).directory = some d) (fun _ no => by cases no)
    (fun _ _ _ _ => trivial) trivial ?_).mono ?_ fun _ _ h => h)
  · intro m a v _ ok
    simp only [perform] at ok ⊢
    split at ok <;> rename_i d named
    · split at ok <;> rename_i kind
      · simp only [if_pos kind, setWorker_self]
        exact ⟨d, rfl⟩
      · cases ok
    · cases ok
  rintro _ m ⟨d, opened⟩
  have stable (m t : Machine) (seen : Seen i m t) (h : (m.workers i).directory = some d) :
      (t.workers i).directory = some d := by rw [seen.own]; exact h
  refine upholds_bind.2 ((asks (c := .keepDirectory) (Q := fun _ m => (m.workers i).directory = some d)
    (fun _ no => by cases no) stable opened ?_).mono ?_ fun _ _ h => h)
  · intro m a v opened _
    simp only [perform, setWorker_self]
    exact opened
  intro _ m opened
  refine upholds_bind.2 ((looks (c := .fstatDirectory)
    (Q := fun info m => (m.workers i).directory = some info.inode)
    (fun _ no => by cases no) (fun _ _ => rfl) stable opened ?_).mono ?_ fun _ _ h => h)
  · intro m a info opened ok
    exact fstat_ok ok
  intro info m opened
  refine upholds_bind.2 ((upholds_guard _ _).2 ⟨fun _ => ?_, fun _ => trivial⟩)
  refine upholds_bind.2 ((asks (c := .openLock) (H := fun m => (m.workers i).directory = some info.inode)
    (Q := fun _ m => ∃ n, Open i info.inode (some n) m) (fun _ no => by cases no)
    (fun m t seen h => by rw [seen.own]; exact h) opened ?_).mono ?_ fun _ _ h => h)
  · intro m a v opened ok
    simp only [perform] at ok ⊢
    split at ok <;> rename_i n named
    · split at ok <;> rename_i kind
      · simp only [if_pos kind]
        refine ⟨n, ?_⟩
        simp only [Open, setWorker_self]
        exact ⟨opened, trivial⟩
      · cases ok
    · cases ok
  rintro _ m ⟨n, opened⟩
  refine upholds_bind.2 ((asks (c := .keepLock) (Q := fun _ => Open i info.inode (some n))
    (fun _ no => by cases no) (fun _ _ seen h => h.seen seen) opened ?_).mono ?_ fun _ _ h => h)
  · intro m a v opened _
    simp only [perform, Open, setWorker_self]
    exact opened
  intro _ m opened
  refine upholds_bind.2 ((looks (c := .fstatLock)
    (Q := fun file => Open i info.inode (some file.inode))
    (fun _ no => by cases no) (fun _ _ => rfl) (fun _ _ seen h => h.seen seen) opened ?_).mono ?_
    fun _ _ h => h)
  · intro m a file opened ok
    exact ⟨opened.1, fstat_ok ok⟩
  intro file m opened
  refine upholds_bind.2 ((upholds_guard _ _).2 ⟨fun _ => ?_, fun _ => trivial⟩)
  refine upholds_bind.2 (upholds_handle.2 ((flock_upholds opened).mono ?_ ?_))
  · intro _ m locked
    exact confirm_upholds locked
  · intro e m _
    cases e <;> exact trivial

theorem leave_upholds : Keeps platform i (contract i) (fun _ => True) leave := by
  refine (passes fun _ no => by cases no).bind fun kept => ?_
  refine (passes fun _ no => by cases no).when.bind fun _ => ?_
  exact (passes fun _ no => by cases no).when

/-- The requests of a run that holds the lock where its mode asks for it. -/
theorem requests_uphold {α : Type} {mode : Mode} {p : Program α} (runs : Requests mode p)
    (holds : locks mode = true → m.Holds i) :
    Upholds platform i (contract i) (fun _ _ => True) (fun _ _ => True) p m := by
  induction p generalizing m with
  | returned _ => exact trivial
  | raised _ => exact trivial
  | call c next ih =>
    obtain ⟨⟨n, rfl⟩, rest⟩ := runs
    intro s seen _ r t acts
    have still : locks mode = true → s.Holds i := fun locked => seen.holds (holds locked)
    have dispatched (a : Nat) : Within i s (s.perform i a (.request ⟨mode, n⟩)).2 :=
      ⟨fun _ _ => rfl, fun _ _ _ => Iff.rfl, rfl, rfl, Or.inr ⟨_, rfl, still⟩⟩
    have after (a : Nat) (locked : locks mode = true) :
        (s.perform i a (.request ⟨mode, n⟩)).2.Holds i := still locked
    rcases acts with ⟨a, run⟩ | ⟨e, -, -, rfl | ⟨r', a, run⟩⟩
    · have within := dispatched a
      have holds' := after a
      rw [run] at within holds'
      exact ⟨within, ih r (rest r) holds'⟩
    · exact ⟨.refl i _, ih r (rest r) still⟩
    · have within := dispatched a
      have holds' := after a
      rw [run] at within holds'
      exact ⟨within, ih r (rest r) holds'⟩

theorem lifecycleLock_upholds {α : Type} {mode : Mode} {p : Program α} (runs : Requests mode p) :
    Upholds platform i (contract i) (fun _ _ => True) (fun _ _ => True) (lifecycleLock p) m := by
  refine upholds_ensure.2 (Upholds.mono (Q := fun _ _ => True) (E := fun _ _ => True) ?_
    (fun _ m _ => leave_upholds m trivial) fun _ m _ => leave_upholds m trivial)
  refine upholds_bind.2 (upholds_handle.2 (acquire_upholds.mono ?_ fun _ _ _ => trivial))
  intro _ m holds
  exact requests_uphold runs fun _ => holds

theorem runOneShot_upholds {body : Mode → Program Output} (runs : ∀ mode, Requests mode (body mode))
    (mode : Mode) :
    Upholds platform i (contract i) (fun _ _ => True) (fun _ _ => True) (runOneShot body mode) m := by
  unfold runOneShot
  split
  · refine upholds_handle.2 ((lifecycleLock_upholds (runs mode)).mono (fun _ _ _ => trivial) ?_)
    intro e m _
    cases e <;> exact trivial
  · rename_i unlocked
    exact requests_uphold (runs mode) fun locked => absurd locked unlocked

end

/-! ## Every run -/

/-- A worker that is not there. -/
def Idle (i : Nat) (m : Machine) : Prop := m.workers i = {} ∧ ∀ n, m.holder n ≠ some i

def isWorker (body : Mode → Program Output) (p : Program Output) : Prop :=
  ∃ mode, p = runOneShot body mode

/-- No worker runs; the files are whatever they are. -/
def Fresh (m : Machine) : Prop := ∀ i, Idle i m

theorem compatible {body : Mode → Program Output} (runs : ∀ mode, Requests mode (body mode)) :
    Concurrent.Compatible platform (isWorker body) Fresh (fun _ => True) Seen Within Idle where
  initially _ fresh := ⟨trivial, fresh⟩
  refl := Seen.refl
  trans _ _ _ _ := Seen.trans
  others _ _ _ _ other _ := Within.seen other
  keeps _ _ _ _ _ := trivial
  environment _ _ _ hosted := ⟨trivial, Machine.Hosted.seen hosted⟩
  ends i m _ := by
    refine ⟨within_release {}, setWorker_self {}, ?_⟩
    intro n held
    by_cases mine : m.holder n = some i <;>
      simp [platform, Machine.ends, setWorker, Machine.release, mine] at held
  idle i m t seen idle := by
    refine ⟨seen.own.trans idle.1, fun n held => ?_⟩
    exact idle.2 n ((seen.held n).1 held)
  upholds i m p _ _ known := by
    obtain ⟨mode, rfl⟩ := known
    exact runOneShot_upholds runs mode

/-- Whatever waits to be sent in a locking mode is sent by a worker that has the
lock. -/
theorem request_holds {body : Mode → Program Output} (runs : ∀ mode, Requests mode (body mode))
    {w : System Nat Call Answer Fault Output Machine}
    (run : Reachable platform (isWorker body) Fresh w) {i : Nat} {r : Request}
    {next : Except Fault Nat → Program Output}
    (waits : w.process i = some (.call (.request r) next)) (locked : locks r.mode = true) :
    w.state.Holds i := by
  have upholds := ((compatible runs).reachable_sound run).upholds i _ waits
  obtain ⟨within, -⟩ := upholds w.state (Seen.refl i _) trivial _ _ (Or.inl ⟨0, rfl⟩)
  rcases within.requests with none | ⟨r', sent, holds⟩
  · simp at none
  · have same : (i, r) = (i, r') := by simpa [perform] using sent
    cases same
    exact holds locked

/-- A host with the lock provided. -/
def Sample.machine : Machine where
  directory := some (5, 1)
  entry _ := some (5, 2)
  node n :=
    if n = (5, 1) then ⟨.directory, 0o750, 0, 1000, 2, 4096⟩ else ⟨.regular, 0o660, 0, 1000, 1, 0⟩
  holder _ := none
  workers _ := {}
  requests := []

/-- A run that makes one request. -/
def Sample.body (mode : Mode) : Program Output :=
  (do
    let answer ← ask (.request ⟨mode, 0⟩)
    return Output.ran answer : Program Output).handle fun _ => .raised (.run "Renewer stopped")

theorem Sample.fresh : Fresh machine := fun _ => ⟨rfl, fun _ no => by cases no⟩

theorem Sample.requests (mode : Mode) : Requests mode (body mode) := by
  refine ⟨⟨0, rfl⟩, fun r => ?_⟩
  cases r with
  | ok a => exact trivial
  | error e => exact fun no => by cases no

/-- However many workers start, fail, are killed and start again, in whatever
order they take their steps, and wherever the host replaces files that nobody
holds: no two of them are at once among their signing and installation requests,
and the one that is has the lock that the names lead to. -/
theorem one_worker_at_a_time {body : Mode → Program Output}
    (runs : ∀ mode, Requests mode (body mode)) {w : System Nat Call Answer Fault Output Machine}
    (run : Reachable platform (isWorker body) Fresh w) {i j : Nat} {r r' : Request}
    {next next' : Except Fault Nat → Program Output}
    (first : w.process i = some (.call (.request r) next)) (locked : locks r.mode = true)
    (second : w.process j = some (.call (.request r') next')) (locked' : locks r'.mode = true) :
    i = j ∧ w.state.Holds i := by
  have holds := request_holds runs run first locked
  exact ⟨holds.unique (request_holds runs run second locked'), holds⟩

/-- The first worker of a host, inside the lock. -/
theorem sample_inside : ∃ w : System Nat Call Answer Fault Output Machine,
    Reachable platform (isWorker Sample.body) Fresh w ∧
      w.state = (follow (fun c m => m.perform 0 0 c) 10 (runOneShot Sample.body .renew) Sample.machine).2 ∧
      w.process = Function.update (fun _ => none) 0
        (some (follow (fun c m => m.perform 0 0 c) 10 (runOneShot Sample.body .renew) Sample.machine).1) := by
  have started : Reachable platform (isWorker Sample.body) Fresh _ :=
    (Reachable.initial Sample.machine Sample.fresh).next
      (.start _ 0 (runOneShot Sample.body .renew) rfl ⟨.renew, rfl⟩)
  have can (c : Call) (m : Machine) :
      platform.answers 0 c m (m.perform 0 0 c).1 (m.perform 0 0 c).2 := ⟨0, rfl⟩
  obtain ⟨w, run, state, process⟩ := started.follow 10 can rfl
  exact ⟨w, run, state, by simpa using process⟩

theorem sample_worker_at_a_time : ∃ (w : System Nat Call Answer Fault Output Machine)
    (next : Except Fault Nat → Program Output),
    Reachable platform (isWorker Sample.body) Fresh w ∧
      w.process 0 = some (.call (.request ⟨.renew, 0⟩) next) ∧ w.state.Holds 0 := by
  obtain ⟨w, run, -, process⟩ := sample_inside
  obtain ⟨next, waits⟩ : ∃ next, w.process 0 = some (.call (.request ⟨.renew, 0⟩) next) := by
    rw [process, Function.update_self]
    exact ⟨_, rfl⟩
  exact ⟨w, next, run, waits, (one_worker_at_a_time Sample.requests run waits rfl waits rfl).2⟩

/-! ## A run on its own -/

/-- What the host provides. -/
structure Machine.Provisioned (m : Machine) (d n : Inode) : Prop where
  directory : m.directory = some d
  kind : (m.node d).kind = .directory
  safe : safeDirectory (m.status d)
  entry : m.entry d = some n
  lock : safeLock (m.status n)

/-- Inside the lock. -/
def Machine.entered (m : Machine) (i : Nat) (d n : Inode) : Machine :=
  { m.setWorker i ⟨some d, some n, true, true⟩ with holder := Function.update m.holder n (some i) }

/-- After it: nothing is open or locked. -/
def Machine.left (m : Machine) (i : Nat) : Machine :=
  (m.release i).setWorker i ⟨none, none, true, true⟩

section
variable {i : Nat} {m t : Machine} {d n : Inode}

theorem alone_call {c : Call} {v : Answer c} {Q : Answer c → Machine → Prop} {E : Fault → Machine → Prop}
    (run : ∀ a, m.perform i a c = (.ok v, t)) (next : Q v t) : Alone platform i Q E (ask c) m := by
  refine alone_ask ⟨_, _, 0, rfl⟩ ?_ ?_
  · rintro v' t' ⟨a, run'⟩
    rw [run a] at run'
    cases run'
    exact next
  · rintro e t' ⟨a, run'⟩
    rw [run a] at run'
    cases run'

theorem alone_look {c : Call} {v : Answer c} {Q : Answer c → Machine → Prop} {E : Fault → Machine → Prop}
    (run : ∀ a, m.perform i a c = (.ok v, m)) (next : Q v m) : Alone platform i Q E (ask c) m :=
  alone_call run next

theorem setWorker_setWorker (v v' : Descriptors) :
    (m.setWorker i v).setWorker i v' = m.setWorker i v' := by
  simp [setWorker]

/-- Up to `flock` nothing stops a worker that starts. -/
theorem alone_acquire {Q : Unit → Machine → Prop} {E : Fault → Machine → Prop} (idle : m.workers i = {})
    (ready : m.Provisioned d n)
    (rest : Alone platform i Q E
      (do
        takeLock
        confirm (m.status d) (m.status n)) (m.setWorker i ⟨some d, some n, true, true⟩)) :
    Alone platform i Q E acquire m := by
  refine alone_bind.2 (alone_call (v := ()) (t := m.setWorker i { directory := some d }) ?_ ?_)
  · intro a
    simp only [perform, ready.directory, ready.kind, if_true, idle]
  refine alone_bind.2 (alone_call (v := ()) (t := m.setWorker i ⟨some d, none, true, false⟩) ?_ ?_)
  · intro a
    simp only [perform, setWorker_self, setWorker_setWorker]
  refine alone_bind.2 (alone_look (v := m.status d) ?_ ?_)
  · intro a
    simp only [perform, setWorker_self, Machine.fstat]
    rfl
  refine alone_bind.2 ((alone_guard _ _).2 ⟨fun _ => ?_, fun no => absurd ready.safe no⟩)
  refine alone_bind.2 (alone_call (v := ()) (t := m.setWorker i ⟨some d, some n, true, false⟩) ?_ ?_)
  · intro a
    have entry : (m.setWorker i ⟨some d, none, true, false⟩).entry d = some n := ready.entry
    have kind : ((m.setWorker i ⟨some d, none, true, false⟩).node n).kind = .regular := ready.lock.1
    simp only [perform, setWorker_self, Option.bind_some, entry, kind, true_or, if_true,
      setWorker_setWorker]
  refine alone_bind.2 (alone_call (v := ()) (t := m.setWorker i ⟨some d, some n, true, true⟩) ?_ ?_)
  · intro a
    simp only [perform, setWorker_self, setWorker_setWorker]
  refine alone_bind.2 (alone_look (v := m.status n) ?_ ?_)
  · intro a
    simp only [perform, setWorker_self, Machine.fstat]
    rfl
  exact alone_bind.2 ((alone_guard _ _).2 ⟨fun _ => rest, fun no => absurd ready.lock no⟩)

theorem alone_acquire_free {E : Fault → Machine → Prop} (idle : m.workers i = {})
    (ready : m.Provisioned d n) (free : m.holder n = none) :
    Alone platform i (fun _ t => t = m.entered i d n) E acquire m := by
  refine alone_acquire idle ready (alone_bind.2 (alone_handle.2 ?_))
  refine alone_call (v := ()) (t := m.entered i d n) ?_ ?_
  · intro a
    have free' : (m.setWorker i ⟨some d, some n, true, true⟩).holder n = none := free
    simp only [perform, setWorker_self, free']
    rfl
  have own : (m.entered i d n).workers i = ⟨some d, some n, true, true⟩ := setWorker_self _
  have entry : (m.entered i d n).entry d = some n := ready.entry
  have directory : (m.entered i d n).directory = some d := ready.directory
  refine alone_bind.2 (alone_look (v := m.status n) ?_ ?_)
  · intro a
    simp only [perform, own, Option.bind_some, entry, Machine.fstat]
    rfl
  refine alone_bind.2 (alone_look (v := m.status d) ?_ ?_)
  · intro a
    simp only [perform, directory, Machine.fstat]
    rfl
  refine alone_bind.2 ((alone_guard _ _).2 ⟨fun _ => ?_, fun no => absurd ⟨rfl, rfl⟩ no⟩)
  refine alone_bind.2 (alone_look (v := m.status n) ?_ ?_)
  · intro a
    simp only [perform, own, Machine.fstat]
    rfl
  exact (alone_guard _ _).2 ⟨fun _ => rfl, fun no => absurd ready.lock.2.2.2.2.1 no⟩

theorem alone_acquire_taken {j : Nat} {Q : Unit → Machine → Prop} (idle : m.workers i = {})
    (ready : m.Provisioned d n) (taken : m.holder n = some j) (other : j ≠ i) :
    Alone platform i Q (fun e t => e = .busy ∧ t = m.setWorker i ⟨some d, some n, true, true⟩)
      acquire m := by
  refine alone_acquire idle ready (alone_bind.2 (alone_handle.2 ?_))
  have taken' : (m.setWorker i ⟨some d, some n, true, true⟩).holder n = some j := taken
  have run (a : Nat) : (m.setWorker i ⟨some d, some n, true, true⟩).perform i a .flock =
      (.error .wouldBlock, m.setWorker i ⟨some d, some n, true, true⟩) := by
    simp only [perform, setWorker_self, taken', if_neg other]
  refine alone_ask ⟨_, _, 0, rfl⟩ ?_ ?_
  · rintro v t ⟨a, run'⟩
    rw [run a] at run'
    cases run'
  · rintro e t ⟨a, run'⟩
    rw [run a] at run'
    cases run'
    exact ⟨rfl, rfl⟩

theorem alone_leave {E : Fault → Machine → Prop} (own : m.workers i = ⟨some d, some n, true, true⟩) :
    Alone platform i (fun _ t => t = m.left i) E leave m := by
  refine alone_bind.2 (alone_look (v := (true, true)) ?_ ?_)
  · intro a
    simp only [perform, own]
  refine alone_bind.2 (alone_call (v := ()) (t := (m.release i).setWorker i ⟨some d, none, true, true⟩) ?_ ?_)
  · intro a
    simp only [perform, own]
  refine alone_call (v := ()) ?_ rfl
  intro a
  simp only [perform, setWorker_self, setWorker_setWorker]
  rfl

/-- Requests leave the files and the locks alone. -/
theorem alone_requests {α : Type} {mode : Mode} {p : Program α} {Q : α → Machine → Prop}
    {E : Fault → Machine → Prop} (runs : Requests mode p) (alone : Alone platform i Q E p m) :
    Alone platform i (fun a t => Q a t ∧ t.workers = m.workers)
      (fun e t => (e ≠ .busy ∧ E e t) ∧ t.workers = m.workers) p m := by
  induction p generalizing m with
  | returned a => exact ⟨alone, rfl⟩
  | raised e => exact ⟨⟨runs, alone⟩, rfl⟩
  | call c next ih =>
    obtain ⟨⟨k, rfl⟩, rest⟩ := runs
    refine ⟨alone.1, ?_⟩
    rintro r t ⟨a, run⟩
    have same : t.workers = m.workers := by
      cases run
      rfl
    have later := ih r (rest r) (alone.2 r t ⟨a, run⟩)
    rw [same] at later
    exact later

theorem release_idle (idle : Idle i m) (v : Descriptors) :
    (m.setWorker i v).left i = m.setWorker i ⟨none, none, true, true⟩ := by
  have holder : (m.release i).holder = m.holder := by
    funext k
    exact if_neg (idle.2 k)
  have same : m.release i = m := congrArg (fun h => { m with holder := h }) holder
  calc (m.setWorker i v).left i
      = ((m.release i).setWorker i v).setWorker i ⟨none, none, true, true⟩ := rfl
    _ = m.setWorker i ⟨none, none, true, true⟩ := by rw [setWorker_setWorker, same]

/-- A worker that starts where the lock is taken says so and leaves everything as
it was. Where all before it are gone, however they ended, it has its lock: its
run is the run of its mode, and nothing stays locked. -/
theorem worker_is_busy_or_runs {body : Mode → Program Output}
    (runs : ∀ mode, Requests mode (body mode)) {w : System Nat Call Answer Fault Output Machine}
    (run : Reachable platform (isWorker body) Fresh w) (absent : w.process i = none)
    (ready : w.state.Provisioned d n) {mode : Mode} (locked : locks mode = true) :
    (w.state.holder n ≠ none →
      Alone platform i
        (fun out t => out = .busy mode ∧ t = w.state.setWorker i ⟨none, none, true, true⟩)
        (fun _ _ => False) (runOneShot body mode) w.state) ∧
    ((∀ j, w.process j = none) → ∀ (Q : Output → Machine → Prop) (E : Fault → Machine → Prop),
      Alone platform i Q E (body mode) (w.state.entered i d n) →
        Alone platform i (fun out t => ∃ u, Q out u ∧ t = u.left i)
          (fun e t => ∃ u, E e u ∧ t = u.left i) (runOneShot body mode) w.state) := by
  have sound := (compatible runs).reachable_sound run
  have idle : Idle i w.state := sound.idle i absent
  unfold runOneShot
  simp only [locked, if_true]
  refine ⟨?_, ?_⟩
  · intro taken
    obtain ⟨j, taken⟩ := Option.ne_none_iff_exists'.mp taken
    have other : j ≠ i := fun same => idle.2 n (same ▸ taken)
    refine alone_handle.2 (alone_ensure.2 (alone_bind.2 (alone_handle.2 ?_)))
    refine (alone_acquire_taken (Q := fun _ _ => False) idle.1 ready taken other).mono
      (fun _ _ no => no.elim) ?_
    rintro e t ⟨rfl, rfl⟩
    refine (alone_leave (setWorker_self _)).mono ?_ fun _ _ no => no
    rintro _ t rfl
    exact ⟨rfl, release_idle idle _⟩
  · intro ended Q E alone
    have free : w.state.holder n = none := by
      cases held : w.state.holder n with
      | none => rfl
      | some j => exact absurd held ((sound.idle j (ended j)).2 n)
    have own : (w.state.entered i d n).workers i = ⟨some d, some n, true, true⟩ := setWorker_self _
    refine alone_handle.2 (alone_ensure.2 (alone_bind.2 (alone_handle.2 ?_)))
    refine (alone_acquire_free (E := fun _ _ => False) idle.1 ready free).mono ?_ fun _ _ no => no.elim
    rintro _ t rfl
    refine (alone_requests (runs mode) alone).mono ?_ ?_
    · rintro out u ⟨result, same⟩
      rw [← same] at own
      exact (alone_leave own).mono (fun _ _ left => ⟨u, result, left⟩) fun _ _ no => no
    · rintro e u ⟨⟨other, result⟩, same⟩
      rw [← same] at own
      refine (alone_leave own).mono ?_ fun _ _ no => no
      rintro _ t left
      cases e with
      | busy => exact absurd rfl other
      | wouldBlock => exact ⟨u, result, left⟩
      | os => exact ⟨u, result, left⟩
      | run message => exact ⟨u, result, left⟩
      | other => exact ⟨u, result, left⟩

end

/-- A second worker while the first is inside the lock, and once the first is
killed there. -/
theorem sample_worker_runs : ∃ (w : System Nat Call Answer Fault Output Machine)
    (next : Except Fault Nat → Program Output),
    w.process 0 = some (.call (.request ⟨.renew, 0⟩) next) ∧
      Alone platform 1
        (fun out t => out = .busy .renew ∧ t = w.state.setWorker 1 ⟨none, none, true, true⟩)
        (fun _ _ => False) (runOneShot Sample.body .renew) w.state ∧
      Alone platform 1 (fun out t => ∃ u : Machine, (∃ answer, out = .ran answer) ∧ t = u.left 1)
        (fun _ t => ∃ u : Machine, False ∧ t = u.left 1) (runOneShot Sample.body .renew)
        (w.state.ends 0) := by
  obtain ⟨w, run, state, process⟩ := sample_inside
  obtain ⟨next, waits⟩ : ∃ next, w.process 0 = some (.call (.request ⟨.renew, 0⟩) next) := by
    rw [process, Function.update_self]
    exact ⟨_, rfl⟩
  have ready : w.state.Provisioned (5, 1) (5, 2) := by
    rw [state]
    exact ⟨rfl, by decide +kernel, by decide +kernel, rfl, by decide +kernel⟩
  have taken : w.state.holder (5, 2) = some 0 := by
    rw [state]
    rfl
  refine ⟨w, next, waits, ?_, ?_⟩
  · refine (worker_is_busy_or_runs Sample.requests run ?_ ready rfl).1 ?_
    · rw [process]
      rfl
    · rw [taken]
      exact Option.some_ne_none 0
  · have killed : Step platform (isWorker Sample.body) w
        ⟨w.state.ends 0, Function.update w.process 0 none⟩ := .gone w 0 _ waits
    have ended (j : Nat) : Function.update w.process 0 none j = none := by
      rw [process, Function.update_idem, Function.update_eq_self]
    refine (worker_is_busy_or_runs Sample.requests (run.next killed) (ended 1)
      ⟨ready.1, ready.2, ready.3, ready.4, ready.5⟩ rfl).2 ended _ _ ?_
    refine alone_handle.2 (alone_bind.2 (alone_ask ⟨_, _, 0, rfl⟩ (fun a _ _ => ⟨a, rfl⟩) ?_))
    rintro e t ⟨a, run⟩
    cases run

end CertRenewer.Lifecycle
