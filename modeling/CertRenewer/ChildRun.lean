import CertRenewer.Concurrent.Process
import CertRenewer.Certificate

/-!
# Running a child

`_run` and `_reap` of `unifi_process.py`, call by call. The child and what it
starts may do anything between two calls: write, close, exit, or hold a pipe
open after the child itself is gone. Times are whole nanoseconds.
-/

namespace CertRenewer.ChildRun

open Concurrent

def maxIo : Nat := 1024 * 1024
def timeout : Nat := 30000000000

/-- The `0.1` seconds one `select` waits at most. -/
def slice : Nat := 100000000

/-- The pipes the child writes to. -/
inductive Pipe where
  | stdout
  | stderr
  deriving DecidableEq, Repr

inductive Stream where
  | stdin
  | reading (p : Pipe)
  deriving DecidableEq, Repr

/-- Everything written so far, how much of it was read, and whether nobody can
write any more. -/
structure Output where
  written : Bytes := []
  taken : Nat := 0
  ended : Bool := false
  deriving DecidableEq, Repr

/-- `stdin` is what was put into the child's standard input, `broken` that nobody
can read it any more; `gone` that no process of the child's group is left;
`closed` are our own ends. -/
structure Machine where
  clock : Nat
  started : Bool := false
  stdin : Bytes := []
  broken : Bool := false
  out : Pipe → Output := fun _ => {}
  status : Option Int := none
  gone : Bool := false
  killed : Bool := false
  reaped : Bool := false
  closed : Stream → Bool := fun _ => false

inductive Fault where
  | value
  | timeout
  | timeoutExpired
  | brokenPipe
  | processLookup
  | os
  | operation (message : String)
  | other
  | spent
  deriving DecidableEq, Repr

inductive Signal where
  | term
  | kill
  deriving DecidableEq, Repr

inductive Call where
  | popen
  | monotonic
  | selector
  | setBlocking (s : Stream)
  | register (s : Stream)
  | unregister (s : Stream)
  | close (s : Stream)
  | select (registered : List Stream) (limit : Nat)
  | write (chunk : Bytes)
  | read (p : Pipe)
  | wait (limit : Option Nat)
  | killpg (signal : Signal)

abbrev Answer : Call → Type
  | .monotonic | .write _ => Nat
  | .select _ _ => List Stream
  | .read _ => Bytes
  | .wait _ => Int
  | _ => Unit

/-- What the child's side may do between two calls. -/
structure Output.Grows (o p : Output) : Prop where
  taken : p.taken = o.taken
  written : o.written <+: p.written
  ended : o.ended = true → p = o

structure Machine.Later (m t : Machine) : Prop where
  clock : m.clock ≤ t.clock
  started : t.started = m.started
  stdin : t.stdin = m.stdin
  broken : m.broken = true → t.broken = true
  out : ∀ p, (m.out p).Grows (t.out p)
  status : ∀ v, m.status = some v → t.status = some v
  gone : m.gone = true → t.gone = true
  killed : t.killed = m.killed
  reaped : t.reaped = m.reaped
  closed : t.closed = m.closed

/-- What a call can answer. A pipe is written or read at least one byte at a
time, an empty `select` has waited as long as it was asked to, and `wait` answers
when the child has exited. -/
def Answers : (c : Call) → Machine → Except Fault (Answer c) → Machine → Prop
  | .popen, m, r, t =>
    (r = .ok () ∧ t = { clock := m.clock, started := true }) ∨ (r = .error .os ∧ t = m)
  | .monotonic, m, r, t => r = .ok m.clock ∧ t = m
  | .selector, m, r, t => (r = .ok () ∨ r = .error .os) ∧ t = m
  | .setBlocking _, m, r, t => (r = .ok () ∨ r = .error .os) ∧ t = m
  | .register _, m, r, t => (r = .ok () ∨ r = .error .os) ∧ t = m
  | .unregister _, m, r, t => (r = .ok () ∨ r = .error .os) ∧ t = m
  | .close s, m, r, t =>
    (r = .ok () ∨ r = .error .os) ∧ t = { m with closed := Function.update m.closed s true }
  | .select registered limit, m, r, t =>
    (∃ (ready : List Stream) (clock : Nat), r = .ok ready ∧ ready.Nodup ∧ ready ⊆ registered ∧ m.clock ≤ clock ∧
      (ready = [] → m.clock + limit ≤ clock) ∧ t = { m with clock := clock }) ∨
    (r = .error .os ∧ t = m)
  | .write chunk, m, r, t =>
    (∃ n : Nat, r = .ok n ∧ 1 ≤ n ∧ n ≤ chunk.length ∧ t = { m with stdin := m.stdin ++ chunk.take n }) ∨
    (m.broken = true ∧ r = .error .brokenPipe ∧ t = m) ∨ (r = .error .os ∧ t = m)
  | .read p, m, r, t =>
    (∃ n, r = .ok (((m.out p).written.drop (m.out p).taken).take n) ∧ 1 ≤ n ∧ n ≤ 4096 ∧
      (m.out p).taken + n ≤ (m.out p).written.length ∧
      t = { m with out := Function.update m.out p { m.out p with taken := (m.out p).taken + n } }) ∨
    ((m.out p).ended = true ∧ (m.out p).taken = (m.out p).written.length ∧ r = .ok [] ∧ t = m) ∨
    (r = .error .os ∧ t = m)
  | .wait limit, m, r, t =>
    (∃ status, m.status = some status ∧ r = .ok status ∧ t = { m with reaped := true }) ∨
    (limit ≠ none ∧ r = .error .timeoutExpired ∧ t = m)
  | .killpg signal, m, r, t =>
    (r = .ok () ∧ t = if signal = .kill then { m with killed := true } else m) ∨
    (m.gone = true ∧ r = .error .processLookup ∧ t = m)

/-- The calls inside the `try` block that something else than an error can
interrupt. -/
def Call.interruptible : Call → Bool
  | .selector | .setBlocking _ | .register _ | .unregister _ | .select _ _ | .write _ | .read _ => true
  | _ => false

def platform : Platform Unit Call Answer Fault Machine where
  answers _ := Answers
  trouble c e := c.interruptible = true ∧ e = .other
  ends _ m := m
  environment := Machine.Later

abbrev Program := Concurrent.Process Call Answer Fault

open Concurrent.Process hiding ask

abbrev ask (c : Call) : Program (Answer c) := Concurrent.Process.ask c

/-! ## The program -/

/-- `contextlib.suppress`. -/
def suppress (fault : Fault) (m : Program Unit) : Program Unit :=
  m.handle fun e => if e = fault then return () else .raised e

def waitUpTo (limit : Option Nat) : Program Unit := do
  let _ ← ask (.wait limit)
  return ()

/-- `_reap`. -/
def reap : Program Unit := do
  suppress .processLookup (ask (.killpg .term))
  suppress .timeoutExpired (waitUpTo (some 2000000000))
  suppress .processLookup (ask (.killpg .kill))
  waitUpTo none

/-- The variables of the loop of `_run`; `registered` is the map of its selector. -/
structure Locals where
  output : Bytes := []
  errors : Nat := 0
  sent : Nat := 0
  registered : List Stream := []
  deriving DecidableEq, Repr

def Locals.extend (l : Locals) (chunk : Bytes) : Pipe → Locals
  | .stdout => { l with output := l.output ++ chunk }
  | .stderr => { l with errors := l.errors + chunk.length }

def drop (s : Stream) (l : Locals) : Program Locals := do
  ask (.unregister s)
  ask (.close s)
  return { l with registered := l.registered.erase s }

/-- `os.write`, with `BrokenPipeError` caught. -/
def send (data : Bytes) (sent : Nat) : Program Nat :=
  (do
    let n ← ask (.write ((data.drop sent).take 4096))
    return sent + n : Program Nat).handle fun
      | .brokenPipe => return data.length
      | e => .raised e

def feed (data : Bytes) (l : Locals) : Program Locals := do
  let sent ← send data l.sent
  if sent = data.length then drop .stdin { l with sent := sent }
  else return { l with sent := sent }

def received (p : Pipe) (chunk : Bytes) (l : Locals) : Program Locals :=
  if chunk = [] then drop (.reading p) l else return l.extend chunk p

def collect (p : Pipe) (l : Locals) : Program Locals := do
  let chunk ← ask (.read p)
  let l' ← received p chunk l
  guard (l'.output.length ≤ maxIo ∧ l'.errors ≤ maxIo) .value
  return l'

def event (data : Bytes) (l : Locals) : Stream → Program Locals
  | .stdin => feed data l
  | .reading p => collect p l

def events (data : Bytes) : List Stream → Locals → Program Locals
  | [], l => return l
  | s :: rest, l => do
    let l' ← event data l s
    events data rest l'

/-- A round of the `while` loop. -/
def round (data : Bytes) (deadline : Nat) (l : Locals) : Program (Locals ⊕ Locals) :=
  if l.registered = [] then return .inr l
  else do
    let now ← ask .monotonic
    guard (now < deadline) .timeout
    let ready ← ask (.select l.registered (min (deadline - now) slice))
    let l' ← events data ready l
    return .inl l'

/-- Standard input is fed if there is something to feed, and closed otherwise. -/
def openStdin (data : Bytes) : Program Locals :=
  if data = [] then do
    ask (.close .stdin)
    return { registered := [.reading .stdout, .reading .stderr] }
  else do
    ask (.register .stdin)
    return { registered := [.reading .stdout, .reading .stderr, .stdin] }

/-- The `try` block of `_run` once the child runs, with a loop of at most this
many rounds. -/
def talk (rounds : Nat) (data : Bytes) : Program Bytes := do
  let start ← ask .monotonic
  ask .selector
  ask (.setBlocking (.reading .stdout))
  ask (.setBlocking (.reading .stderr))
  ask (.setBlocking .stdin)
  ask (.register (.reading .stdout))
  ask (.register (.reading .stderr))
  let l ← openStdin data
  let l' ← iterate .spent (round data (start + timeout)) rounds l
  let now ← ask .monotonic
  let status ← ask (.wait (some (max 1000000 (start + timeout - now))))
  guard (status = 0) .value
  return l'.output

/-- `except Exception`; running out of rounds is not an exception of the code. -/
def Fault.reported : Fault → Fault
  | .other => .other
  | .spent => .spent
  | _ => .operation "UniFi child execution failed"

/-- The `finally` block of `_run` when there is a child. -/
def cleanUp : Program Unit := do
  reap
  ask (.close .stdin)
  ask (.close (.reading .stdout))
  ask (.close (.reading .stderr))

/-- The `try` block up to the child. -/
def launch (data : Bytes) : Program Unit := do
  guard (data.length ≤ maxIo) .value
  ask .popen

/-- `_run`. -/
def run (rounds : Nat) (data : Bytes) : Program Bytes := do
  (launch data).handle fun e => .raised e.reported
  ((talk rounds data).handle fun e => .raised e.reported).ensure cleanUp

/-! ## One call -/

/-- Nothing is asked of the others but what `Later` says. -/
abbrev contract : Contract Machine := ⟨fun _ => True, Machine.Later, fun _ _ => True⟩

section
variable {data chunk : Bytes} {l l' : Locals} {m t u : Machine} {p : Pipe} {c : Nat}

theorem Output.Grows.refl (o : Output) : o.Grows o := ⟨rfl, List.prefix_rfl, fun _ => rfl⟩

theorem Machine.Later.tick {clock : Nat} (onward : m.clock ≤ clock) : m.Later { m with clock := clock } :=
  ⟨onward, rfl, rfl, fun h => h, fun p => .refl (m.out p), fun _ h => h, fun h => h, rfl, rfl, rfl⟩

/-- The rule for one call. -/
theorem asks {c : Call} {H : Machine → Prop} {Q : Answer c → Machine → Prop} {E : Fault → Machine → Prop}
    (stable : ∀ m t, m.Later t → H m → H t) (here : H m)
    (answered : ∀ m r t, H m → Answers c m r t →
      (∀ a, r = .ok a → Q a t) ∧ (∀ e, r = .error e → E e t) ∧ (c.interruptible = true → E .other t))
    (before : c.interruptible = true → ∀ m, H m → E .other m) :
    Upholds platform () contract Q E (ask c) m := by
  refine upholds_ask stable here ?_ ?_
  · rintro m e known - ⟨possible, rfl⟩
    exact ⟨trivial, before possible m known⟩
  · rintro m r t known - run
    obtain ⟨value, failure, interrupted⟩ := answered m r t known run
    refine ⟨trivial, value, failure, ?_⟩
    rintro e ⟨possible, rfl⟩
    exact interrupted possible

/-- What ends the conversation early is an error or an interruption. -/
def Broken (e : Fault) (_ : Machine) : Prop := e ≠ .spent

/-- The rule for a call that may fail and of which only the effect counts. -/
theorem does {c : Call} {H : Machine → Prop} {Q : Answer c → Machine → Prop}
    (stable : ∀ m t, m.Later t → H m → H t) (here : H m)
    (value : ∀ m a t, H m → Answers c m (.ok a) t → Q a t)
    (failure : ∀ m t, ¬ Answers c m (.error .spent) t) :
    Upholds platform () contract Q Broken (ask c) m := by
  refine asks stable here ?_ fun _ _ _ no => by cases no
  intro m r t known run
  refine ⟨fun a ok => value m a t known (ok ▸ run), ?_, fun _ no => by cases no⟩
  rintro e rfl rfl
  exact failure m t run

/-! ## The conversation -/

/-- What the variables say about the pipes. -/
structure Talking (data : Bytes) (l : Locals) (m : Machine) : Prop where
  nodup : l.registered.Nodup
  taken : ∀ p, (m.out p).taken ≤ (m.out p).written.length
  output : l.output = (m.out .stdout).written.take (m.out .stdout).taken
  errors : l.errors = (m.out .stderr).taken
  ended : ∀ p, .reading p ∉ l.registered →
    (m.out p).ended = true ∧ (m.out p).taken = (m.out p).written.length
  fed : l.sent ≤ data.length ∧ m.stdin = data.take l.sent ∨
    l.sent = data.length ∧ m.broken = true ∧ m.stdin <+: data
  feeding : .stdin ∈ l.registered ↔ l.sent ≠ data.length

theorem Talking.later (h : Talking data l m) (later : m.Later t) : Talking data l t where
  nodup := h.nodup
  taken p := by
    rw [(later.out p).taken]
    exact (h.taken p).trans (later.out p).written.length_le
  output := by
    obtain ⟨more, grown⟩ := (later.out .stdout).written
    rw [(later.out .stdout).taken, ← grown, List.take_append_of_le_length (h.taken .stdout)]
    exact h.output
  errors := by rw [(later.out .stderr).taken]; exact h.errors
  ended p unregistered := by
    obtain ⟨ended, all⟩ := h.ended p unregistered
    rw [(later.out p).ended ended]
    exact ⟨ended, all⟩
  fed := by
    rw [later.stdin]
    exact h.fed.imp_right fun ⟨all, broken, part⟩ => ⟨all, later.broken broken, part⟩
  feeding := h.feeding

/-- What is left to do, in steps of at least one. -/
def work (data : Bytes) (l : Locals) : Nat :=
  l.registered.length + (maxIo - l.output.length) + (maxIo - l.errors) + (data.length - l.sent)

/-- What the loop has kept within its limits. -/
def Bounded (l : Locals) : Prop := l.output.length ≤ maxIo ∧ l.errors ≤ maxIo

/-- The state at a moment not before `c`. -/
def During (data : Bytes) (l : Locals) (c : Nat) (m : Machine) : Prop :=
  Talking data l m ∧ c ≤ m.clock

theorem During.later (m t : Machine) (later : m.Later t) (h : During data l c m) : During data l c t :=
  ⟨h.1.later later, h.2.trans later.clock⟩

/-- What handling one event leaves: less to do, and the other streams still
registered. -/
structure Progress (data : Bytes) (l : Locals) (s : Stream) (l' : Locals) : Prop where
  less : work data l' < work data l
  others : ∀ s', s' ≠ s → s' ∈ l.registered → s' ∈ l'.registered

/-- Closing our end of a pipe changes nothing else. -/
theorem talking_closed (h : Talking data l m) (s : Stream) :
    Talking data l { m with closed := Function.update m.closed s true } :=
  ⟨h.nodup, h.taken, h.output, h.errors, h.ended, h.fed, h.feeding⟩

/-- Unregistering a stream of which nothing more is expected. -/
theorem drop_upholds {s : Stream} (h : During data { l with registered := l.registered.erase s } c m) :
    Upholds platform () contract
      (fun l' t => l' = { l with registered := l.registered.erase s } ∧ During data l' c t) Broken
      (drop s l) m := by
  refine upholds_bind.2 ((does (c := .unregister s)
    (Q := fun _ t => During data { l with registered := l.registered.erase s } c t) During.later h
    ?_ ?_).mono (fun _ m h => ?_) fun _ _ h => h)
  · rintro m a t h ⟨-, rfl⟩
    exact h
  · rintro m t ⟨no | no, -⟩ <;> cases no
  refine upholds_bind.2 ((does (c := .close s)
    (Q := fun _ t => During data { l with registered := l.registered.erase s } c t) During.later h
    ?_ ?_).mono (fun _ m h => ⟨rfl, h⟩) fun _ _ h => h)
  · rintro m a t h ⟨-, rfl⟩
    exact ⟨talking_closed h.1 s, h.2⟩
  · rintro m t ⟨no | no, -⟩ <;> cases no

/-- The variables once this much is sent; standard input is dropped with its last
byte. -/
def Locals.after (l : Locals) (data : Bytes) (sent : Nat) : Locals :=
  { l with
    sent := sent
    registered := if sent = data.length then l.registered.erase .stdin else l.registered }

theorem Talking.unsent (h : Talking data l m) (feeding : .stdin ∈ l.registered) :
    l.sent < data.length ∧ m.stdin = data.take l.sent := by
  have short := h.feeding.1 feeding
  rcases h.fed with ⟨within, fed⟩ | ⟨all, -⟩
  · exact ⟨by omega, fed⟩
  · exact absurd all short

theorem Talking.after {sent : Nat} (h : Talking data l m) (feeding : .stdin ∈ l.registered)
    (out : t.out = m.out)
    (fed : sent ≤ data.length ∧ t.stdin = data.take sent ∨
      sent = data.length ∧ t.broken = true ∧ t.stdin <+: data) :
    Talking data (l.after data sent) t := by
  have there (p : Pipe) : .reading p ∈ (l.after data sent).registered ↔ .reading p ∈ l.registered := by
    unfold Locals.after
    split
    · exact List.mem_erase_of_ne (fun no => by cases no)
    · exact Iff.rfl
  refine ⟨?_, ?_, ?_, ?_, ?_, fed, ?_⟩
  · unfold Locals.after
    split
    · exact h.nodup.erase _
    · exact h.nodup
  · rw [out]
    exact h.taken
  · rw [out]
    exact h.output
  · rw [out]
    exact h.errors
  · intro p unregistered
    rw [out]
    exact h.ended p (fun no => unregistered ((there p).2 no))
  · unfold Locals.after
    split <;> rename_i all
    · simp [h.nodup.mem_erase_iff, all]
    · simp [all, feeding]

/-- A write gets a part of what remains into the pipe, or finds it broken. -/
theorem send_upholds (h : During data l c m) (feeding : .stdin ∈ l.registered) :
    Upholds platform () contract
      (fun sent t => (l.sent < sent ∧ sent ≤ data.length) ∧ During data (l.after data sent) c t) Broken
      (send data l.sent) m := by
  refine upholds_handle.2 (upholds_bind.2 ((asks (c := .write ((data.drop l.sent).take 4096))
    (Q := fun n t => (l.sent < l.sent + n ∧ l.sent + n ≤ data.length) ∧
      During data (l.after data (l.sent + n)) c t)
    (E := fun e t => e ≠ .spent ∧ (e = .brokenPipe →
      l.sent < data.length ∧ During data (l.after data data.length) c t))
    During.later h ?_ fun _ _ _ => ⟨(fun no => by cases no), fun no => by cases no⟩).mono
      (fun _ _ h => h) ?_))
  · intro m r t h run
    obtain ⟨short, fed⟩ := h.1.unsent feeding
    rcases run with ⟨n, rfl, some, within, rfl⟩ | ⟨broken, rfl, rfl⟩ | ⟨rfl, rfl⟩
    · refine ⟨?_, fun _ no => (by cases no), fun _ => ⟨fun no => (by cases no), fun no => (by cases no)⟩⟩
      rintro n' ok
      cases ok
      simp only [List.length_take, List.length_drop] at within
      have part : ((data.drop l.sent).take 4096).take n = (data.drop l.sent).take n := by
        rw [List.take_take, Nat.min_eq_left (by omega)]
      refine ⟨by omega, h.1.after feeding rfl (Or.inl ⟨by omega, ?_⟩), h.2⟩
      change m.stdin ++ _ = _
      rw [fed, part, List.take_add]
    · refine ⟨fun _ no => (by cases no), ?_, fun _ => ⟨fun no => (by cases no), fun no => (by cases no)⟩⟩
      rintro e ok
      cases ok
      refine ⟨fun no => (by cases no), fun _ => ⟨short, h.1.after feeding rfl (Or.inr ⟨rfl, broken, ?_⟩), h.2⟩⟩
      rw [fed]
      exact List.take_prefix _ _
    · refine ⟨fun _ no => (by cases no), ?_, fun _ => ⟨fun no => (by cases no), fun no => (by cases no)⟩⟩
      rintro e ok
      cases ok
      exact ⟨fun no => (by cases no), fun no => (by cases no)⟩
  · rintro e t ⟨kept, broken⟩
    cases e with
    | brokenPipe =>
      obtain ⟨short, during⟩ := broken rfl
      exact ⟨⟨short, Nat.le_refl _⟩, during⟩
    | spent => exact absurd rfl kept
    | value => exact fun no => by cases no
    | timeout => exact fun no => by cases no
    | timeoutExpired => exact fun no => by cases no
    | processLookup => exact fun no => by cases no
    | os => exact fun no => by cases no
    | operation message => exact fun no => by cases no
    | other => exact fun no => by cases no

theorem feed_upholds (h : During data l c m) (feeding : .stdin ∈ l.registered) :
    Upholds platform () contract
      (fun l' t => ((Bounded l → Bounded l') ∧ Progress data l .stdin l') ∧ During data l' c t) Broken
      (feed data l) m := by
  refine upholds_bind.2 ((send_upholds h feeding).mono ?_ fun _ _ h => h)
  rintro sent t ⟨⟨more, within⟩, during⟩
  have less : work data (l.after data sent) < work data l := by
    have shorter : (l.after data sent).registered.length ≤ l.registered.length := by
      unfold Locals.after
      split
      · exact List.length_erase_le
      · exact Nat.le_refl _
    have same : (l.after data sent).sent = sent ∧ (l.after data sent).output = l.output ∧
      (l.after data sent).errors = l.errors := ⟨rfl, rfl, rfl⟩
    simp only [work, same]
    omega
  have progress : Progress data l .stdin (l.after data sent) := by
    refine ⟨less, fun s other there => ?_⟩
    unfold Locals.after
    split
    · exact (List.mem_erase_of_ne other).2 there
    · exact there
  by_cases all : sent = data.length
  · simp only [if_pos all]
    have now : l.after data sent = { l with sent := sent, registered := l.registered.erase .stdin } := by
      simp only [Locals.after, if_pos all]
    rw [now] at progress during
    refine (drop_upholds (l := { l with sent := sent }) during).mono ?_ fun _ _ h => h
    rintro l' t ⟨rfl, during⟩
    exact ⟨⟨fun small => small, progress⟩, during⟩
  · simp only [if_neg all]
    have now : l.after data sent = { l with sent := sent } := by
      simp only [Locals.after, if_neg all]
    rw [now] at progress during
    exact ⟨⟨fun small => small, progress⟩, during⟩

theorem Talking.extend {n : Nat} (h : Talking data l m) (within : (m.out p).taken + n ≤ (m.out p).written.length) :
    Talking data (l.extend (((m.out p).written.drop (m.out p).taken).take n) p)
      { m with out := Function.update m.out p { m.out p with taken := (m.out p).taken + n } } := by
  have chunk : (((m.out p).written.drop (m.out p).taken).take n).length = n := by
    rw [List.length_take, List.length_drop]
    omega
  have others (q : Pipe) (other : q ≠ p) :
      Function.update m.out p { m.out p with taken := (m.out p).taken + n } q = m.out q :=
    Function.update_of_ne other _ _
  have taken (q : Pipe) : (Function.update m.out p { m.out p with taken := (m.out p).taken + n } q).taken ≤
      (Function.update m.out p { m.out p with taken := (m.out p).taken + n } q).written.length := by
    by_cases same : q = p
    · subst same
      simpa using within
    · rw [others q same]
      exact h.taken q
  have ended (q : Pipe) (unregistered : .reading q ∉ l.registered) :
      (Function.update m.out p { m.out p with taken := (m.out p).taken + n } q).ended = true ∧
        (Function.update m.out p { m.out p with taken := (m.out p).taken + n } q).taken =
          (Function.update m.out p { m.out p with taken := (m.out p).taken + n } q).written.length := by
    obtain ⟨ended, all⟩ := h.ended q unregistered
    by_cases same : q = p
    · subst same
      simp only [Function.update_self]
      exact ⟨ended, by omega⟩
    · rw [others q same]
      exact ⟨ended, all⟩
  cases p with
  | stdout =>
    refine ⟨h.nodup, taken, ?_, ?_, ended, h.fed, h.feeding⟩
    · simp only [Locals.extend, Function.update_self, h.output, List.take_add]
    · simpa [Locals.extend] using h.errors
  | stderr =>
    refine ⟨h.nodup, taken, ?_, ?_, ended, h.fed, h.feeding⟩
    · simpa [Locals.extend] using h.output
    · simp only [Locals.extend, Function.update_self, chunk, h.errors]

theorem Talking.ends (h : Talking data l m) (ended : (m.out p).ended = true)
    (all : (m.out p).taken = (m.out p).written.length) :
    Talking data { l with registered := l.registered.erase (.reading p) } m := by
  refine ⟨h.nodup.erase _, h.taken, h.output, h.errors, ?_, h.fed, ?_⟩
  · intro q unregistered
    by_cases same : q = p
    · subst same
      exact ⟨ended, all⟩
    · refine h.ended q fun there => unregistered ?_
      exact (List.mem_erase_of_ne (fun eq => same (Stream.reading.inj eq))).2 there
  · rw [List.mem_erase_of_ne (fun no => by cases no)]
    exact h.feeding

theorem read_upholds (h : During data l c m) :
    Upholds platform () contract
      (fun chunk t => (chunk = [] →
          During data { l with registered := l.registered.erase (.reading p) } c t) ∧
        (chunk ≠ [] → During data (l.extend chunk p) c t)) Broken (ask (.read p)) m := by
  refine does During.later h ?_ ?_
  · rintro m chunk t h (⟨n, ok, some, -, within, rfl⟩ | ⟨ended, all, ok, rfl⟩ | ⟨no, -⟩)
    · cases ok
      have length : (((m.out p).written.drop (m.out p).taken).take n).length = n := by
        rw [List.length_take, List.length_drop]
        omega
      refine ⟨fun none => ?_, fun _ => ⟨h.1.extend within, h.2⟩⟩
      rw [none] at length
      exact absurd length.symm (by change n ≠ 0; omega)
    · cases ok
      exact ⟨fun _ => ⟨h.1.ends ended all, h.2⟩, fun no => absurd rfl no⟩
    · cases no
  · rintro m t (⟨n, no, -⟩ | ⟨-, -, no, -⟩ | ⟨no, -⟩) <;> cases no

theorem received_upholds (registered : .reading p ∈ l.registered)
    (ended : chunk = [] → During data { l with registered := l.registered.erase (.reading p) } c m)
    (more : chunk ≠ [] → During data (l.extend chunk p) c m) :
    Upholds platform () contract
      (fun l' t => (Bounded l' → Progress data l (.reading p) l') ∧ During data l' c t) Broken
      (received p chunk l) m := by
  unfold received
  split <;> rename_i empty
  · refine (drop_upholds (ended empty)).mono ?_ fun _ _ h => h
    rintro l' t ⟨rfl, during⟩
    refine ⟨fun _ => ⟨?_, fun s other there => (List.mem_erase_of_ne other).2 there⟩, during⟩
    have shorter := List.length_erase_of_mem registered
    have some := List.length_pos_of_mem registered
    simp only [work, shorter]
    omega
  · refine ⟨fun bounded => ⟨?_, fun s other there => ?_⟩, more empty⟩
    · have some := List.length_pos_iff.2 empty
      obtain ⟨output, errors⟩ := bounded
      cases p with
      | stdout =>
        simp only [Locals.extend, List.length_append] at output
        simp only [work, Locals.extend, List.length_append]
        omega
      | stderr =>
        simp only [Locals.extend] at errors
        simp only [work, Locals.extend]
        omega
    · cases p <;> exact there

theorem collect_upholds (h : During data l c m) (registered : .reading p ∈ l.registered) :
    Upholds platform () contract
      (fun l' t => (Bounded l' ∧ Progress data l (.reading p) l') ∧ During data l' c t) Broken
      (collect p l) m := by
  refine upholds_bind.2 ((read_upholds h).mono ?_ fun _ _ h => h)
  rintro chunk t ⟨ended, more⟩
  refine upholds_bind.2 ((received_upholds registered ended more).mono ?_ fun _ _ h => h)
  rintro l' u ⟨progress, during⟩
  refine upholds_bind.2 ((upholds_guard _ _).2 ⟨fun bounded => ?_, fun _ no => by cases no⟩)
  exact ⟨⟨bounded, progress bounded⟩, during⟩

theorem event_upholds {s : Stream} (h : During data l c m) (small : Bounded l)
    (registered : s ∈ l.registered) :
    Upholds platform () contract
      (fun l' t => (Bounded l' ∧ Progress data l s l') ∧ During data l' c t) Broken
      (event data l s) m := by
  cases s with
  | stdin =>
    refine (feed_upholds h registered).mono ?_ fun _ _ h => h
    rintro l' t ⟨⟨kept, progress⟩, during⟩
    exact ⟨⟨kept small, progress⟩, during⟩
  | reading p => exact collect_upholds h registered

/-- Handling what is ready leaves less to do, unless nothing was. -/
theorem events_upholds {ready : List Stream} (h : During data l c m) (small : Bounded l)
    (once : ready.Nodup) (registered : ready ⊆ l.registered) :
    Upholds platform () contract
      (fun l' t => (Bounded l' ∧ work data l' + ready.length ≤ work data l) ∧ During data l' c t) Broken
      (events data ready l) m := by
  induction ready generalizing l m with
  | nil => exact ⟨⟨small, Nat.le_refl _⟩, h⟩
  | cons s rest ih =>
    obtain ⟨fresh, once⟩ := List.nodup_cons.1 once
    obtain ⟨here, others⟩ := List.cons_subset.1 registered
    refine upholds_bind.2 ((event_upholds h small here).mono ?_ fun _ _ h => h)
    rintro l' t ⟨⟨small', progress⟩, during⟩
    have still : rest ⊆ l'.registered := by
      intro s' later
      exact progress.others s' (fun same => fresh (same ▸ later)) (others later)
    refine (ih during small' once still).mono ?_ fun _ _ h => h
    rintro l'' u ⟨⟨small'', less⟩, during⟩
    have before := progress.less
    simp only [List.length_cons]
    exact ⟨⟨small'', by omega⟩, during⟩

/-- The number of `select` calls that can still find nothing ready. -/
def idle (deadline clock : Nat) : Nat := (deadline - clock + (slice - 1)) / slice

/-- The rounds that are left at most. -/
def measure (data : Bytes) (deadline : Nat) (l : Locals) (m : Machine) : Nat :=
  work data l + idle deadline m.clock

theorem idle_mono (deadline : Nat) {c c' : Nat} (later : c ≤ c') : idle deadline c' ≤ idle deadline c := by
  unfold idle slice
  omega

theorem idle_waits {deadline c c' : Nat} (early : c < deadline)
    (later : c + min (deadline - c) slice ≤ c') : idle deadline c' < idle deadline c := by
  unfold idle slice at *
  omega

theorem round_upholds {deadline : Nat} (h : Talking data l m) (small : Bounded l) :
    Upholds platform () contract
      (fun r t => (∀ l', r = .inl l' → (Talking data l' t ∧ Bounded l') ∧
          measure data deadline l' t < measure data deadline l m) ∧
        ∀ l', r = .inr l' → l' = l ∧ l.registered = [] ∧ Talking data l t) Broken
      (round data deadline l) m := by
  unfold round
  split <;> rename_i registered
  · refine ⟨fun _ no => (by cases no), fun l' same => ?_⟩
    cases same
    exact ⟨rfl, registered, h⟩
  have start : During data l m.clock m := ⟨h, Nat.le_refl _⟩
  refine upholds_bind.2 ((does (c := .monotonic)
    (Q := fun now t => During data l m.clock t ∧ m.clock ≤ now ∧ now ≤ t.clock) During.later start
    ?_ ?_).mono ?_ fun _ _ h => h)
  · rintro t now t' during ⟨ok, rfl⟩
    cases ok
    exact ⟨during, during.2, Nat.le_refl _⟩
  · rintro t t' ⟨no, -⟩
    cases no
  rintro now t ⟨during, after, before⟩
  refine upholds_bind.2 ((upholds_guard _ _).2 ⟨fun early => ?_, fun _ no => by cases no⟩)
  refine upholds_bind.2 ((does (c := .select l.registered (min (deadline - now) slice))
    (H := fun t => During data l now t)
    (Q := fun ready t => (ready.Nodup ∧ ready ⊆ l.registered) ∧
      During data l (if ready = [] then now + min (deadline - now) slice else now) t)
    During.later ⟨during.1, before⟩ ?_ ?_).mono ?_ fun _ _ h => h)
  · rintro t ready t' during (⟨keys, clock, ok, once, subset, onward, waited, rfl⟩ | ⟨no, -⟩)
    · cases ok
      refine ⟨⟨once, subset⟩, during.1.later (.tick onward), ?_⟩
      have since := during.2
      change _ ≤ clock
      split <;> rename_i none
      · have := waited none
        omega
      · omega
    · cases no
  · rintro t t' (⟨_, _, no, -⟩ | ⟨no, -⟩) <;> cases no
  rintro ready u ⟨⟨once, subset⟩, during⟩
  refine upholds_bind.2 ((events_upholds during small once subset).mono ?_ fun _ _ h => h)
  rintro l' v ⟨⟨small', less⟩, during'⟩
  refine ⟨fun l'' same => ?_, fun _ no => by cases no⟩
  cases same
  refine ⟨⟨during'.1, small'⟩, ?_⟩
  have passed := during'.2
  unfold measure
  by_cases none : ready = []
  · rw [if_pos none] at passed
    have := idle_waits early passed
    have := idle_mono deadline after
    omega
  · rw [if_neg none] at passed
    have some := List.length_pos_iff.2 none
    have := idle_mono deadline (after.trans passed)
    omega

theorem loop_upholds {rounds deadline : Nat} (h : Talking data l m) (small : Bounded l)
    (enough : measure data deadline l m < rounds) :
    Upholds platform () contract (fun l' t => l'.registered = [] ∧ Talking data l' t ∧ Bounded l') Broken
      (iterate .spent (round data deadline) rounds l) m := by
  refine upholds_iterate (I := fun l m => Talking data l m ∧ Bounded l)
    (f := measure data deadline) ?_ ⟨h, small⟩ enough
  rintro l m ⟨h, small⟩
  refine (round_upholds h small).mono ?_ fun _ _ h => h
  rintro r t ⟨onward, done⟩
  refine ⟨onward, fun l' ended => ?_⟩
  obtain ⟨rfl, none, talking⟩ := done l' ended
  exact ⟨none, talking, small⟩

/-! ## The whole run -/

/-- Nothing is read or written yet, at a moment not before `c`. -/
structure Begun (c : Nat) (m : Machine) : Prop where
  stdin : m.stdin = []
  taken : ∀ p, (m.out p).taken = 0
  clock : c ≤ m.clock

theorem Begun.later (m t : Machine) (later : m.Later t) (h : Begun c m) : Begun c t :=
  ⟨later.stdin.trans h.stdin, fun p => (later.out p).taken.trans (h.taken p), h.clock.trans later.clock⟩

theorem Begun.talking {registered : List Stream} (h : Begun c m) (nodup : registered.Nodup)
    (both : ∀ p, .reading p ∈ registered) (feeding : .stdin ∈ registered ↔ data ≠ []) :
    Talking data { registered := registered } m := by
  refine ⟨nodup, fun p => ?_, ?_, ?_, fun p no => absurd (both p) no, Or.inl ⟨Nat.zero_le _, h.stdin⟩, ?_⟩
  · rw [h.taken p]
    exact Nat.zero_le _
  · rw [h.taken .stdout]
    rfl
  · rw [h.taken .stderr]
  · rw [feeding, ← List.length_pos_iff]
    change _ ↔ 0 ≠ data.length
    omega

/-- What a run returns. All that the child and its processes ever wrote to
standard output is there, to the end of the pipe; all of standard error was read;
the child had its input, unless nobody wanted it, and exited with 0. -/
structure Complete (data out : Bytes) (m : Machine) : Prop where
  output : (m.out .stdout).ended = true ∧ out = (m.out .stdout).written
  errors : (m.out .stderr).ended = true ∧ (m.out .stderr).taken = (m.out .stderr).written.length
  bounded : out.length ≤ maxIo ∧ (m.out .stderr).written.length ≤ maxIo
  input : m.stdin = data ∨ m.broken = true ∧ m.stdin <+: data
  status : m.status = some 0

/-- The child is reaped, and what it left behind killed. -/
def Reaped (m : Machine) : Prop := m.reaped = true ∧ (m.killed = true ∨ m.gone = true)

/-- What neither the child's side nor cleaning up changes. -/
structure Lasting (H : Machine → Prop) : Prop where
  later : ∀ m t, m.Later t → H m → H t
  killed : ∀ m, H m → H { m with killed := true }
  reaped : ∀ m, H m → H { m with reaped := true }
  closed : ∀ m f, H m → H { m with closed := f }

theorem lasting_complete {out : Bytes} : Lasting (Complete data out) where
  later m t later h := by
    have stdout := (later.out .stdout).ended h.output.1
    have stderr := (later.out .stderr).ended h.errors.1
    refine ⟨?_, ?_, ?_, ?_, later.status 0 h.status⟩
    · rw [stdout]
      exact h.output
    · rw [stderr]
      exact h.errors
    · rw [stderr]
      exact h.bounded
    · rw [later.stdin]
      exact h.input.imp_right fun both => ⟨later.broken both.1, both.2⟩
  killed _ h := ⟨h.output, h.errors, h.bounded, h.input, h.status⟩
  reaped _ h := ⟨h.output, h.errors, h.bounded, h.input, h.status⟩
  closed _ _ h := ⟨h.output, h.errors, h.bounded, h.input, h.status⟩

theorem lasting_true : Lasting fun _ => True :=
  ⟨fun _ _ _ _ => trivial, fun _ _ => trivial, fun _ _ => trivial, fun _ _ _ => trivial⟩

theorem lasting_dead : Lasting fun m => m.killed = true ∨ m.gone = true :=
  ⟨fun _ _ later h => h.imp later.killed.trans later.gone, fun _ _ => Or.inl rfl, fun _ h => h, fun _ _ h => h⟩

theorem lasting_reaped : Lasting Reaped where
  later m t later h := ⟨later.reaped.trans h.1, lasting_dead.later m t later h.2⟩
  killed _ h := ⟨h.1, Or.inl rfl⟩
  reaped _ h := ⟨rfl, h.2⟩
  closed _ _ h := h

theorem Lasting.and {H H' : Machine → Prop} (first : Lasting H) (second : Lasting H') :
    Lasting fun m => H m ∧ H' m where
  later m t later h := ⟨first.later m t later h.1, second.later m t later h.2⟩
  killed m h := ⟨first.killed m h.1, second.killed m h.2⟩
  reaped m h := ⟨first.reaped m h.1, second.reaped m h.2⟩
  closed m f h := ⟨first.closed m f h.1, second.closed m f h.2⟩

theorem killpg_upholds {H : Machine → Prop} (lasting : Lasting H) (signal : Signal) (h : H m) :
    Upholds platform () contract
      (fun _ t => H t ∧ (signal = .kill → t.killed = true ∨ t.gone = true)) (fun _ _ => False)
      (suppress .processLookup (ask (.killpg signal))) m := by
  refine upholds_handle.2 ((asks (c := .killpg signal)
    (Q := fun _ t => H t ∧ (signal = .kill → t.killed = true ∨ t.gone = true))
    (E := fun e t => e = .processLookup ∧ H t ∧ t.gone = true) lasting.later h ?_
    fun no => by cases no).mono (fun _ _ h => h) ?_)
  · rintro m r t h (⟨ok, rfl⟩ | ⟨gone, ok, rfl⟩)
    · refine ⟨fun _ _ => ?_, fun _ no => ?_, fun no => by cases no⟩
      · by_cases kill : signal = .kill
        · rw [if_pos kill]
          exact ⟨lasting.killed m h, fun _ => Or.inl rfl⟩
        · rw [if_neg kill]
          exact ⟨h, fun yes => absurd yes kill⟩
      · rw [ok] at no
        cases no
    · refine ⟨fun _ no => ?_, fun e failed => ?_, fun no => by cases no⟩
      · rw [ok] at no
        cases no
      · rw [ok] at failed
        cases failed
        exact ⟨rfl, h, gone⟩
  · rintro e t ⟨rfl, h, gone⟩
    exact ⟨h, fun _ => Or.inr gone⟩

theorem wait_upholds {H : Machine → Prop} (lasting : Lasting H) (limit : Option Nat) (h : H m) :
    Upholds platform () contract (fun _ t => H t ∧ t.reaped = true)
      (fun e t => (e = .timeoutExpired ∧ limit ≠ none) ∧ H t) (waitUpTo limit) m := by
  refine upholds_bind.2 ((asks (c := .wait limit) (Q := fun _ t => H t ∧ t.reaped = true)
    (E := fun e t => (e = .timeoutExpired ∧ limit ≠ none) ∧ H t) lasting.later h ?_
    fun no => by cases no).mono (fun _ _ h => h) fun _ _ h => h)
  rintro m r t h (⟨status, -, ok, rfl⟩ | ⟨limited, ok, rfl⟩)
  · refine ⟨fun _ _ => ⟨lasting.reaped m h, rfl⟩, fun _ no => ?_, fun no => by cases no⟩
    rw [ok] at no
    cases no
  · refine ⟨fun _ no => ?_, fun e failed => ?_, fun no => by cases no⟩
    · rw [ok] at no
      cases no
    · rw [ok] at failed
      cases failed
      exact ⟨⟨rfl, limited⟩, h⟩

theorem reap_upholds {H : Machine → Prop} (lasting : Lasting H) (h : H m) :
    Upholds platform () contract (fun _ t => H t ∧ Reaped t) (fun _ _ => False) reap m := by
  refine upholds_bind.2 ((killpg_upholds lasting .term h).mono ?_ fun _ _ no => no)
  rintro _ m ⟨h, -⟩
  refine upholds_bind.2 (Upholds.mono (Q := fun _ t => H t) (E := fun _ _ => False)
    (upholds_handle.2 ((wait_upholds lasting _ h).mono (fun _ _ h => h.1) ?_)) ?_ fun _ _ no => no)
  · rintro e t ⟨⟨rfl, -⟩, h⟩
    exact h
  intro _ m h
  refine upholds_bind.2 ((killpg_upholds lasting .kill h).mono ?_ fun _ _ no => no)
  rintro _ m ⟨h, dead⟩
  refine (wait_upholds (lasting.and lasting_dead) none ⟨h, dead rfl⟩).mono ?_ ?_
  · rintro _ t ⟨⟨h, dead⟩, reaped⟩
    exact ⟨h, reaped, dead⟩
  · rintro e t ⟨⟨-, limited⟩, -⟩
    exact limited rfl

theorem close_upholds {H : Machine → Prop} (lasting : Lasting H) (s : Stream) (h : H m) :
    Upholds platform () contract (fun _ => H) (fun e t => e ≠ .spent ∧ H t) (ask (.close s)) m := by
  refine asks lasting.later h ?_ fun no => by cases no
  rintro m r t h ⟨ok, rfl⟩
  refine ⟨fun _ _ => lasting.closed m _ h, fun e failed => ⟨?_, lasting.closed m _ h⟩, fun no => by cases no⟩
  rintro rfl
  rcases ok with no | no <;> (rw [no] at failed; cases failed)

theorem cleanUp_upholds {H : Machine → Prop} (lasting : Lasting H) (h : H m) :
    Upholds platform () contract (fun _ t => H t ∧ Reaped t)
      (fun e t => e ≠ .spent ∧ H t ∧ Reaped t) cleanUp m := by
  have closing := lasting.and lasting_reaped
  refine upholds_bind.2 ((reap_upholds lasting h).mono ?_ fun _ _ no => no.elim)
  intro _ m both
  refine upholds_bind.2 ((close_upholds closing _ both).mono (fun _ m both => ?_) fun _ _ h => h)
  refine upholds_bind.2 ((close_upholds closing _ both).mono (fun _ m both => ?_) fun _ _ h => h)
  exact close_upholds closing _ both

/-- A call that may fail and changes nothing. -/
def Call.Plain (call : Call) : Prop :=
  ∀ m r t, Answers call m r t → t = m ∧ r ≠ .error .spent

theorem begins {call : Call} (m : Machine) (h : Begun c m) (plain : call.Plain) :
    Upholds platform () contract (fun _ => Begun c) Broken (ask call) m := by
  refine does Begun.later h ?_ ?_
  · intro m a t h run
    rw [(plain m _ t run).1]
    exact h
  · intro m t run
    exact (plain m _ t run).2 rfl

theorem plain_answer {α : Type} {r : Except Fault α} {a : α} (ok : r = .ok a ∨ r = .error .os) :
    r ≠ .error .spent := by
  rcases ok with rfl | rfl <;> exact fun no => by cases no

theorem plain_selector : Call.selector.Plain := fun _ _ _ run => ⟨run.2, plain_answer run.1⟩

theorem plain_setBlocking (s : Stream) : (Call.setBlocking s).Plain :=
  fun _ _ _ run => ⟨run.2, plain_answer run.1⟩

theorem plain_register (s : Stream) : (Call.register s).Plain :=
  fun _ _ _ run => ⟨run.2, plain_answer run.1⟩

theorem openStdin_upholds (h : Begun c m) :
    Upholds platform () contract
      (fun l t => (Talking data l t ∧ Bounded l) ∧ work data l ≤ 3 + 2 * maxIo + data.length ∧ c ≤ t.clock)
      Broken
      (openStdin data) m := by
  unfold openStdin
  have both (rest : List Stream) (p : Pipe) :
      Stream.reading p ∈ .reading .stdout :: .reading .stderr :: rest := by
    cases p <;> simp
  have small (registered : List Stream) : Bounded { registered := registered } :=
    ⟨Nat.zero_le _, Nat.zero_le _⟩
  split <;> rename_i empty
  · refine upholds_bind.2 ((does (c := .close .stdin) (Q := fun _ => Begun c) Begun.later h ?_ ?_).mono
      (fun _ t h => ?_) fun _ _ h => h)
    · rintro m a t h ⟨-, rfl⟩
      exact ⟨h.stdin, h.taken, h.clock⟩
    · rintro m t ⟨ok, -⟩
      exact plain_answer ok rfl
    · refine ⟨⟨h.talking (by decide) (both []) (by simp [empty]), small _⟩, ?_, h.clock⟩
      simp [work]
      omega
  · refine upholds_bind.2 ((begins m h (plain_register _)).mono (fun _ t h => ?_) fun _ _ h => h)
    · refine ⟨⟨h.talking (by decide) (both [.stdin]) (by simp [empty]), small _⟩, ?_, h.clock⟩
      simp [work]
      omega

theorem Talking.complete (h : Talking data l m) (small : Bounded l) (all : l.registered = [])
    (status : m.status = some 0) : Complete data l.output m := by
  have ended (p : Pipe) := h.ended p (by rw [all]; exact List.not_mem_nil)
  have stdout : l.output = (m.out .stdout).written := by
    rw [h.output, (ended .stdout).2, List.take_length]
  refine ⟨⟨(ended .stdout).1, stdout⟩, ended .stderr, ⟨small.1, ?_⟩, ?_, status⟩
  · rw [← (ended .stderr).2, ← h.errors]
    exact small.2
  · have sent : l.sent = data.length := by
      by_contra short
      have feeding := h.feeding.2 short
      rw [all] at feeding
      cases feeding
    rcases h.fed with ⟨-, fed⟩ | ⟨-, broken⟩
    · rw [sent, List.take_length] at fed
      exact Or.inl fed
    · exact Or.inr broken

theorem talk_upholds {rounds : Nat} (enough : 3 * maxIo + 304 ≤ rounds) (fits : data.length ≤ maxIo)
    (h : Begun c m) :
    Upholds platform () contract (Complete data) Broken (talk rounds data) m := by
  refine upholds_bind.2 ((does (c := .monotonic) (Q := Begun) Begun.later h ?_ ?_).mono ?_ fun _ _ h => h)
  · rintro m start t h ⟨ok, rfl⟩
    cases ok
    exact ⟨h.stdin, h.taken, Nat.le_refl _⟩
  · rintro m t ⟨no, -⟩
    cases no
  intro start m h
  refine upholds_bind.2 ((begins m h plain_selector).mono (fun _ m h => ?_) fun _ _ h => h)
  refine upholds_bind.2 ((begins m h (plain_setBlocking _)).mono (fun _ m h => ?_) fun _ _ h => h)
  refine upholds_bind.2 ((begins m h (plain_setBlocking _)).mono (fun _ m h => ?_) fun _ _ h => h)
  refine upholds_bind.2 ((begins m h (plain_setBlocking _)).mono (fun _ m h => ?_) fun _ _ h => h)
  refine upholds_bind.2 ((begins m h (plain_register _)).mono (fun _ m h => ?_) fun _ _ h => h)
  refine upholds_bind.2 ((begins m h (plain_register _)).mono (fun _ m h => ?_) fun _ _ h => h)
  refine upholds_bind.2 ((openStdin_upholds h).mono ?_ fun _ _ h => h)
  rintro l m ⟨⟨talking, small⟩, most, since⟩
  have rounds' : measure data (start + timeout) l m < rounds := by
    have waits := idle_mono (start + timeout) since
    have waits' : idle (start + timeout) start = 300 := by
      unfold idle slice timeout
      omega
    unfold measure
    omega
  refine upholds_bind.2 ((loop_upholds talking small rounds').mono ?_ fun _ _ h => h)
  rintro l' m ⟨all, talking, small⟩
  refine upholds_bind.2 ((does (c := .monotonic) (Q := fun _ => Talking data l')
    (fun _ _ later h => h.later later) talking ?_ ?_).mono ?_ fun _ _ h => h)
  · rintro m now t h ⟨-, rfl⟩
    exact h
  · rintro m t ⟨no, -⟩
    cases no
  intro now m talking
  refine upholds_bind.2 ((does (c := .wait (some (max 1000000 (start + timeout - now))))
    (Q := fun status t => Talking data l' t ∧ t.status = some status)
    (fun _ _ later h => h.later later) talking ?_ ?_).mono ?_ fun _ _ h => h)
  · rintro m status t h (⟨v, exited, ok, rfl⟩ | ⟨-, no, -⟩)
    · cases ok
      exact ⟨⟨h.nodup, h.taken, h.output, h.errors, h.ended, h.fed, h.feeding⟩, exited⟩
    · cases no
  · rintro m t (⟨_, -, no, -⟩ | ⟨-, no, -⟩) <;> cases no
  rintro status m ⟨talking, exited⟩
  refine upholds_bind.2 ((upholds_guard _ _).2 ⟨fun zero => ?_, fun _ no => by cases no⟩)
  subst zero
  exact talking.complete small all exited

theorem reported_kept {e : Fault} (h : e ≠ .spent) : e.reported ≠ .spent := by
  cases e <;> first | exact absurd rfl h | exact fun no => by cases no

/-- Whatever the child does, the loop ends within these rounds. What `_run`
returns is exactly what the child wrote before it ended well, and on every other
way a child that was started is killed and reaped before `_run` raises. -/
theorem run_is_exact {rounds : Nat} (enough : 3 * maxIo + 304 ≤ rounds) (data : Bytes) {m : Machine}
    (fresh : m.started = false) :
    Upholds platform () contract (fun out t => Complete data out t ∧ Reaped t)
      (fun e t => e ≠ .spent ∧ (t.started = true → Reaped t)) (run rounds data) m := by
  refine upholds_bind.2 (Upholds.mono (Q := fun _ t => data.length ≤ maxIo ∧ Begun 0 t)
    (E := fun e t => e ≠ .spent ∧ t.started = false)
    (upholds_handle.2 (upholds_bind.2 ((upholds_guard _ _).2 ⟨fun fits => ?_, fun _ => ?_⟩))) ?_ ?_)
  · refine asks (c := .popen) (H := fun m => m.started = false) (fun _ _ later h => later.started.trans h)
      fresh ?_ fun no => by cases no
    rintro m r t h (⟨rfl, rfl⟩ | ⟨rfl, rfl⟩)
    · exact ⟨fun _ _ => ⟨fits, rfl, fun _ => rfl, Nat.zero_le _⟩, fun _ no => (by cases no),
        fun no => by cases no⟩
    · refine ⟨fun _ no => (by cases no), fun e failed => ?_, fun no => by cases no⟩
      cases failed
      exact ⟨fun no => (by cases no), h⟩
  · exact ⟨fun no => (by cases no), fresh⟩
  · rintro _ m ⟨fits, begun⟩
    refine upholds_ensure.2 (Upholds.mono (Q := Complete data) (E := Broken)
      (upholds_handle.2 ((talk_upholds enough fits begun).mono (fun _ _ h => h)
        fun e _ kept => reported_kept kept)) ?_ ?_)
    · intro out m complete
      exact (cleanUp_upholds lasting_complete complete).mono (fun _ _ h => h)
        fun e t h => ⟨h.1, fun _ => h.2.2⟩
    · intro e m kept
      exact (cleanUp_upholds lasting_true trivial).mono (fun _ t h => ⟨kept, fun _ => h.2⟩)
        fun e t h => ⟨h.1, fun _ => h.2.2⟩
  · rintro e t ⟨kept, off⟩
    exact ⟨kept, fun on => absurd (off.symm.trans on) (by decide)⟩

end

theorem sample_run :
    Upholds platform () contract (fun out t => Complete [104, 105] out t ∧ Reaped t)
      (fun e t => e ≠ .spent ∧ (t.started = true → Reaped t)) (run (3 * maxIo + 304) [104, 105])
      { clock := 0 } :=
  run_is_exact (Nat.le_refl _) [104, 105] rfl

end CertRenewer.ChildRun
