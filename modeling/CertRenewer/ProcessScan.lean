import CertRenewer.Processes

/-!
# What the process scan finds

The scan fails, or it has classified every process that was still there: an entry
is passed over only when a read of the parent itself found it gone.
-/

namespace CertRenewer.Processes

open Crash

/-! ## What the parent has seen -/

/-- Entry `n` was looked at, and the last look of the parent found it gone if
`gone`. -/
def Adds (n : Nat) (gone : Bool) (seen t : List Sighting) : Prop :=
  ∃ new, t = seen ++ new ∧ (∀ s ∈ new, s.entry = n) ∧ new.getLast?.any (fun s => s.note.gone) = gone

theorem Adds.refl (n : Nat) (seen : List Sighting) : Adds n false seen seen := ⟨[], by simp, by simp, rfl⟩

theorem Adds.trans {n : Nat} {gone : Bool} {seen t u : List Sighting} (h : Adds n false seen t) (k : Adds n gone t u) :
    Adds n gone seen u := by
  obtain ⟨new, rfl, mine, none⟩ := h
  obtain ⟨more, rfl, also, some⟩ := k
  refine ⟨new ++ more, by rw [List.append_assoc], ?_, ?_⟩
  · intro s member
    rcases List.mem_append.mp member with here | here
    · exact mine s here
    · exact also s here
  · rw [List.getLast?_append]
    cases last : more.getLast? with
    | none => rw [Option.none_or, none, ← some, last, Option.any_none]
    | some s => rw [Option.some_or, ← some, last]

/-- What the parent has seen when it fails: it says that the entry is gone only
if it saw it, and an entry it may not read was there. -/
def Sees (n : Nat) (seen : List Sighting) (fault : Fault) (t : List Sighting) : Prop :=
  match fault with
  | .disappeared => Adds n true seen t
  | .permission => Adds n false seen t
  | _ => True

/-- A program that looks at entry `n` only. -/
def Looks {α : Type} (n : Nat) (m : Scan α) (Q : α → Prop) : Prop :=
  ∀ seen, Prog.Holds m (fun a t => Adds n false seen t ∧ Q a) (Sees n seen) (fun _ => False) seen

section
variable {α β : Type} {n : Nat} {m : Scan α} {Q : α → Prop}

theorem Sees.after {seen t u : List Sighting} {fault : Fault} (h : Adds n false seen t) (k : Sees n t fault u) :
    Sees n seen fault u := by
  cases fault with
  | disappeared => exact h.trans k
  | permission => exact h.trans k
  | os => trivial
  | operation message => trivial

theorem Looks.mono {Q' : α → Prop} (h : Looks n m Q) (weaken : ∀ a, Q a → Q' a) : Looks n m Q' := fun seen =>
  (h seen).mono (fun a _ known => ⟨known.1, weaken a known.2⟩) (fun _ _ h => h) fun _ h => h

theorem Looks.bind {m : Scan β} {f : β → Scan α} {P : β → Prop} (first : Looks n m P)
    (rest : ∀ b, P b → Looks n (f b) Q) : Looks n (m >>= f) Q := by
  intro seen
  refine Prog.holds_bind_of (first seen) fun b t known => ?_
  exact (rest b known.2 t).mono (fun _ _ later => ⟨known.1.trans later.1, later.2⟩)
    (fun _ _ later => Sees.after known.1 later) fun _ h => h

theorem looks_pure {a : α} (h : Q a) : Looks n (pure a : Scan α) Q := fun seen => ⟨Adds.refl n seen, h⟩

theorem looks_operation (message : String) : Looks n (Prog.raise (.operation message) : Scan α) Q := fun _ => trivial

theorem looks_exclusionFails : Looks n (exclusionFails : Scan α) Q := looks_operation _

theorem looks_attempt (answer : Except Errno α) : Looks n (attempt n answer) (fun a => answer = .ok a) := by
  intro seen
  cases answer with
  | ok a => exact ⟨Adds.refl n seen, rfl⟩
  | error error =>
    cases error with
    | noent => exact ⟨[⟨n, .failed .noent⟩], rfl, by simp, rfl⟩
    | srch => exact ⟨[⟨n, .failed .srch⟩], rfl, by simp, rfl⟩
    | denied => exact ⟨[⟨n, .failed .denied⟩], rfl, by simp, rfl⟩
    | other => exact trivial

theorem looks_closing {closes : Bool} (h : Looks n m Q) : Looks n (closing closes m) Q := by
  intro seen
  unfold closing
  rw [Prog.holds_ensure]
  cases closes with
  | true => exact (h seen).mono (fun _ _ h => h) (fun _ _ h => h) fun _ h => h
  | false => exact (h seen).mono (fun _ _ _ => trivial) (fun _ _ _ => trivial) fun _ h => h

/-! ## Reads -/

theorem looks_readLoop (maximum : Nat) (reads : Nat → Except Errno Nat) (count : Nat) (result left : Bytes) :
    Looks n (readLoop n maximum reads count result left) (fun content => content = result ++ left) := by
  -- What is left gets shorter with every read.
  induction size : left.length using Nat.strongRecOn generalizing count result left with
  | _ size ih =>
    rw [readLoop]
    split
    · exact looks_operation _
    · refine (looks_attempt _).bind fun given _ => ?_
      cases left with
      | nil => exact looks_pure (by simp)
      | cons byte rest =>
        dsimp only
        generalize min given (min 4096 (maximum + 1 - result.length)) - 1 = more
        refine (ih (rest.drop more).length ?_ _ _ _ rfl).mono fun content same => ?_
        · rw [← size, List.length_drop, List.length_cons]
          omega
        · rw [same, List.append_assoc, List.cons_append, List.take_append_drop]

theorem looks_readAt (maximum : Nat) (answers : FileReads) (content : Bytes) :
    Looks n (readAt n maximum answers content) (fun found => found = content) := by
  refine (looks_attempt _).bind fun _ _ => looks_closing ?_
  exact (looks_readLoop maximum answers.reads 0 [] content).mono fun _ same => same

theorem looks_inspectProcessFd (p : Process) (answers : Inspection) :
    Looks n (inspectProcessFd n p answers) (fun found => found = p.classification) := by
  refine (looks_attempt _).bind fun _ _ => ?_
  unfold Process.classification
  dsimp only
  split
  · exact looks_pure rfl
  · refine (looks_readAt _ _ _).bind fun command same => ?_
    subst same
    exact looks_pure rfl

theorem looks_readStatusLine (fields : Ids) (line : Bytes) : Looks n (readStatusLine fields line) (fun _ => True) := by
  unfold readStatusLine
  split
  · exact looks_pure trivial
  · split
    · split
      · exact looks_pure trivial
      · exact looks_exclusionFails
    · split
      · split
        · exact looks_pure trivial
        · exact looks_exclusionFails
      · exact looks_pure trivial

theorem looks_readStatus (status : Bytes) : Looks n (readStatus status) (fun _ => True) := by
  unfold readStatus
  generalize (⟨none, none⟩ : Ids) = fields
  induction linesFrom [] status generalizing fields with
  | nil => exact looks_pure trivial
  | cons line rest ih => exact (looks_readStatusLine fields line).bind fun next _ => ih next

theorem looks_abcProcessIdentity (answers : IdentityReads) : Looks n (abcProcessIdentity n answers) (fun _ => True) := by
  refine (looks_attempt _).bind fun before _ => ?_
  split
  · exact looks_exclusionFails
  · refine (looks_readAt _ _ _).bind fun status _ => (looks_readStatus status).bind fun fields _ => ?_
    split
    · exact looks_exclusionFails
    · refine (looks_attempt _).bind fun after _ => ?_
      split
      · exact looks_exclusionFails
      · exact looks_pure trivial

/-! ## The child -/

/-- A program that leaves the parent's record alone. -/
def Unseeing (m : Scan α) (Q : α → Prop) : Prop :=
  ∀ seen, Prog.Holds m (fun a t => t = seen ∧ Q a) (fun _ t => t = seen) (fun _ => False) seen

theorem Unseeing.bind {m : Scan β} {f : β → Scan α} {P : β → Prop} (first : Unseeing m P)
    (rest : ∀ b, P b → Unseeing (f b) Q) : Unseeing (m >>= f) Q := by
  intro seen
  refine Prog.holds_bind_of (first seen) fun b t known => ?_
  rw [known.1]
  exact rest b known.2 seen

theorem unseeing_pure {a : α} (h : Q a) : Unseeing (pure a : Scan α) Q := fun _ => ⟨rfl, h⟩

theorem unseeing_raise (fault : Fault) : Unseeing (Prog.raise fault : Scan α) Q := fun _ => rfl

theorem unseeing_call (answer : Option Errno) : Unseeing (call answer) (fun _ => True) := by
  intro seen
  cases answer with
  | none => exact ⟨rfl, trivial⟩
  | some error =>
    cases error with
    | denied => exact rfl
    | noent => exact rfl
    | srch => exact rfl
    | other => exact rfl

theorem unseeing_closing {closes : Bool} (h : Unseeing m Q) : Unseeing (closing closes m) Q := by
  intro seen
  unfold closing
  rw [Prog.holds_ensure]
  cases closes with
  | true => exact (h seen).mono (fun _ _ h => h) (fun _ _ h => h) fun _ h => h
  | false => exact (h seen).mono (fun _ _ h => h.1) (fun _ _ h => h) fun _ h => h

/-- What was read and what is left are all that came, and nothing is left after
the end. -/
structure Receiving.Holds (s : Receiving) (delivered : Bytes) : Prop where
  whole : s.output ++ s.left = delivered
  empty : s.eof = true → s.left = []

theorem unseeing_pollPipe {turn : Turn} {s : Receiving} {delivered : Bytes} (h : s.Holds delivered) :
    Unseeing (pollPipe turn s) (fun next => next.Holds delivered) := by
  unfold pollPipe
  split
  · exact unseeing_pure h
  · rename_i open_
    split
    · exact (unseeing_call _).bind fun _ _ => unseeing_pure h
    · exact (unseeing_call _).bind fun _ _ => unseeing_pure h
    · exact unseeing_pure h
    · rename_i size _ _
      unfold readPipe
      split
      · rename_i none
        exact unseeing_pure ⟨h.whole, fun _ => none⟩
      · rename_i byte rest left
        dsimp only
        generalize min size 2 - 1 = more
        split
        · exact unseeing_raise _
        · refine unseeing_pure ⟨?_, fun eof => absurd eof open_⟩
          rw [← h.whole, left, List.append_assoc, List.cons_append, List.take_append_drop]

theorem unseeing_pollChild {turn : Turn} {s : Receiving} {delivered : Bytes} (h : s.Holds delivered) :
    Unseeing (pollChild turn s) (fun next => next.Holds delivered) := by
  unfold pollChild
  split
  · exact unseeing_pure h
  · exact unseeing_pure ⟨h.whole, h.empty⟩
  · exact (unseeing_call _).bind fun _ _ => unseeing_pure h

theorem unseeing_done {s : Receiving} {delivered : Bytes} {code : Int} (h : s.Holds delivered) (eof : s.eof = true) :
    Unseeing (pure (code, s.output) : Scan (Int × Bytes)) (fun received => received.2 = delivered) := by
  refine unseeing_pure ?_
  rw [← h.whole, h.empty eof, List.append_nil]

theorem unseeing_receiveLoop {s : Receiving} {delivered : Bytes} {turns : List Turn} (h : s.Holds delivered) :
    Unseeing (receiveLoop s turns) (fun received => received.2 = delivered) := by
  induction turns generalizing s with
  | nil =>
    unfold receiveLoop
    split
    · rename_i eof
      exact unseeing_done h eof
    · exact unseeing_raise _
  | cons turn rest ih =>
    unfold receiveLoop
    split
    · rename_i eof
      exact unseeing_done h eof
    · split
      · exact unseeing_raise _
      · exact (unseeing_pollPipe h).bind fun _ polled => (unseeing_pollChild polled).bind fun _ waited => ih waited

theorem resultByte_injective {found other : Bool × Bool} (h : resultByte found = resultByte other) : found = other := by
  obtain ⟨_ | _, _ | _⟩ := found <;> obtain ⟨_ | _, _ | _⟩ := other <;> first | rfl | exact absurd h (by decide)

theorem resultByte_reports (found : Bool × Bool) : resultByte found ≠ 68 ∧ resultByte found ≠ 69 := by
  obtain ⟨_ | _, _ | _⟩ := found <;> decide

theorem processResult_eq {byte : UInt8} {found : Bool × Bool} (h : processResult byte = some found) :
    byte = resultByte found := by
  simpa [eq_comm] using List.find?_some h

/-- A result that came through the pipe is what the child found. -/
theorem delivered_found {p : Process} {child : Child} {found : Bool × Bool}
    (h : child.delivered n p = [resultByte found]) : found = p.classification := by
  unfold Child.delivered at h
  split at h
  · have byte : childByte n p child = resultByte found := by simpa using h
    unfold childByte at byte
    have reports := resultByte_reports found
    split at byte
    · split at byte
      · rename_i other run
        obtain rfl := resultByte_injective byte
        exact ((looks_inspectProcessFd p child.inspection []).ok (Prog.eq_of_fst run)).2
      · exact absurd byte.symm reports.1
      · exact absurd byte.symm reports.2
    · exact absurd byte.symm reports.2
  · cases h
  · rename_i bytes wrong _
    exact absurd h (wrong found)

theorem unseeing_inspectAsAbc (p : Process) (child : Child) :
    Unseeing (inspectAsAbc n p child) (fun found => found = p.classification) := by
  refine (unseeing_call _).bind fun _ _ => (unseeing_call _).bind fun _ _ => ?_
  refine Unseeing.bind (P := fun _ => True) (unseeing_closing (unseeing_pure trivial)) fun _ _ => ?_
  unfold receiveChild
  refine unseeing_closing (Unseeing.bind (unseeing_receiveLoop ⟨rfl, (fun no => nomatch no)⟩) fun received came => ?_)
  obtain ⟨code, output⟩ := received
  rw [List.nil_append] at came
  dsimp only at came ⊢
  split
  · rename_i byte
    split
    · exact unseeing_raise _
    · split
      · rename_i found result
        have whole : child.delivered n p = [resultByte found] := by rw [← came, processResult_eq result]
        exact unseeing_pure (delivered_found whole)
      · exact unseeing_raise _
  · exact unseeing_raise _

/-! ## One entry -/

theorem looks_inspectDenied (e : ProcEntry) : Looks n (inspectDenied n e) (fun found => found = e.process.classification) := by
  refine (looks_abcProcessIdentity e.first).bind fun identity _ => ?_
  refine Looks.bind (P := fun found => found = e.process.classification) ?_ fun found same =>
    (looks_abcProcessIdentity e.second).bind fun again _ => ?_
  · intro seen
    rw [Prog.holds_handle]
    refine (unseeing_inspectAsAbc e.process e.child seen).mono (fun found t known => ?_) (fun fault t known => ?_) fun _ h => h
    · rw [known.1]
      exact ⟨Adds.refl n seen, known.2⟩
    · rw [known]
      cases fault with
      | disappeared =>
        -- The report itself shows nothing: the parent looks again after it.
        have noted : Looks n (Prog.update fun seen => seen ++ [⟨n, .reported⟩]) (fun _ => True) := fun seen =>
          ⟨⟨[⟨n, .reported⟩], rfl, by simp, rfl⟩, trivial⟩
        exact (noted.bind fun _ _ => (looks_abcProcessIdentity e.second).bind fun _ _ => looks_exclusionFails) seen
      | permission => exact Adds.refl n seen
      | os => trivial
      | operation message => trivial
  · split
    · exact looks_exclusionFails
    · exact looks_pure same

/-- An entry is classified as it is, or the parent found it gone. -/
def Settled (n : Nat) (e : ProcEntry) (seen : List Sighting) (result : Option (Bool × Bool)) (t : List Sighting) : Prop :=
  match result with
  | some found => Adds n false seen t ∧ found = e.process.classification
  | none => Adds n true seen t

/-- The parent's own inspection, or the child's when the parent is denied. -/
theorem looks_inspected (e : ProcEntry) :
    Looks n (Prog.handle (inspectProcessFd n e.process e.direct) fun fault =>
      match fault with
      | .permission => inspectDenied n e
      | fault => Prog.raise fault) (fun found => found = e.process.classification) := by
  intro seen
  rw [Prog.holds_handle]
  refine (looks_inspectProcessFd e.process e.direct seen).mono (fun _ _ h => h) (fun fault t failed => ?_) fun _ h => h
  cases fault with
  | disappeared => exact failed
  | permission =>
    refine (looks_inspectDenied e t).mono (fun _ _ h => ⟨Adds.trans failed h.1, h.2⟩) (fun _ _ h => ?_) fun _ h => h
    exact Sees.after failed h
  | os => trivial
  | operation message => trivial

theorem holds_closing {closes : Bool} {m : Scan α} {Q : α → List Sighting → Prop} {seen : List Sighting}
    (h : Prog.Holds m Q (fun _ _ => True) (fun _ => False) seen) :
    Prog.Holds (closing closes m) Q (fun _ _ => True) (fun _ => False) seen := by
  unfold closing
  rw [Prog.holds_ensure]
  cases closes with
  | true => exact h
  | false => exact h.mono (fun _ _ _ => trivial) (fun _ _ _ => trivial) fun _ h => h

theorem inspectEntry_settles (n : Nat) (e : ProcEntry) (seen : List Sighting) :
    Prog.Holds (inspectEntry n e) (Settled n e seen) (fun _ _ => True) (fun _ => False) seen := by
  refine Prog.holds_bind_of (R := fun opened t => Adds n (!opened) seen t) ?_ fun opened t added => ?_
  · rw [Prog.holds_handle]
    have first : Looks n (do
        attempt n e.opened
        pure true) (fun opened => opened = true) := (looks_attempt _).bind fun _ _ => looks_pure rfl
    refine (first seen).mono (fun opened t known => ?_) (fun fault t failed => ?_) fun _ h => h
    · rw [known.2]
      exact known.1
    · cases fault with
      | disappeared => exact failed
      | permission => trivial
      | os => trivial
      | operation message => trivial
  cases opened with
  | false => exact added
  | true =>
    refine holds_closing ?_
    rw [Prog.holds_handle]
    refine Prog.holds_bind.2 ((looks_inspected e t).mono (fun found u known => ?_) (fun fault u failed => ?_) fun _ h => h)
    · exact ⟨added.trans known.1, known.2⟩
    · cases fault with
      | disappeared => exact Adds.trans added failed
      | permission => trivial
      | os => trivial
      | operation message => trivial

end

/-! ## The scan -/

/-- The parent found entry `n` gone, after any report of the child about it. -/
def Vanished (n : Nat) (log : List Sighting) : Prop :=
  (log.filter (·.entry = n)).getLast?.any (fun s => s.note.gone) = true

instance (n : Nat) (log : List Sighting) : Decidable (Vanished n log) :=
  inferInstanceAs (Decidable (_ = true))

/-- The processes among the entries from `n` on that did not vanish. -/
def remaining (log : List Sighting) (n : Nat) : List ProcEntry → List Process
  | [] => []
  | e :: rest =>
    if e.isDecimal ∧ ¬ Vanished n log then e.process :: remaining log (n + 1) rest else remaining log (n + 1) rest

/-- What the processes are, together. -/
def disjunction (found : Bool × Bool) (processes : List Process) : Bool × Bool :=
  (found.1 || processes.any fun p => p.classification.1, found.2 || processes.any fun p => p.classification.2)

/-- What was seen before and after an entry's own reads says nothing about it. -/
theorem vanished_iff {n : Nat} {gone : Bool} {seen t new : List Sighting} (earlier : ∀ s ∈ seen, s.entry < n)
    (added : Adds n gone seen t) (later : ∀ s ∈ new, n < s.entry) : Vanished n (t ++ new) ↔ gone = true := by
  obtain ⟨mine, rfl, here, rfl⟩ := added
  have own : (seen ++ mine ++ new).filter (·.entry = n) = mine := by
    have before : seen.filter (·.entry = n) = [] := by
      rw [List.filter_eq_nil_iff]
      intro s member
      simpa using Nat.ne_of_lt (earlier s member)
    have after : new.filter (·.entry = n) = [] := by
      rw [List.filter_eq_nil_iff]
      intro s member
      simpa using Nat.ne_of_gt (later s member)
    have all : mine.filter (·.entry = n) = mine := by
      rw [List.filter_eq_self]
      intro s member
      simpa using here s member
    rw [List.filter_append, List.filter_append, before, after, all, List.nil_append, List.append_nil]
  unfold Vanished
  rw [own]

theorem Adds.before {n : Nat} {gone : Bool} {seen t : List Sighting} (h : Adds n gone seen t)
    (earlier : ∀ s ∈ seen, s.entry < n) : ∀ s ∈ t, s.entry < n + 1 := by
  obtain ⟨mine, rfl, here, _⟩ := h
  intro s member
  rcases List.mem_append.mp member with before | own
  · exact Nat.lt_succ_of_lt (earlier s before)
  · rw [here s own]
    exact Nat.lt_succ_self n

theorem remaining_of_vanished {log : List Sighting} {n : Nat} {e : ProcEntry} {rest : List ProcEntry} (h : Vanished n log) :
    remaining log n (e :: rest) = remaining log (n + 1) rest := by
  simp [remaining, h]

theorem remaining_of_there {log : List Sighting} {n : Nat} {e : ProcEntry} {rest : List ProcEntry}
    (decimal : e.isDecimal = true) (h : ¬ Vanished n log) :
    remaining log n (e :: rest) = e.process :: remaining log (n + 1) rest := by
  simp [remaining, decimal, h]

theorem disjunction_cons {found : Bool × Bool} {unifi keytool : Bool} {p : Process} {rest : List Process}
    (classified : (unifi, keytool) = p.classification) :
    disjunction (found.1 || unifi, found.2 || keytool) rest = disjunction found (p :: rest) := by
  simp [disjunction, ← classified, Bool.or_assoc]

/-- The scan from entry `n` on, after reads of earlier entries only. -/
theorem processesFrom_settles (n : Nat) (found : Bool × Bool) (entries : List ProcEntry) (seen : List Sighting)
    (earlier : ∀ s ∈ seen, s.entry < n) :
    Prog.Holds (processesFrom n found entries)
      (fun result log => (∃ new, log = seen ++ new ∧ ∀ s ∈ new, n ≤ s.entry) ∧
        result = disjunction found (remaining log n entries))
      (fun _ _ => True) (fun _ => False) seen := by
  induction entries generalizing n found seen with
  | nil => exact ⟨⟨[], by simp, by simp⟩, by simp [disjunction, remaining]⟩
  | cons e rest ih =>
    unfold processesFrom
    split
    · rename_i decimal
      refine Prog.holds_bind_of (inspectEntry_settles n e seen) fun result t settled => ?_
      -- What this entry's reads left, before the scan of the rest.
      have extends_ {gone : Bool} (added : Adds n gone seen t) {log new : List Sighting} (more : log = t ++ new)
          (later : ∀ s ∈ new, n + 1 ≤ s.entry) : ∃ new, log = seen ++ new ∧ ∀ s ∈ new, n ≤ s.entry := by
        obtain ⟨mine, rfl, here, _⟩ := added
        refine ⟨mine ++ new, by rw [more, List.append_assoc], fun s member => ?_⟩
        rcases List.mem_append.mp member with own | after
        · exact Nat.le_of_eq (here s own).symm
        · exact Nat.le_of_succ_le (later s after)
      cases result with
      | none =>
        refine (ih (n + 1) found t (settled.before earlier)).mono (fun final log known => ?_) (fun _ _ h => h) fun _ h => h
        obtain ⟨⟨new, more, later⟩, same⟩ := known
        have gone : Vanished n log := by
          rw [more]
          exact (vanished_iff earlier settled later).mpr rfl
        exact ⟨extends_ settled more later, by rw [same, remaining_of_vanished gone]⟩
      | some inspected =>
        obtain ⟨unifi, keytool⟩ := inspected
        obtain ⟨added, classified⟩ := settled
        refine (ih (n + 1) _ t (added.before earlier)).mono (fun final log known => ?_) (fun _ _ h => h) fun _ h => h
        obtain ⟨⟨new, more, later⟩, same⟩ := known
        have there : ¬ Vanished n log := by
          rw [more, vanished_iff earlier added later]
          decide
        exact ⟨extends_ added more later, by rw [same, remaining_of_there decimal there, disjunction_cons classified]⟩
    · rename_i other
      have before : ∀ s ∈ seen, s.entry < n + 1 := fun s member => Nat.lt_succ_of_lt (earlier s member)
      refine (ih (n + 1) found seen before).mono (fun final log known => ?_) (fun _ _ h => h) fun _ h => h
      obtain ⟨⟨new, more, later⟩, same⟩ := known
      exact ⟨⟨new, more, fun s member => Nat.le_of_succ_le (later s member)⟩, by rw [same]; simp [remaining, other]⟩

/-- A scan that returns has found what the listed processes are, all of them but
those that a read of the parent found gone. -/
theorem process_scan_fails_closed (entries : List ProcEntry) (found : Bool × Bool) (log : List Sighting)
    (scan : processes entries [] = (.ok found, log)) :
    found = disjunction (false, false) (remaining log 0 entries) :=
  ((processesFrom_settles 0 (false, false) entries [] (by simp)).ok scan).2

def sampleReads : FileReads := ⟨.ok (), fun _ => .ok 4096, true⟩

/-- UniFi, under the identity of `abc`. -/
def sampleProcess : Process :=
  ⟨ascii "/usr/bin/java (deleted)", ascii "java\x00-jar\x00/usr/lib/unifi/lib/ace.jar\x00start\x00"⟩

def sampleIdentity : IdentityReads :=
  ⟨.ok ⟨5, 70, 1000, 1000⟩, sampleReads, ascii "Uid:\t1000 1000 1000 1000\nGid:\t1000 1000 1000 1000\n",
    .ok ⟨5, 70, 1000, 1000⟩⟩

def sampleChild (inspection : Inspection) : Child where
  pipe := none
  fork := none
  closesWriter := true
  dropped := true
  inspection := inspection
  delivery := .written
  turns := [⟨false, .ok true, .ok 2, .ok none⟩, ⟨false, .ok true, .ok 2, .ok (some 0)⟩]
  closesReader := true

def sampleEntry (name : String) (inspection : Inspection) (second : IdentityReads) : ProcEntry where
  name := name.toList
  process := sampleProcess
  opened := .ok ()
  direct := ⟨.error .denied, sampleReads⟩
  first := sampleIdentity
  child := sampleChild inspection
  second := second
  closes := true

/-- The first is what the child finds, the second is gone when the child and then
the parent look at it. -/
def sampleEntries : List ProcEntry :=
  [sampleEntry "70" ⟨.ok (), sampleReads⟩ sampleIdentity,
    sampleEntry "71" ⟨.error .noent, sampleReads⟩ { sampleIdentity with before := .error .srch }]

theorem sample_scan_finds_unifi :
    processes sampleEntries [] = (.ok (true, false),
      [⟨0, .failed .denied⟩, ⟨1, .failed .denied⟩, ⟨1, .reported⟩, ⟨1, .failed .srch⟩]) ∧
    (true, false) = disjunction (false, false) (remaining
      [⟨0, .failed .denied⟩, ⟨1, .failed .denied⟩, ⟨1, .reported⟩, ⟨1, .failed .srch⟩] 0 sampleEntries) := by
  have scan : processes sampleEntries [] = (.ok (true, false),
      [⟨0, .failed .denied⟩, ⟨1, .failed .denied⟩, ⟨1, .reported⟩, ⟨1, .failed .srch⟩]) := by decide +kernel
  exact ⟨scan, process_scan_fails_closed sampleEntries _ _ scan⟩

end CertRenewer.Processes
