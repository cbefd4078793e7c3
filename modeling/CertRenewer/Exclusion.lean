import CertRenewer.Preservation

/-!
# No writer beside the executor

The UniFi JVM writes the keystore it runs on. The executor changes a store only
after it has proven that nothing else can, starts the service only over a store
that its journal names, and gives its lock up over a stopped service only after
it has looked once more.
-/

namespace CertRenewer

open Crash

/-! ## What a trace knows of the service -/

/-- In this operation the service was proven stopped, and no start was issued
since. -/
def ProvenStopped : List Entry → Prop
  | [] => False
  | e :: older =>
    match e.event with
    | .provenStopped => e.service = .down
    | .startIssued | .acquired => False
    | _ => ProvenStopped older

/-- In this operation a stop was issued, and no start since. -/
def Quiesced : List Entry → Prop
  | [] => False
  | e :: older =>
    match e.event with
    | .stopIssued => True
    | .startIssued | .acquired => False
    | _ => Quiesced older

/-- The lock was taken and not given up since. -/
def Holding : List Entry → Prop
  | [] => False
  | e :: older =>
    match e.event with
    | .acquired => True
    | .released => False
    | _ => Holding older

/-- The disk is as it was when this operation took the lock. -/
def Unmoved (d : Disk) : List Entry → Prop
  | [] => False
  | e :: older =>
    match e.event with
    | .acquired => e.disk = d
    | _ => Unmoved d older

section
variable (g : Setting)

/-- The canonical store is the journal's old one, or its issued one. -/
def Journal.Shown (j : Journal) (d : Disk) : Prop :=
  ∃ i id, d.dir.visible .canonical = some i ∧ g.host.Reads (d.files i).content id ∧
    ((j.oldInode = ⟨g.dev, i⟩ ∧ id = j.old) ∨ (j.stageInode = some ⟨g.dev, i⟩ ∧ j.issued = some id))

/-- Whatever a power loss drops, this journal is left. -/
def Anchored (d : Disk) : Prop := ∃ l, ∀ ns, d.dir.Image ns → ns .journal = some l

/-- The service may be started: the last thing done was a listing of the
canonical store, which is one that the journal names. The journal's text is
synced; its name is durable, unless the operation found it as it is. -/
structure Resumable (e : Entry) (older : List Entry) : Prop where
  stopped : ProvenStopped older
  journal : ∃ l j, e.disk.dir.visible .journal = some l ∧ (e.disk.files l).content = .journal j ∧
    (e.disk.files l).stored = .journal j ∧ e.process.journal = some j ∧ j.Shown g e.disk
  durable : Anchored e.disk ∨ Unmoved e.disk older
  read : ∃ r rest, older = r :: rest ∧ r.event = .keytool .canonical .list ∧ r.disk = e.disk

/-- The lock may be given up: no keytool is left, and a service that was stopped
and not started again was just proven stopped. -/
structure Releasable (e : Entry) (older : List Entry) : Prop where
  keytool : e.service.keytool = false
  stopped : Quiesced older → ∃ p rest, older = p :: rest ∧ p.event = .provenStopped ∧ p.service = .down

structure Orderly (e : Entry) (older : List Entry) : Prop where
  stores : e.event.stores = true → ProvenStopped older
  starts : e.event = .startIssued → Resumable g e older
  releases : e.event = .released → Releasable e older
  stops : e.event = .stopIssued →
    e.disk.dir.visible .journal ≠ none ∧ (Anchored e.disk ∨ Unmoved e.disk older)

def Excluded : List Entry → Prop
  | [] => True
  | e :: older => Orderly g e older ∧ Excluded older

/-- In an operation that began at `w`: what was done so far was in order, and the
executor object knows what it has to leave behind. -/
structure Poised (w t : World) : Prop where
  excluded : Excluded g t.trace
  expects : t.process.locked = true → Quiesced t.trace → t.process.expectStopped = true
  holding : ∃ new, t.trace = new ++ w.trace ∧ (Holding new → t.process.locked = true)

/-- The service is proven stopped, and stays so until the executor starts it. -/
structure Halted (w t : World) : Prop extends Poised g w t where
  stopped : ProvenStopped t.trace
  expect : t.process.expectStopped = true

/-- The operation is over: the lock it took is given up, or kept for good. -/
structure Closed (w t : World) : Prop where
  excluded : Excluded g t.trace
  holding : ∃ new, t.trace = new ++ w.trace ∧ (Holding new → t.held = true)

end

/-- What may happen at any time. -/
def Event.mild (e : Event) : Bool :=
  !e.stores && match e with
    | .startIssued | .stopIssued | .acquired | .released => false
    | _ => true

/-- What may happen while the service is proven stopped. -/
def Entry.Halting (e : Entry) : Prop :=
  e.event ≠ .startIssued ∧ e.event ≠ .acquired ∧ e.event ≠ .released ∧
    (e.event = .provenStopped → e.service = .down) ∧ e.event ≠ .stopIssued

section
variable {g : Setting} {x : Session} {w t u : World} {α : Type}

/-! ## What the rules keep -/

theorem Excluded.entry {newer older : List Entry} {e : Entry} (h : Excluded g (newer ++ e :: older)) :
    Orderly g e older := by
  induction newer with
  | nil => exact h.1
  | cons _ _ ih => exact ih h.2

theorem Event.mild_of_idle {e : Event} (h : e.idle = true) : e.mild = true := by
  simp only [Event.idle, Bool.and_eq_true] at h
  simp only [Event.mild, Bool.and_eq_true]
  refine ⟨h.2, ?_⟩
  have calm := h.1
  unfold Event.calm at calm
  split at calm
  · cases calm
  · cases calm
  · cases calm
  · cases calm
  · cases calm
  · split <;> simp_all

/-- A mild event asks for nothing. -/
theorem Event.mild_iff {e : Event} (h : e.mild = true) : e.stores = false ∧ e ≠ .startIssued ∧
    e ≠ .stopIssued ∧ e ≠ .acquired ∧ e ≠ .released := by
  simp only [Event.mild, Bool.and_eq_true, Bool.not_eq_true'] at h
  refine ⟨h.1, ?_, ?_, ?_, ?_⟩ <;>
  · rintro rfl
    simp at h

theorem orderly_of_mild {e : Entry} {older : List Entry} (h : e.event.mild = true) : Orderly g e older := by
  obtain ⟨stores, start, stop, _, release⟩ := Event.mild_iff h
  refine ⟨fun no => ?_, fun no => absurd no start, fun no => absurd no release,
    fun no => absurd no stop⟩
  rw [stores] at no
  cases no

theorem quiesced_cons {e : Entry} {older : List Entry} (other : e.event ≠ .stopIssued)
    (h : Quiesced (e :: older)) : Quiesced older := by
  unfold Quiesced at h
  split at h
  · exact absurd ‹_› other
  · exact h.elim
  · exact h.elim
  · exact h

theorem holding_cons {e : Entry} {older : List Entry} (other : e.event ≠ .acquired)
    (h : Holding (e :: older)) : Holding older := by
  unfold Holding at h
  split at h
  · exact absurd ‹_› other
  · exact h.elim
  · exact h

theorem provenStopped_cons {e : Entry} {older : List Entry} (halting : e.Halting)
    (h : ProvenStopped older) : ProvenStopped (e :: older) := by
  unfold ProvenStopped
  split
  · exact halting.2.2.2.1 ‹_›
  · exact absurd ‹_› halting.1
  · exact absurd ‹_› halting.2.1
  · exact h

/-- Mild steps keep what is known. -/
theorem Poised.marks (h : Poised g w t) (m : Marks (fun e => e.event.mild = true) t u) :
    Poised g w u := by
  obtain ⟨new, trace, mild⟩ := m.new
  have kept : Excluded g (new ++ t.trace) ∧ (Quiesced (new ++ t.trace) → Quiesced t.trace) := by
    clear trace
    induction new with
    | nil => exact ⟨h.excluded, id⟩
    | cons e new ih =>
      obtain ⟨excluded, back⟩ := ih fun e he => mild e (by simp [he])
      have here := mild e (by simp)
      exact ⟨⟨orderly_of_mild here, excluded⟩,
        fun quiesced => back (quiesced_cons (Event.mild_iff here).2.2.1 quiesced)⟩
  obtain ⟨old, began, holding⟩ := h.holding
  refine ⟨by rw [trace]; exact kept.1, fun locked quiesced => ?_, new ++ old, ?_, fun held => ?_⟩
  · rw [m.expectStopped]
    rw [trace] at quiesced
    exact h.expects (m.locked.symm.trans locked) (kept.2 quiesced)
  · rw [trace, began, List.append_assoc]
  · rw [m.locked]
    refine holding ?_
    clear trace kept
    induction new with
    | nil => exact held
    | cons e new ih =>
      refine ih (fun e he => mild e (by simp [he])) ?_
      exact holding_cons (Event.mild_iff (mild e (by simp))).2.2.2.1 held

/-- So do all steps but a start, while the service is stopped. -/
theorem Halted.marks (h : Halted g w t) (m : Marks Entry.Halting t u) : Halted g w u := by
  obtain ⟨new, trace, halting⟩ := m.new
  have kept : Excluded g (new ++ t.trace) ∧ ProvenStopped (new ++ t.trace) := by
    clear trace
    induction new with
    | nil => exact ⟨h.excluded, h.stopped⟩
    | cons e new ih =>
      obtain ⟨excluded, stopped⟩ := ih fun e he => halting e (by simp [he])
      have here := halting e (by simp)
      exact ⟨⟨⟨fun _ => stopped, fun no => absurd no here.1, fun no => absurd no here.2.2.1,
        fun no => absurd no here.2.2.2.2⟩, excluded⟩, provenStopped_cons here stopped⟩
  obtain ⟨old, began, holding⟩ := h.holding
  refine ⟨⟨by rw [trace]; exact kept.1, fun _ _ => m.expectStopped.trans h.expect, new ++ old, ?_,
    fun held => ?_⟩, by rw [trace]; exact kept.2, m.expectStopped.trans h.expect⟩
  · rw [trace, began, List.append_assoc]
  · rw [m.locked]
    refine holding ?_
    clear trace kept
    induction new with
    | nil => exact held
    | cons e new ih =>
      exact ih (fun e he => halting e (by simp [he])) (holding_cons (halting e (by simp)).2.1 held)

theorem Logs.poised {m : Exec α} (h : Logs (fun e => e.event.mild = true) m) (now : Poised g w t) :
    Prog.Holds m (fun _ => Poised g w) (fun _ => Poised g w) (Poised g w) t :=
  (h t).mono (fun _ _ m => now.marks m.1) (fun _ _ m => now.marks m) fun _ m => now.marks m

theorem Logs.halted {m : Exec α} (h : Logs Entry.Halting m) (now : Halted g w t) :
    Prog.Holds m (fun _ => Halted g w) (fun _ => Halted g w) (Halted g w) t :=
  (h t).mono (fun _ _ m => now.marks m.1) (fun _ _ m => now.marks m) fun _ m => now.marks m

/-! ## Stopping the service -/

theorem Poised.proved (h : Poised g w t) (expect : t.process.expectStopped = true) {d : Disk} {p : Process}
    (m : Marks (fun e => e = ⟨.provenStopped, d, .down, p⟩) t u)
    (trace : u.trace = ⟨.provenStopped, d, .down, p⟩ :: t.trace) : Halted g w u where
  toPoised := h.marks (m.mono (by rintro _ rfl; rfl))
  stopped := by
    rw [trace]
    exact rfl
  expect := m.expectStopped.trans expect

theorem stopped_halts (h : Poised g w t) (expect : t.process.expectStopped = true) :
    Prog.Holds (stopped x) (fun _ => Halted g w) (fun _ => Poised g w) (Poised g w) t :=
  (stopped_proves x t).mono (fun _ _ m => h.proved expect m.2.1 m.2.2)
    (fun _ _ m => h.marks (m.mono fun _ no => no.elim)) fun _ m => h.marks (m.mono fun _ no => no.elim)

/-- One primitive step, where what held before it does not depend on the step
counter. -/
theorem holds_ticked {K I : World → Prop} {m : Exec α} {S : α → World → Prop}
    (now : K { t with tick := t.tick + 1 }) (stop : ∀ u, K u → I u)
    (effect : ∀ u, K u → Prog.Holds m S (fun _ => I) I u) (after : ∀ a u, S a u → I u) :
    Prog.Holds (primitive x m) S (fun _ => I) I t :=
  Prog.holds_interrupted _ (effect _ now) (fun _ => ⟨stop _ now, stop _ now⟩)
    fun _ a u hs => ⟨after a u hs, after a u hs⟩

/-- The journal that a stop is issued under: its name is durable, or the
operation found it as it is. -/
def Backed (t : World) : Prop :=
  t.disk.dir.visible .journal ≠ none ∧ (Anchored t.disk ∨ Unmoved t.disk t.trace)

theorem stop_halts (h : Poised g w t) (expect : t.process.expectStopped = true) (backed : Backed t) :
    Prog.Holds (stop x) (fun _ => Halted g w) (fun _ => Poised g w) (Poised g w) t := by
  have keep : Prog.Holds (noKeytool x) (fun _ u => Poised g w u ∧ u.process.expectStopped = true ∧
      Backed u) (fun _ => Poised g w) (Poised g w) t :=
    ((reads_noKeytool x t).and (logs_noKeytool (P := fun _ => False) x t)).mono
      (fun _ u m => ⟨h.marks (m.2.1.mono fun _ no => no.elim), m.2.1.expectStopped.trans expect, by
        rw [Backed, m.1.1.disk, m.2.1.silent]
        exact backed⟩)
      (fun _ _ m => h.marks (m.2.mono fun _ no => no.elim)) fun _ m => h.marks (m.2.mono fun _ no => no.elim)
  refine Prog.holds_bind_of keep fun _ t ⟨ht, expect, backed⟩ => ?_
  refine Prog.holds_bind_of (R := fun _ u => Poised g w u ∧ u.process.expectStopped = true)
    (holds_ticked (K := fun u => Poised g w u ∧ u.process.expectStopped = true ∧ Backed u)
      ⟨{ ht with }, expect, backed⟩ (fun _ h => h.1) (fun u ⟨hu, expect, backed⟩ => ?_) fun _ _ h => h.1)
    fun _ t ⟨ht, expect⟩ => stopped_halts ht expect
  refine ⟨⟨⟨?_, hu.excluded⟩, fun _ _ => expect, ?_⟩, expect⟩
  · exact ⟨(fun no => nomatch no), (fun no => nomatch no), (fun no => nomatch no), fun _ => backed⟩
  · obtain ⟨new, trace, holding⟩ := hu.holding
    refine ⟨⟨.stopIssued, u.disk, u.service, u.process⟩ :: new, ?_, holding⟩
    change _ :: u.trace = _
    rw [trace]
    rfl

/-! ## Taking the lock and giving it up -/

theorem acquire_poised (start : Poised g w t) :
    Prog.Holds (acquire x)
      (fun _ t => Poised g w t ∧ t.process.locked = true ∧ Unmoved t.disk t.trace)
      (fun _ => Poised g w) (Poised g w) t := by
  rw [acquire_eq]
  refine Prog.holds_bind_of ((logs_findLock x (fun _ _ _ _ => rfl) fun _ _ _ => rfl).poised start)
    fun _ t ht => ?_
  refine Prog.holds_bind_of (R := fun _ t => Poised g w t ∧ t.process.locked = true ∧
      Unmoved t.disk t.trace) (holds_ticked (K := Poised g w) { ht with } (fun _ h => h)
    (fun u hu => ?_) fun _ _ h => h.1) fun _ t ⟨ht, locked, unmoved⟩ => ?_
  · rw [Prog.holds_bind, Prog.holds_read, Prog.holds_bind, Prog.holds_guard]
    refine ⟨fun _ => ⟨⟨⟨?_, hu.excluded⟩, fun _ no => False.elim no, ?_⟩, rfl, rfl⟩, fun _ => hu⟩
    · exact ⟨(fun no => nomatch no), (fun no => nomatch no), (fun no => nomatch no), fun no => nomatch no⟩
    · obtain ⟨new, trace, _⟩ := hu.holding
      refine ⟨⟨.acquired, u.disk, u.service, u.process⟩ :: new, ?_, fun _ => rfl⟩
      change _ :: u.trace = _
      rw [trace]
      rfl
  · refine ((reads_noKeytool x t).and (logs_noKeytool (P := fun _ => False) x t)).mono
      (fun _ u m => ⟨ht.marks (m.2.1.mono fun _ no => no.elim), m.2.1.locked.trans locked, ?_⟩)
      (fun _ u m => ht.marks (m.2.mono fun _ no => no.elim))
      fun u m => ht.marks (m.2.mono fun _ no => no.elim)
    rw [m.2.1.silent, m.1.1.disk]
    exact unmoved

theorem release_closes (h : Poised g w t) :
    Prog.Holds (release x) (fun _ => Closed g w) (fun _ => Closed g w)
      (fun u => Excluded g u.trace) t := by
  unfold release
  rw [Prog.holds_bind, Prog.holds_read]
  split
  case isFalse free =>
    obtain ⟨new, trace, holding⟩ := h.holding
    exact ⟨h.excluded, new, trace, fun held => absurd (holding held) free⟩
  case isTrue locked =>
    -- what the last look leaves: no keytool, and a proof if one was due
    have look : Prog.Holds (do noKeytool x; if t.process.expectStopped then stopped x)
        (fun _ u => Poised g w u ∧ u.service.keytool = false ∧
          (t.process.expectStopped = true → ∃ p rest, u.trace = p :: rest ∧
            p.event = .provenStopped ∧ p.service = .down) ∧
          (Quiesced u.trace → t.process.expectStopped = true))
        (fun _ => Poised g w) (Poised g w) t := by
      refine Prog.holds_bind_of (((reads_noKeytool x t).and
        (logs_noKeytool (P := fun _ => False) x t)).mono (fun _ u m =>
        (⟨m.1.1, m.2.1, m.1.2⟩ : Quiet t u ∧ Marks (fun _ => False) t u ∧ t.service.keytool = false))
        (fun _ u m => h.marks (m.2.mono fun _ no => no.elim))
        fun u m => h.marks (m.2.mono fun _ no => no.elim)) fun _ u ⟨quiet, marks, gone⟩ => ?_
      have hu : Poised g w u := h.marks (marks.mono fun _ no => no.elim)
      have due (quiesced : Quiesced u.trace) : t.process.expectStopped = true := by
        rw [marks.silent] at quiesced
        exact h.expects locked quiesced
      split
      · rename_i expected
        refine (stopped_proves x u).mono (fun _ v m => ?_)
          (fun _ v m => hu.marks (m.mono fun _ no => no.elim))
          fun v m => hu.marks (m.mono fun _ no => no.elim)
        refine ⟨hu.marks (m.2.1.mono (by rintro _ rfl; rfl)), ?_, fun _ => ⟨_, _, m.2.2, rfl, rfl⟩,
          fun _ => expected⟩
        rw [m.1.service, quiet.service]
        exact gone
      · rename_i unexpected
        refine ⟨hu, ?_, fun expected => absurd expected unexpected, due⟩
        rw [quiet.service]
        exact gone
    rw [Prog.holds_bind, Prog.holds_handle]
    refine look.mono (fun _ u ⟨hu, gone, last, due⟩ => ?_) (fun _ u hu => ?_) fun u hu => hu.excluded
    · refine ⟨⟨⟨(fun no => nomatch no), (fun no => nomatch no), fun _ => ⟨gone, fun quiesced => ?_⟩,
        fun no => nomatch no⟩, hu.excluded⟩, ?_⟩
      · exact last (due quiesced)
      · obtain ⟨new, trace, _⟩ := hu.holding
        refine ⟨⟨.released, u.disk, u.service, u.process⟩ :: new, ?_, fun no => False.elim no⟩
        change _ :: u.trace = _
        rw [trace]
        rfl
    · obtain ⟨new, trace, _⟩ := hu.holding
      exact ⟨hu.excluded, new, trace, fun _ => rfl⟩

/-- A locked operation is in order when its body is. -/
theorem locked_closes {body : Exec α} (inv : Inv g t) (journal : t.process.journal = none)
    (start : Poised g w t)
    (inside : ∀ u, Entered g u → u.process.locked = true → Poised g w u → Unmoved u.disk u.trace →
      Prog.Holds body (fun _ => Poised g w) (fun _ => Poised g w) (fun v => Excluded g v.trace) u) :
    Prog.Holds (locked x body) (fun _ => Closed g w) (fun _ => Closed g w)
      (fun u => Excluded g u.trace) t := by
  unfold locked
  rw [Prog.holds_ensure]
  have run : Prog.Holds (mask "UniFi executor operation failed; recovery may be required"
      (do acquire x; body)) (fun _ => Poised g w) (fun _ => Poised g w) (fun u => Excluded g u.trace)
      t := by
    unfold mask
    rw [Prog.holds_handle, Prog.holds_bind]
    refine ((acquire_keeps x inv journal).and (acquire_poised start)).mono (fun _ u hu => ?_)
      (fun _ u hu => hu.2) fun u hu => hu.2.excluded
    exact inside u hu.1 hu.2.2.1 hu.2.1 hu.2.2.2
  exact run.mono (fun _ t ht => release_closes ht) (fun _ t ht => release_closes ht) fun t ht => ht

/-! ## Starting the service -/

/-- The journal in memory is on disk, and names the canonical store. -/
structure Established (g : Setting) (j : Journal) (t : World) : Prop where
  memory : t.process.journal = some j
  record : ∃ l, t.disk.dir.visible .journal = some l ∧ (t.disk.files l).content = .journal j ∧
    (t.disk.files l).stored = .journal j
  shown : j.Shown g t.disk
  durable : Anchored t.disk ∨ Unmoved t.disk t.trace

theorem Unmoved.append {d : Disk} {new tr : List Entry} (h : Unmoved d tr)
    (other : ∀ e ∈ new, e.event ≠ .acquired) : Unmoved d (new ++ tr) := by
  induction new with
  | nil => exact h
  | cons e new ih =>
    have rest := ih fun e he => other e (by simp [he])
    change Unmoved d (e :: (new ++ tr))
    unfold Unmoved
    split
    · exact absurd ‹_› (other e (by simp))
    · exact rest

theorem Unmoved.notes {P : Entry → Prop} (h : Unmoved t.disk t.trace) (same : u.disk = t.disk)
    (m : Notes P t u) (other : ∀ e, P e → e.event ≠ .acquired) : Unmoved u.disk u.trace := by
  obtain ⟨new, trace, entries⟩ := m
  rw [same, trace]
  exact h.append fun e he => other e (entries e he)

theorem Established.look {j : Journal} {P : Entry → Prop} (h : Established g j t) (q : Quiet t u)
    (m : Marks P t u) (other : ∀ e, P e → e.event ≠ .acquired) : Established g j u where
  memory := by rw [q.process]; exact h.memory
  record := by rw [q.disk]; exact h.record
  shown := by rw [q.disk]; exact h.shown
  durable := by
    rcases h.durable with anchored | unmoved
    · rw [q.disk]
      exact Or.inl anchored
    · exact Or.inr (unmoved.notes q.disk m.new other)

/-- A collection ends its record with its listing. -/
theorem collect_head (n : Name) : Prog.Holds (collect x n)
    (fun _ u => ∃ r rest, u.trace = r :: rest ∧ r.event = .keytool n .list ∧ r.disk = t.disk)
    (fun _ _ => True) (fun _ => True) t := by
  refine (((reads_collect x n t).and (logs_collect (P := fun e => e.event = .keytool n .list) x n
    (fun _ _ _ => rfl) t)).and (collect_lists n)).mono (fun _ u m => ?_) (fun _ _ _ => trivial)
    fun _ _ => trivial
  obtain ⟨⟨⟨quiet, _⟩, marks, _⟩, e, new, trace, member, _⟩ := m
  obtain ⟨new', trace', entries⟩ := quiet.toSteady.trace
  obtain ⟨new'', trace'', listed⟩ := marks.new
  obtain rfl : new = new' := List.append_cancel_right (trace.symm.trans trace')
  obtain rfl : new = new'' := List.append_cancel_right (trace.symm.trans trace'')
  cases new with
  | nil => cases member
  | cons r rest => exact ⟨r, rest ++ t.trace, trace, listed r (by simp), (entries r (by simp)).2.1⟩

/-- The service may be started now. -/
structure Armed (g : Setting) (j : Journal) (w t : World) : Prop extends Halted g w t where
  established : Established g j t
  read : ∃ r rest, t.trace = r :: rest ∧ r.event = .keytool .canonical .list ∧ r.disk = t.disk

theorem Armed.hush {j : Journal} (h : Armed g j w t) (q : Quiet t u) (m : Marks (fun _ => False) t u) :
    Armed g j w u where
  toHalted := h.toHalted.marks (m.mono fun _ no => no.elim)
  established := h.established.look q m fun _ no => no.elim
  read := by
    rw [m.silent, q.disk]
    exact h.read

/-- A step that only looks and puts nothing on record. -/
theorem Armed.keeps {j : Journal} {m : Exec α} {S : α → View → Prop} (h : Armed g j w t) (r : Reads m S)
    (silent : Logs (fun _ => False) m) :
    Prog.Holds m (fun a u => Armed g j w u ∧ S a u.view) (fun _ => Poised g w) (Poised g w) t :=
  ((r t).and (silent t)).mono (fun _ u m => ⟨h.hush m.1.1 m.2.1, by rw [m.1.1.view]; exact m.1.2⟩)
    (fun _ u m => (h.hush m.1 m.2).toPoised) fun u m => (h.hush m.1 m.2).toPoised

theorem Armed.started {j : Journal} (h : Armed g j w t) :
    Poised g w (t.log .startIssued) ∧ ¬ Quiesced (t.log .startIssued).trace := by
  obtain ⟨l, seen, content, stored⟩ := h.established.record
  refine ⟨⟨⟨⟨(fun no => nomatch no), fun _ => ?_, (fun no => nomatch no), fun no => nomatch no⟩,
    h.excluded⟩, fun _ no => False.elim no, ?_⟩, fun no => False.elim no⟩
  · exact ⟨h.stopped, ⟨l, j, seen, content, stored, h.established.memory, h.established.shown⟩,
      h.established.durable, h.read⟩
  · obtain ⟨new, trace, holding⟩ := h.holding
    refine ⟨⟨.startIssued, t.disk, t.service, t.process⟩ :: new, ?_, holding⟩
    change _ :: t.trace = _
    rw [trace]
    rfl

theorem start_poised {j : Journal} (h : Armed g j w t) :
    Prog.Holds (start x) (fun _ u => Poised g w u ∧ ¬ Quiesced u.trace) (fun _ => Poised g w)
      (Poised g w) t := by
  have silent {β : Type} {m : Exec β} (l : Logs (fun _ => False) m) {v : World}
      (hv : Poised g w v ∧ ¬ Quiesced v.trace) :
      Prog.Holds m (fun _ v => Poised g w v ∧ ¬ Quiesced v.trace) (fun _ => Poised g w) (Poised g w) v :=
    (l v).mono (fun _ _ m => ⟨hv.1.marks (m.1.mono fun _ no => no.elim), by rw [m.1.silent]; exact hv.2⟩)
      (fun _ _ m => hv.1.marks (m.mono fun _ no => no.elim))
      fun _ m => hv.1.marks (m.mono fun _ no => no.elim)
  refine Prog.holds_bind_of (h.keeps (reads_noKeytool x) (logs_noKeytool x)) fun _ u ⟨hu, _⟩ => ?_
  refine Prog.holds_bind_of (R := fun _ v => Poised g w v ∧ ¬ Quiesced v.trace)
    (holds_ticked (K := Armed g j w) (hu.hush (quiet_tick u) ⟨⟨[], rfl, by simp⟩, rfl, rfl, rfl⟩)
      (fun _ h => h.toPoised) (fun v hv => ⟨{ hv.started.1 with }, hv.started.2⟩) fun _ _ h => h.1)
    fun _ v hv => ?_
  refine Prog.holds_bind_of (silent (logs_running x) hv) fun _ v hv => ?_
  refine Prog.holds_bind_of (silent (logs_demand _ _) hv) fun _ v hv => ?_
  refine Prog.holds_bind_of (silent (logs_processes x) hv) fun _ v hv => ?_
  exact silent (logs_demand _ _) hv

theorem resumeService_poised {j : Journal} (startup : Bool) (h : Poised g w t)
    (expect : t.process.expectStopped = true) (established : Established g j t) :
    Prog.Holds (resumeService x startup) (fun _ => Poised g w) (fun _ => Poised g w) (Poised g w) t := by
  have look {β : Type} {m : Exec β} {S : β → View → Prop} (r : Reads m S)
      (l : Logs (fun e => e.event = .keytool .canonical .list) m) {v : World}
      (hv : Halted g w v ∧ Established g j v) :
      Prog.Holds m (fun _ u => (Halted g w u ∧ Established g j u) ∧ u.disk = v.disk)
        (fun _ => Poised g w) (Poised g w) v := by
    have halting (e : Entry) (listed : e.event = .keytool .canonical .list) : e.Halting := by
      simp [Entry.Halting, listed]
    have other (e : Entry) (listed : e.event = .keytool .canonical .list) : e.event ≠ .acquired := by
      simp [listed]
    exact ((r v).and (l v)).mono
      (fun _ u m => ⟨⟨hv.1.marks (m.2.1.mono halting), hv.2.look m.1.1 m.2.1 other⟩, m.1.1.disk⟩)
      (fun _ u m => (hv.1.marks (m.2.mono halting)).toPoised)
      fun u m => (hv.1.marks (m.2.mono halting)).toPoised
  refine Prog.holds_bind_of ((stopped_proves x t).mono (fun _ u m =>
    (⟨h.proved expect m.2.1 m.2.2, established.look m.1 m.2.1 (by rintro _ rfl; simp)⟩ :
      Halted g w u ∧ Established g j u)) (fun _ u m => h.marks (m.mono fun _ no => no.elim))
    fun u m => h.marks (m.mono fun _ no => no.elim)) fun _ t ht => ?_
  refine Prog.holds_bind_of (look (reads_status x .canonical) (logs_status x .canonical) ht)
    fun before t looked => ?_
  have ht := looked.1
  refine Prog.holds_bind_of (((look (reads_collect x .canonical)
    (logs_collect x .canonical fun _ _ _ => rfl) ht).and (collect_head .canonical)).mono
    (fun _ u m => (⟨m.1.1.1, m.1.1.2, by rw [m.1.2]; exact m.2⟩ : Armed g j w u))
    (fun _ _ m => m.1) fun _ m => m.1) fun state t ht => ?_
  refine Prog.holds_bind_of (ht.keeps (reads_lift _) (logs_lift _)) fun seen t held => ?_
  have ht := held.1
  refine Prog.holds_bind_of (ht.keeps reads_getJournal logs_getJournal) fun record t held => ?_
  have ht := held.1
  have tail (t : World) (ht : Poised g w t) : Prog.Holds (do
      same x .canonical before
      let again ← lift (publicId x.host.lib (← collect x .canonical))
      demand (again = seen) "canonical changed while restoring service") (fun _ => Poised g w)
      (fun _ => Poised g w) (Poised g w) t := by
    refine Prog.holds_bind_of ((logs_same x .canonical before).poised ht) fun _ t ht => ?_
    refine Prog.holds_bind_of ((logs_collect x .canonical fun _ _ _ => rfl).poised ht) fun _ t ht => ?_
    refine Prog.holds_bind_of ((logs_lift _).poised ht) fun _ t ht => ?_
    exact (logs_demand _ _).poised ht
  split
  · refine Prog.holds_bind_of (start_poised ht) fun _ t started => ?_
    obtain ⟨ht, restless⟩ := started
    rw [Prog.holds_bind]
    exact tail _ ⟨ht.excluded, fun _ quiesced => absurd quiesced restless, ht.holding⟩
  · exact tail t ht.toPoised

/-! ## Installations -/

theorem always_mild (e : Event) (h : e.idle = true) : Always (fun e => e.event.mild = true) e :=
  fun _ _ _ => Event.mild_of_idle h

theorem always_halting (e : Event) (h : e.calm = true) : Always Entry.Halting e := by
  intro _ _ _
  refine ⟨?_, ?_, ?_, ?_, ?_⟩ <;>
  · rintro rfl
    cases h

theorem proven_halting : Proven Entry.Halting := fun _ _ => by simp [Entry.Halting]

theorem phase_poised (p : Phase) (f : Journal → Journal) (h : Poised g w t) :
    Prog.Holds (phase x p f) (fun _ => Poised g w) (fun _ => Poised g w) (Poised g w) t :=
  (logs_phase x p f fun e h => always_mild e (Event.idle_of_scribes h)).poised h

theorem phase_halted (p : Phase) (f : Journal → Journal) (h : Halted g w t) :
    Prog.Holds (phase x p f) (fun _ => Halted g w) (fun _ => Halted g w) (Halted g w) t :=
  (logs_phase x p f fun e h => always_halting e (Event.calm_of_scribes h)).halted h

theorem quiesce_halts (identity : Stat) (before : PublicKeystoreState) (h : Poised g w t)
    (backed : Backed t) :
    Prog.Holds (quiesce x identity before) (fun _ => Halted g w) (fun _ => Poised g w) (Poised g w) t := by
  unfold quiesce
  rw [Prog.holds_bind]
  refine Prog.holds_bind_of (stop_halts ⟨h.excluded, fun _ _ => rfl, h.holding⟩ rfl backed)
    fun _ t ht => ?_
  have weaken {β : Type} {m : Exec β} {t : World} (run : Prog.Holds m (fun _ => Halted g w)
      (fun _ => Halted g w) (Halted g w) t) :
      Prog.Holds m (fun _ => Halted g w) (fun _ => Poised g w) (Poised g w) t :=
    run.mono (fun _ _ h => h) (fun _ _ h => h.toPoised) fun _ h => h.toPoised
  refine Prog.holds_bind_of (weaken ((logs_same x .canonical identity).halted ht)) fun _ t ht => ?_
  refine Prog.holds_bind_of (weaken ((logs_collect x .canonical
    (always_halting _ rfl)).halted ht)) fun _ t ht => ?_
  refine Prog.holds_bind_of (weaken ((logs_lift _).halted ht)) fun _ t ht => ?_
  refine Prog.holds_bind_of (weaken ((logs_demand _ _).halted ht)) fun _ t ht => ?_
  exact weaken (phase_halted _ _ ht)

theorem installBody_halted (request : CertificateImportRequest) (h : Halted g w t)
    (locked : t.process.locked = true) :
    Prog.Holds (installBody x request) (fun _ => Halted g w) (fun _ => Halted g w) (Halted g w) t := by
  have keep {β : Type} {m : Exec β} (l : Logs Entry.Halting m) {t : World}
      (ht : Halted g w t ∧ t.process.locked = true) :
      Prog.Holds m (fun _ u => Halted g w u ∧ u.process.locked = true) (fun _ => Halted g w)
        (Halted g w) t :=
    (l t).mono (fun _ _ m => ⟨ht.1.marks m.1, m.1.locked.trans ht.2⟩) (fun _ _ m => ht.1.marks m)
      fun _ m => ht.1.marks m
  have inspect {t : World} (ht : Halted g w t ∧ t.process.locked = true) :
      Prog.Holds (inspectPublicState x) (fun _ u => Halted g w u ∧ u.process.locked = true)
        (fun _ => Halted g w) (Halted g w) t := by
    unfold Prog.Holds
    rw [inspectPublicState_locked ht.2]
    exact keep (logs_collect x .canonical (always_halting _ rfl)) ht
  have reply (current : PublicKeystoreState) :
      Logs Entry.Halting (importCertificateReply x request current) := by
    refine logs_bind (logs_checkImport x always_halting proven_halting _ _) fun c => ?_
    refine logs_bind (logs_stageImport x always_halting ?_ fun _ => ?_) fun _ => ?_
    · exact fun _ _ _ => by simp [Entry.Halting]
    · exact fun _ _ _ => by simp [Entry.Halting]
    refine logs_bind (logs_retainRollback x always_halting proven_halting c) fun _ => ?_
    exact logs_commitStage x always_halting proven_halting request _ _ _
  have moved (stage : InstallStage) :
      Logs Entry.Halting (setProcess fun p => { p with stage := stage }) :=
    logs_update fun _ => ⟨rfl, rfl, rfl, rfl⟩
  refine Prog.holds_bind_of (keep (logs_clock x) ⟨h, locked⟩) fun _ t ht => ?_
  refine Prog.holds_bind_of (keep (logs_lift _) ht) fun _ t ht => ?_
  refine Prog.holds_bind_of (inspect ht) fun current t ht => ?_
  refine Prog.holds_bind_of (keep (logs_lift _) ht) fun _ t ht => ?_
  refine Prog.holds_bind_of (keep (logs_lift _) ht) fun _ t ht => ?_
  refine Prog.holds_bind_of (keep (logs_demand _ _) ht) fun _ t ht => ?_
  refine Prog.holds_bind_of (keep (moved _) ht) fun _ t ht => ?_
  refine Prog.holds_bind_of (keep (reply current) ht) fun _ t ht => ?_
  refine Prog.holds_bind_of (keep (moved _) ht) fun _ t ht => ?_
  refine Prog.holds_bind_of (inspect ht) fun _ t ht => ?_
  refine Prog.holds_bind_of (keep (logs_clock x) ht) fun _ t ht => ?_
  exact (logs_lift _).halted ht.1

theorem Installed.established {k : Nat} {c : Content} {j : Journal} (h : Installed g x k c t j) :
    Established g j t where
  memory := h.memory
  record := by
    obtain ⟨l, seen, sealed⟩ := h.durable.journal
    exact ⟨l, seen, (h.inv.synced l _ sealed).2⟩
  shown := by
    obtain ⟨id, issued, reads⟩ := h.reads
    exact ⟨k, id, h.canonical, by rw [h.content]; exact reads, Or.inr ⟨h.number, issued⟩⟩
  durable := by
    obtain ⟨l, seen, _⟩ := h.durable.journal
    exact Or.inl ⟨l, fun ns image => by rw [h.durable.only ns image, seen]⟩

theorem resumePending_poised {k : Nat} {c : Content} {j : Journal} (installed : Installed g x k c t j)
    (h : Halted g w t) :
    Prog.Holds (resumePending x) (fun _ => Poised g w) (fun _ => Poised g w) (Poised g w) t := by
  have look {β : Type} {m : Exec β} {S : β → View → Prop} (r : Reads m S) (l : Logs Entry.Halting m)
      {t : World} (ht : Installed g x k c t j ∧ Halted g w t) :
      Prog.Holds m (fun _ u => Installed g x k c u j ∧ Halted g w u) (fun _ => Poised g w)
        (Poised g w) t :=
    ((r t).and (l t)).mono (fun _ u m => ⟨ht.1.steady m.1.1.toSteady, ht.2.marks m.2.1⟩)
      (fun _ u m => (ht.2.marks m.2).toPoised) fun u m => (ht.2.marks m.2).toPoised
  refine Prog.holds_bind_of (look (reads_stopped x) (logs_stopped x proven_halting) ⟨installed, h⟩)
    fun _ t ht => ?_
  refine Prog.holds_bind_of (look reads_getJournal logs_getJournal ht) fun _ t ht => ?_
  refine Prog.holds_bind_of (look (reads_demand _ _) (logs_demand _ _) ht) fun _ t ht => ?_
  refine Prog.holds_bind_of (look (reads_collect x .canonical)
    (logs_collect x .canonical (always_halting _ rfl)) ht) fun _ t ht => ?_
  refine Prog.holds_bind_of (look (reads_lift _) (logs_lift _) ht) fun _ t ht => ?_
  refine Prog.holds_bind_of (look (reads_demand _ _) (logs_demand _ _) ht) fun _ t ht => ?_
  refine Prog.holds_bind_of (look (reads_status x .canonical) (logs_status x .canonical) ht)
    fun _ t ht => ?_
  refine Prog.holds_bind_of (look (reads_demand _ _) (logs_demand _ _) ht) fun _ t ht => ?_
  refine Prog.holds_bind_of
    (resumeService_poised false ht.2.toPoised ht.2.expect ht.1.established) fun _ t ht => ?_
  exact phase_poised _ _ ht

theorem installCertificate_closes (host : x.host = g.host) (request : CertificateImportRequest)
    (inv : Inv g t) (journal : t.process.journal = none) (start : Poised g w t) :
    Prog.Holds (installCertificate x request) (fun _ => Closed g w) (fun _ => Closed g w)
      (fun u => Excluded g u.trace) t := by
  have excluded {β : Type} {m : Exec β} {Q : β → World → Prop} {E : Error → World → Prop} {t : World}
      (run : Prog.Holds m Q E (Poised g w) t) : Prog.Holds m Q E (fun u => Excluded g u.trace) t :=
    run.mono (fun _ _ h => h) (fun _ _ h => h) fun _ h => h.excluded
  rw [installCertificate_eq, Prog.holds_handle]
  refine (locked_closes inv journal start fun t ht locked poised _ => ?_).mono (fun _ _ h => h)
    (fun _ _ h => h) fun _ h => h
  refine Prog.holds_bind_of (((begin_keeps x host request.before ht).and
    ((logs_begin x always_mild request.before).poised poised)).mono
    (fun _ _ h => h) (fun _ _ h => h.2) fun _ h => h.2.excluded)
    fun ⟨identity, before⟩ t ⟨⟨j, ht, _⟩, poised⟩ => ?_
  have backed : Backed t := by
    obtain ⟨i, seen, _⟩ := ht.durable.journal
    exact ⟨by simp [seen], Or.inl ⟨i, fun ns image => by rw [ht.durable.only ns image, seen]⟩⟩
  rw [Prog.holds_handle]
  suffices whole : Prog.Holds (do
      quiesce x identity before
      let result ← installBody x request
      resumePending x
      pure result) (fun _ => Poised g w) (fun _ => Poised g w) (fun u => Excluded g u.trace) t from
    whole.mono (fun _ _ h => h) (fun e t ht => excluded (Prog.holds_bind_of (phase_poised _ _ ht)
      fun _ _ h => h)) fun _ h => h
  refine Prog.holds_bind_of (((quiesce_keeps x identity before ht).and
    (quiesce_halts identity before poised backed)).mono (fun _ _ h => h) (fun _ _ h => h.2)
    fun _ h => h.2.excluded) fun _ t ⟨ht, halted⟩ => ?_
  refine Prog.holds_bind_of (((installBody_keeps host request ht).and
    (installBody_halted request halted ht.locked)).mono (fun _ _ h => h) (fun _ _ h => h.2.toPoised)
    fun _ h => h.2.excluded) fun _ t ⟨⟨k, c, v, ht, _⟩, halted⟩ => ?_
  exact Prog.holds_bind_of (excluded (resumePending_poised ht halted)) fun _ _ h => h

/-! ## Recoveries -/

theorem restoreRollback_anchored {i : Nat} {j : Journal} (rollback canonical : Stat)
    (possible : j.commitPossible = true) (unverified : j.phase ≠ .liveVerified) (h : Loaded g x i t j) :
    Prog.Holds (restoreRollback x j rollback canonical) (fun _ u => Anchored u.disk) (fun _ _ => True)
      (fun _ => True) t := by
  have stable (s u : World) (q : Quiet s u) (h : Loaded g x i s j) : Loaded g x i u j :=
    h.steady q.toSteady
  have anchored (s u : World) (q : Quiet s u) (h : Anchored s.disk) : Anchored u.disk := by
    rw [q.disk]
    exact h
  have stop (K : World → Prop) (u : World) (_ : K u) : True := trivial
  refine Prog.holds_bind_of ((reads_stopped x).keeps stable (stop _) h) fun _ t ⟨ht, _⟩ => ?_
  refine Prog.holds_bind_of ((reads_same x .rollback _).keeps stable (stop _) ht) fun _ t ⟨ht, _⟩ => ?_
  refine Prog.holds_bind_of ((reads_same x .canonical _).keeps stable (stop _) ht) fun _ t ⟨ht, _⟩ => ?_
  refine Prog.holds_bind_of (replace_keeps x (L := fun t => Loaded g x i t j) stable (stop _) (stop _) ht
    fun t k s ht seen _ _ => ht.restored possible unverified seen) fun _ t ht => ?_
  refine Prog.holds_bind_of (syncDirectory_keeps x (L := fun t => Anchored t.disk) stable (stop _)
    (stop _) ht fun t ht => ⟨i, fun ns image => ?_⟩) fun _ t ht => ?_
  · rw [(t.disk.dir.image_sync ns).mp image, ht.journal]
  refine Prog.holds_bind_of ((reads_collectId x .canonical).keeps anchored (stop _) ht)
    fun _ t ⟨ht, _⟩ => ?_
  refine Prog.holds_bind_of ((reads_demand _ _).keeps anchored (stop _) ht) fun _ t ⟨ht, _⟩ => ?_
  refine Prog.holds_bind_of ((reads_status x .canonical).keeps anchored (stop _) ht)
    fun _ t ⟨ht, _⟩ => ?_
  exact ((reads_demand _ _).keeps anchored (stop _) ht).mono (fun _ _ h => h.1) (fun _ _ h => h)
    fun _ h => h

/-- A decision leaves the journal's name as durable as it was, or more. -/
theorem decideRecovery_durable {i : Nat} {j : Journal} (unverified : j.phase ≠ .liveVerified)
    (loaded : Loaded g x i t j) (h : Anchored t.disk ∨ Unmoved t.disk t.trace) :
    Prog.Holds (decideRecovery x j) (fun _ u => Anchored u.disk ∨ Unmoved u.disk u.trace)
      (fun _ _ => True) (fun _ => True) t := by
  have look {β : Type} {m : Exec β} {S : β → View → Prop} (r : Reads m S)
      (l : Logs (fun e => ∃ n, e.event = .keytool n .list) m) {t : World}
      (ht : Loaded g x i t j ∧ (Anchored t.disk ∨ Unmoved t.disk t.trace)) :
      Prog.Holds m (fun a u => (Loaded g x i u j ∧ (Anchored u.disk ∨ Unmoved u.disk u.trace)) ∧
        S a u.view) (fun _ _ => True) (fun _ => True) t := by
    refine ((r t).and (l t)).mono (fun _ u m => ⟨⟨ht.1.steady m.1.1.toSteady, ?_⟩, ?_⟩)
      (fun _ _ _ => trivial) fun _ _ => trivial
    · rcases ht.2 with anchored | unmoved
      · rw [m.1.1.disk]
        exact Or.inl anchored
      · refine Or.inr (unmoved.notes m.1.1.disk m.2.1.new ?_)
        rintro e ⟨n, listed⟩
        simp [listed]
    · rw [m.1.1.view]
      exact m.1.2
  have listed (n : Name) : Always (fun e => ∃ n, e.event = .keytool n .list) (.keytool n .list) :=
    fun _ _ _ => ⟨n, rfl⟩
  refine Prog.holds_bind_of (look (reads_status x .canonical) (logs_status x .canonical) ⟨loaded, h⟩)
    fun info t looked => ?_
  have ht := looked.1
  refine Prog.holds_bind_of (look (reads_observeCanonical info) (logs_observeCanonical x info (listed _))
    ht) fun canonical t looked => ?_
  have ht := looked.1
  refine Prog.holds_bind_of (look (reads_checkRollback j info) (logs_checkRollback x j info (listed _)) ht)
    fun rollback t looked => ?_
  have ht := looked.1
  split
  · exact ht.2
  · split
    · exact ht.2
    · cases rollback with
      | none => trivial
      | some rollback =>
        refine Prog.holds_bind_of (look (reads_demand _ _) (logs_demand _ _) ht)
          fun _ t demanded => ?_
        obtain ⟨ht, _, possible, _⟩ := demanded
        exact Prog.holds_bind_of (restoreRollback_anchored rollback info possible unverified ht.1)
          fun _ u hu => Or.inl hu

theorem Loaded.established {i : Nat} {j : Journal} {outcome : RecoveryOutcome} (h : Loaded g x i t j)
    (decided : Decided g j t.disk outcome) (durable : Anchored t.disk ∨ Unmoved t.disk t.trace) :
    Established g j t where
  memory := h.memory
  record := ⟨i, h.journal, (h.inv.synced i _ h.sealed).2⟩
  shown := by
    have proper := h.ok.supported.proper
    cases outcome with
    | noActiveTransaction => exact decided.elim
    | renewalFinalized => exact decided.elim
    | recoveredOld =>
      refine ⟨j.oldInode.ino, j.old, decided, h.ok.reads_old h.inv, Or.inl ⟨?_, rfl⟩⟩
      rw [← proper.oldDev]
    | serviceResumedPendingLiveVerification =>
      obtain ⟨possible, k, stage, canonical⟩ := decided
      obtain ⟨k', c, id, stage', sealed, _, issued, reads⟩ := h.ok.supported.committable possible
      obtain rfl : k = k' := by
        have same : (⟨g.dev, k⟩ : FileId) = ⟨g.dev, k'⟩ := Option.some.inj (stage.symm.trans stage')
        exact congrArg FileId.ino same
      refine ⟨k, id, canonical, ?_, Or.inr ⟨stage, issued⟩⟩
      rw [(h.inv.synced k c sealed).2.1]
      exact reads
  durable := durable

theorem stop_loaded {i : Nat} {j : Journal} (loaded : Loaded g x i t j) (h : Poised g w t)
    (expect : t.process.expectStopped = true) (unmoved : Unmoved t.disk t.trace) :
    Prog.Holds (stop x) (fun _ u => Halted g w u ∧ Loaded g x i u j ∧ Unmoved u.disk u.trace)
      (fun _ => Poised g w) (Poised g w) t :=
  ((stop_halts h expect ⟨by simp [loaded.journal], Or.inr unmoved⟩).and ((steadies_stop x t).and (logs_stop (P := fun e => e.event ≠ .acquired) x
    (fun _ _ _ no => nomatch no) (fun _ _ no => nomatch no) t))).mono
    (fun _ _ m => ⟨m.1, loaded.steady m.2.1.1, unmoved.notes m.2.1.1.disk m.2.2.1.new fun _ h => h⟩)
    (fun _ _ m => m.1) fun _ m => m.1

theorem recoverTransaction_poised {i : Nat} {j : Journal} (startup : Bool)
    (unverified : j.phase ≠ .liveVerified) (loaded : Loaded g x i t j) (h : Poised g w t)
    (unmoved : Unmoved t.disk t.trace) :
    Prog.Holds (recoverTransaction x j startup) (fun _ => Poised g w) (fun _ => Poised g w)
      (Poised g w) t := by
  unfold recoverTransaction
  rw [Prog.holds_bind]
  have expecting : Steady t { t with process := { t.process with expectStopped := true } } :=
    ⟨rfl, rfl, rfl, rfl, [], rfl, by simp⟩
  refine Prog.holds_bind_of (stop_loaded (t := { t with process := { t.process with expectStopped := true } })
    (loaded.steady expecting) ⟨h.excluded, fun _ _ => rfl, h.holding⟩ rfl unmoved)
    fun _ t ⟨halted, loaded, unmoved⟩ => ?_
  refine Prog.holds_bind_of ((((logs_decideRecovery x always_halting proven_halting j).halted halted).and
    ((decideRecovery_keeps loaded unverified).and
      (decideRecovery_durable unverified loaded (Or.inr unmoved)))).mono (fun outcome u m =>
      (⟨m.1, m.2.1.1.established m.2.1.2 m.2.2⟩ : Halted g w u ∧ Established g j u))
      (fun _ u m => m.1.toPoised) fun u m => m.1.toPoised) fun outcome t ht => ?_
  have other (e : Entry) (stopped : e.event = .provenStopped ∧ e.service = .down) :
      e.event ≠ .acquired := by simp [stopped.1]
  have look {β : Type} {m : Exec β} {S : β → View → Prop} (r : Reads m S)
      (l : Logs (fun e => e.event = .provenStopped ∧ e.service = .down) m) {t : World}
      (ht : Halted g w t ∧ Established g j t) :
      Prog.Holds m (fun _ u => Halted g w u ∧ Established g j u) (fun _ => Poised g w) (Poised g w) t := by
    have halting (e : Entry) (stopped : e.event = .provenStopped ∧ e.service = .down) : e.Halting := by
      simp [Entry.Halting, stopped.1, stopped.2]
    exact ((r t).and (l t)).mono (fun _ u m => ⟨ht.1.marks (m.2.1.mono halting), ht.2.look m.1.1 m.2.1 other⟩)
      (fun _ u m => (ht.1.marks (m.2.mono halting)).toPoised)
      fun u m => (ht.1.marks (m.2.mono halting)).toPoised
  refine Prog.holds_bind_of (look (reads_checkStage j) (logs_checkStage x j) ht) fun _ t ht => ?_
  refine Prog.holds_bind_of (look (reads_stopped x) (logs_stopped x fun _ _ => ⟨rfl, rfl⟩) ht)
    fun _ t ht => ?_
  refine Prog.holds_bind_of (resumeService_poised startup ht.1.toPoised ht.1.expect ht.2)
    fun _ t ht => ?_
  refine Prog.holds_bind_of (phase_poised _ _ ht) fun _ t ht => ?_
  split
  · exact Prog.holds_bind_of ((logs_cleanUp x always_mild).poised ht) fun _ _ h => h
  · exact ht

theorem recover_closes (startup : Bool) (inv : Inv g t) (journal : t.process.journal = none)
    (start : Poised g w t) :
    Prog.Holds (recover x startup) (fun _ => Closed g w) (fun _ => Closed g w)
      (fun u => Excluded g u.trace) t := by
  refine locked_closes inv journal start fun t ht _ poised unmoved => ?_
  have excluded {β : Type} {m : Exec β} {Q : β → World → Prop} {E : Error → World → Prop} {t : World}
      (run : Prog.Holds m Q E (Poised g w) t) : Prog.Holds m Q E (fun u => Excluded g u.trace) t :=
    run.mono (fun _ _ h => h) (fun _ _ h => h) fun _ h => h.excluded
  have mild {β : Type} {m : Exec β} (l : Logs (fun e => e.event.mild = true) m) {t : World}
      (ht : Poised g w t) := excluded (l.poised ht)
  refine Prog.holds_bind_of (((reads_exists x .journal t).and
    (logs_exists (P := fun _ => False) x .journal t)).mono (fun b u m =>
    (⟨ht.quiet m.1.1, poised.marks (m.2.1.mono fun _ no => no.elim),
      unmoved.notes m.1.1.disk m.2.1.new fun _ no => no.elim⟩ :
      Entered g u ∧ Poised g w u ∧ Unmoved u.disk u.trace))
    (fun _ u m => poised.marks (m.2.mono fun _ no => no.elim))
    fun u m => (poised.marks (m.2.mono fun _ no => no.elim)).excluded)
    fun b t ⟨ht, poised, unmoved⟩ => ?_
  cases b with
  | false =>
    refine Prog.holds_bind_of (mild (logs_noTransaction x) poised) fun _ t ht => ?_
    exact Prog.holds_bind_of (mild (logs_syncDirectory x fun _ _ _ => rfl) ht) fun _ _ h => h
  | true =>
    refine Prog.holds_bind_of (((loadJournal_keeps ht).and
      (logs_loadJournal (P := fun _ => False) x t)).mono (fun j u m =>
      (⟨m.1, poised.marks (m.2.1.mono fun _ no => no.elim), m.2.1.new⟩ :
        (∃ i, Loaded g x i u j ∧ u.disk = t.disk) ∧ Poised g w u ∧ Notes (fun _ => False) t u))
      (fun _ u m => poised.marks (m.2.mono fun _ no => no.elim))
      fun u m => (poised.marks (m.2.mono fun _ no => no.elim)).excluded)
      fun j t ⟨⟨i, loaded, disk⟩, poised, notes⟩ => ?_
    split
    · refine Prog.holds_bind_of (mild (logs_establish x always_mild) poised) fun _ t ht => ?_
      refine Prog.holds_bind_of (mild (logs_validateLiveVerifiedFiles x true fun _ _ _ _ => rfl) ht)
        fun _ t ht => ?_
      exact Prog.holds_bind_of (mild (logs_finishLiveVerified x always_mild) ht) fun _ _ h => h
    · rename_i unverified
      exact excluded (recoverTransaction_poised startup unverified loaded poised
        (unmoved.notes disk notes fun _ no => no.elim))

/-! ## The other operations -/

theorem mild_closes {m : Exec α} (inv : Inv g t) (journal : t.process.journal = none)
    (start : Poised g w t) (l : Logs (fun e => e.event.mild = true) m) :
    Prog.Holds (locked x m) (fun _ => Closed g w) (fun _ => Closed g w) (fun u => Excluded g u.trace) t :=
  locked_closes inv journal start fun _ _ _ poised _ =>
    (l.poised poised).mono (fun _ _ h => h) (fun _ _ h => h) fun _ h => h.excluded

theorem inspectPublicState_closes (inv : Inv g t) (journal : t.process.journal = none)
    (start : Poised g w t) (free : t.process.locked = false) :
    Prog.Holds (inspectPublicState x) (fun _ => Closed g w) (fun _ => Closed g w)
      (fun u => Excluded g u.trace) t := by
  unfold inspectPublicState
  rw [Prog.holds_bind, Prog.holds_read, if_neg (by simp [free])]
  refine mild_closes inv journal start (logs_bind (logs_noTransaction x) fun _ => ?_)
  exact logs_collect x .canonical fun _ _ _ => rfl

theorem Poised.closed (h : Poised g w t) (free : t.process.locked = false) : Closed g w t := by
  obtain ⟨new, trace, holding⟩ := h.holding
  exact ⟨h.excluded, new, trace, fun held => absurd (holding held) (by simp [free])⟩

theorem generateCsr_closes (policy : CertificatePolicy) (inv : Inv g t) (journal : t.process.journal = none)
    (start : Poised g w t) (free : t.process.locked = false) :
    Prog.Holds (generateCsr x policy) (fun _ => Closed g w) (fun _ => Closed g w)
      (fun u => Excluded g u.trace) t := by
  unfold generateCsr
  rw [Prog.holds_bind]
  refine (Prog.holds_ofExcept _).mpr ⟨fun command _ => ?_, fun _ _ => start.closed free⟩
  rw [Prog.holds_bind]
  refine (Prog.holds_guard _ _).mpr ⟨fun _ => ?_, fun _ => start.closed free⟩
  refine mild_closes inv journal start (logs_bind (logs_noTransaction x) fun _ => ?_)
  refine logs_bind (logs_status x .canonical) fun _ => ?_
  refine logs_bind (logs_collect x .canonical fun _ _ _ => rfl) fun _ => ?_
  refine logs_bind (logs_lift _) fun _ => logs_bind (logs_demand _ _) fun _ => ?_
  refine logs_bind (logs_lift _) fun _ => logs_bind (logs_lift _) fun _ => ?_
  refine logs_bind ?_ fun _ => logs_bind (logs_same x .canonical _) fun _ => ?_
  · refine logs_bind logs_assertLocked fun _ => logs_bind (logs_demand _ _) fun _ => ?_
    refine logs_bind (logs_primitive x (logs_pure ())) fun _ => logs_primitive x ?_
    exact logs_bind (logs_emit fun _ _ _ => rfl) fun _ => logs_read _
  refine logs_bind (logs_lift _) fun _ => ?_
  exact logs_bind (logs_demand _ _) fun _ => logs_pure _

theorem verifyPending_closes (inv : Inv g t) (journal : t.process.journal = none)
    (start : Poised g w t) :
    Prog.Holds (verifyPending x) (fun _ => Closed g w) (fun _ => Closed g w)
      (fun u => Excluded g u.trace) t := by
  refine mild_closes inv journal start (logs_bind ?_ fun j => ?_)
  · refine logs_bind (logs_exists x .journal) fun _ => logs_bind (logs_demand _ _) fun _ => ?_
    refine logs_bind (logs_loadJournal x) fun j => logs_bind (logs_demand _ _) fun _ => ?_
    exact logs_bind (logs_demand _ _) fun _ => logs_pure j
  refine logs_bind (logs_observeLive x always_mild j) fun _ => ?_
  refine logs_bind (logs_phase x _ _ fun e h => always_mild e (Event.idle_of_scribes h)) fun _ => ?_
  refine logs_bind (logs_establish x always_mild) fun _ => ?_
  exact logs_bind (logs_finishLiveVerified x always_mild) fun _ => logs_pure _

/-! ## Messages -/

/-- An operation that has not taken the lock yet. -/
structure Waiting (g : Setting) (w t : World) : Prop where
  inv : Inv g t
  journal : t.process.journal = none
  poised : Poised g w t
  free : t.process.locked = false

theorem Waiting.closed (h : Waiting g w t) : Closed g w t := h.poised.closed h.free

theorem Waiting.keeps {m : Exec α} (h : Waiting g w t) (steady : Steadies m)
    (l : Logs (fun e => e.event.mild = true) m) :
    Prog.Holds m (fun _ => Waiting g w) (fun _ => Closed g w) (fun u => Excluded g u.trace) t := by
  have moved (u : World) (s : Steady t u) (m : Marks (fun e => e.event.mild = true) t u) :
      Waiting g w u :=
    ⟨h.inv.steady s, s.journal.trans h.journal, h.poised.marks m, s.locked.trans h.free⟩
  exact ((steady t).and (l t)).mono (fun _ u hu => moved u hu.1.1 hu.2.1)
    (fun _ u hu => (moved u hu.1 hu.2).closed) fun u hu => (moved u hu.1 hu.2).poised.excluded

theorem Closed.marks (h : Closed g w t) (m : Marks (fun e => e.event.mild = true) t u) :
    Closed g w u := by
  obtain ⟨old, began, holding⟩ := h.holding
  obtain ⟨new, trace, mild⟩ := m.new
  let armed (v : World) : World :=
    { v with process := { v.process with locked := true, expectStopped := true } }
  have poised : Poised g w (armed t) := ⟨h.excluded, fun _ _ => rfl, old, began, fun _ => rfl⟩
  have moved : Poised g w (armed u) := poised.marks ⟨m.new, m.held, rfl, rfl⟩
  refine ⟨moved.excluded, new ++ old, by rw [trace, began, List.append_assoc], fun held => ?_⟩
  rw [m.held]
  refine holding ?_
  clear trace
  induction new with
  | nil => exact held
  | cons e new ih =>
    refine ih (fun e he => mild e (by simp [he])) ?_
    exact holding_cons (Event.mild_iff (mild e (by simp))).2.2.2.1 held

theorem Closed.keeps {m : Exec α} (h : Closed g w t) (l : Logs (fun e => e.event.mild = true) m) :
    Prog.Holds m (fun _ => Closed g w) (fun _ => Closed g w) (fun u => Excluded g u.trace) t :=
  (l t).mono (fun _ _ m => h.marks m.1) (fun _ _ m => h.marks m) fun _ m => (h.marks m).excluded

theorem logs_decodeImportRequest {P : Entry → Prop} (stamped : ∀ time, Always P (.stamped time))
    (value : Json) : Logs P (decodeImportRequest x value) := by
  refine logs_bind (logs_lift _) fun _ => logs_bind (logs_primitive x ?_) fun _ => ?_
  · refine logs_bind (logs_read _) fun _ => ?_
    exact logs_bind (logs_emit (stamped _)) fun _ => logs_pure _
  refine logs_bind (logs_lift _) fun _ => logs_bind (logs_clock x) fun _ => ?_
  refine logs_bind (logs_lift _) fun _ => logs_bind (logs_lift _) fun _ => ?_
  exact logs_bind (logs_demand _ _) fun _ => logs_pure _

theorem serveInstall_closes (host : x.host = g.host) (arguments : Json) (h : Waiting g w t) :
    Prog.Holds (serveInstall x arguments) (fun _ => Closed g w) (fun _ => Closed g w)
      (fun u => Excluded g u.trace) t := by
  refine Prog.holds_bind_of (h.keeps (reads_lift _).steady (logs_lift _)) fun fields t h => ?_
  match fields with
  | [digest, value] =>
    refine Prog.holds_bind_of (h.keeps (reads_lift _).steady (logs_lift _)) fun _ t h => ?_
    refine Prog.holds_bind_of (R := fun _ => Waiting g w) ?_ fun request t h => ?_
    · refine ((decodeImportRequest_keeps (x := x) value ⟨h.inv, h.journal, rfl⟩).and
        (logs_decodeImportRequest (P := fun e => e.event.mild = true)
          (fun _ _ _ _ => rfl) value t)).mono
        (fun _ u m => ⟨m.1.1.inv, m.1.1.journal, h.poised.marks m.2.1, m.2.1.locked.trans h.free⟩)
        (fun _ u m => h.closed.marks m.2) fun u m => (h.closed.marks m.2).excluded
    · refine Prog.holds_bind_of (installCertificate_closes host request h.inv h.journal h.poised)
        fun _ t ht => ?_
      refine Prog.holds_bind_of (ht.keeps (logs_clock x)) fun _ t ht => ?_
      refine Prog.holds_bind_of (ht.keeps (logs_lift _)) fun _ t ht => ?_
      refine Prog.holds_bind_of (ht.keeps (logs_lift _)) fun _ t ht => ?_
      exact ht.keeps (logs_lift _)
  | [] => exact h.closed
  | [_] => exact h.closed
  | _ :: _ :: _ :: _ => exact h.closed

theorem dispatch_closes (host : x.host = g.host) (message : Json) (h : Waiting g w t) :
    Prog.Holds (dispatch x message) (fun _ => Closed g w) (fun _ => Closed g w)
      (fun u => Excluded g u.trace) t := by
  refine Prog.holds_bind_of (h.keeps (reads_lift _).steady (logs_lift _))
    fun ⟨operation, arguments⟩ t h => ?_
  cases operation with
  | install => exact serveInstall_closes host arguments h
  | inspect =>
    refine Prog.holds_bind_of (h.keeps (reads_lift _).steady (logs_lift _)) fun _ t h => ?_
    refine Prog.holds_bind_of (inspectPublicState_closes h.inv h.journal h.poised h.free)
      fun _ t ht => ?_
    exact ht.keeps (logs_lift _)
  | generateCsr =>
    refine Prog.holds_bind_of (h.keeps (reads_lift _).steady (logs_lift _)) fun fields t h => ?_
    match fields with
    | [digest, spki] =>
      refine Prog.holds_bind_of (h.keeps (reads_lift _).steady (logs_lift _)) fun _ t h => ?_
      refine Prog.holds_bind_of (h.keeps (reads_lift _).steady (logs_lift _)) fun policy t h => ?_
      exact Prog.holds_bind_of (generateCsr_closes policy h.inv h.journal h.poised h.free)
        fun _ _ ht => ht
    | [] => exact h.closed
    | [_] => exact h.closed
    | _ :: _ :: _ :: _ => exact h.closed
  | recover =>
    refine Prog.holds_bind_of (h.keeps (reads_lift _).steady (logs_lift _)) fun _ t h => ?_
    exact Prog.holds_bind_of (recover_closes false h.inv h.journal h.poised) fun _ _ ht => ht
  | verifyPending =>
    refine Prog.holds_bind_of (h.keeps (reads_lift _).steady (logs_lift _)) fun _ t h => ?_
    refine Prog.holds_bind_of (verifyPending_closes h.inv h.journal h.poised) fun _ t ht => ?_
    exact Prog.holds_bind_of (ht.keeps (logs_demand _ _)) fun _ _ ht => ht

/-! ## Every run -/

/-- However an operation ends, what it did was in order; unless it was cut off,
the lock it took is given up or kept. -/
theorem execute_closes (host : x.host = g.host) (o : Operation) (h : Waiting g w t) :
    Prog.Holds (execute x o) (fun _ => Closed g w) (fun _ => Closed g w)
      (fun u => Excluded g u.trace) t := by
  cases o with
  | inspect =>
    exact Prog.holds_bind_of (inspectPublicState_closes h.inv h.journal h.poised h.free) fun _ _ h => h
  | generateCsr policy =>
    exact Prog.holds_bind_of (generateCsr_closes policy h.inv h.journal h.poised h.free) fun _ _ h => h
  | install request =>
    exact Prog.holds_bind_of (installCertificate_closes host request h.inv h.journal h.poised)
      fun _ _ h => h
  | verifyPending =>
    exact Prog.holds_bind_of (verifyPending_closes h.inv h.journal h.poised) fun _ _ h => h
  | recover startup =>
    exact Prog.holds_bind_of (recover_closes startup h.inv h.journal h.poised) fun _ _ h => h
  | message value =>
    refine Prog.holds_bind_of (R := fun _ => Closed g w) ?_ fun _ _ h => h
    unfold handle
    rw [Prog.holds_handle]
    cases value with
    | none => exact h.closed
    | some value =>
      exact Prog.holds_bind_of ((dispatch_closes host value h).mono (fun _ _ h => h) (fun _ _ h => h)
        fun _ h => h) fun _ _ h => h

theorem Inv.waiting (inv : Inv g w) (excluded : Excluded g w.trace) : Waiting g w w.fresh :=
  ⟨inv.fresh, rfl, ⟨excluded, (fun no => nomatch no), [], rfl, fun no => False.elim no⟩, rfl⟩

theorem Leads.excluded {moves : List Move} (leads : Leads g moves w) : Excluded g w.trace := by
  obtain ⟨start, clean, on, rfl⟩ := leads
  refine (run_keeps (I := fun w => Inv g w ∧ Excluded g w.trace) ⟨clean.inv, ?_⟩ fun m hm w hw => ?_).2
  · rw [clean.trace]
    trivial
  refine ⟨Move.keeps (on m hm).1 (on m hm).2 hw.1, ?_⟩
  cases m with
  | powerLoss kept torn service => exact hw.2
  | environment service held => exact hw.2
  | operate x o =>
    exact Prog.Holds.final (I := fun u => Excluded g u.trace)
      ((execute_closes (on _ hm).1 o (hw.1.waiting hw.2)).mono (fun _ _ h => h.excluded)
        (fun _ _ h => h.excluded) fun _ h => h)

/-! ## While another process has the lock -/

/-- Nothing but mild events, as long as the lock is kept by a process that was
there before. -/
def Barred (w t : World) : Prop :=
  w.held = true → w.process.locked = false → Marks (fun e => e.event.mild = true) w t

theorem Barred.trans (h : Barred w t) (k : Barred t u) : Barred w u := fun held free =>
  let marks := h held free
  marks.trans (k (marks.held.trans held) (marks.locked.trans free))

def Bars (m : Exec α) : Prop := Prog.Yields Barred m fun _ _ => True

theorem Logs.bars {m : Exec α} (l : Logs (fun e => e.event.mild = true) m) : Bars m := fun w =>
  (l w).mono (fun _ _ h => ⟨fun _ _ => h.1, trivial⟩) (fun _ _ h _ _ => h) fun _ h _ _ => h

theorem bars_bind {β : Type} {m : Exec β} {f : β → Exec α} (h : Bars m) (hf : ∀ b, Bars (f b)) :
    Bars (m >>= f) :=
  (Prog.yields_bind (R := Barred) (fun _ _ _ h k => Barred.trans h k) h hf fun _ _ _ _ _ t => t).mono fun _ _ _ => trivial

theorem bars_handle {m : Exec α} {h : Error → Exec α} (first : Bars m) (rescue : ∀ e, Bars (h e)) :
    Bars (Prog.handle m h) :=
  (Prog.yields_handle (R := Barred) (fun _ _ _ h k => Barred.trans h k) first rescue fun _ _ _ _ t => t).mono
    fun _ _ _ => trivial

/-- What is to be done under the lock is not done. -/
theorem bars_locked (body : Exec α) : Bars (locked x body) := by
  intro w
  by_cases barred : w.held = true ∧ w.process.locked = false
  · obtain ⟨held, free⟩ := barred
    have shut : Prog.Holds (mask "UniFi executor operation failed; recovery may be required"
        (do acquire x; body)) (fun _ _ => False)
        (fun _ => Marks (fun e => e.event.mild = true) w) (Marks (fun e => e.event.mild = true) w) w := by
      rw [mask, Prog.holds_handle, acquire_eq, Prog.bind_assoc]
      refine Prog.holds_bind_of ((logs_findLock x (fun _ _ _ _ => rfl) (fun _ _ _ => rfl) w).mono
        (fun _ _ h => h.1) (fun _ _ h => h) fun _ h => h) fun _ t ht => ?_
      rw [Prog.bind_assoc]
      refine Prog.holds_bind_of (R := fun _ _ => False) (holds_ticked
        (K := Marks (fun e => e.event.mild = true) w) { ht with } (fun _ h => h) (fun u hu => ?_)
        fun _ _ no => no.elim) fun _ _ no => no.elim
      rw [Prog.holds_bind, Prog.holds_read, Prog.holds_bind, Prog.holds_guard]
      refine ⟨fun no => ?_, fun _ => hu⟩
      rw [id, hu.held, held] at no
      cases no
    rw [locked, Prog.holds_ensure]
    have done (t : World) (ht : Marks (fun e => e.event.mild = true) w t) {Q : Unit → World → Prop}
        {E : Error → World → Prop} {D : World → Prop} (now : Q () t) :
        Prog.Holds (release x) Q E D t := by
      unfold release
      rw [Prog.holds_bind, Prog.holds_read, if_neg (by simp [ht.locked, free])]
      exact now
    exact shut.mono (fun _ _ no => no.elim) (fun _ t ht => done t ht fun _ _ => ht) fun t ht _ _ => ht
  · exact Prog.holds_of_final (I := Barred w) (fun held free => absurd ⟨held, free⟩ barred) |>.mono
      (fun _ _ h => ⟨h, trivial⟩) (fun _ _ h => h) fun _ h => h

theorem bars_inspectPublicState : Bars (inspectPublicState x) := by
  refine bars_bind (logs_read _).bars fun p => ?_
  split
  · exact (logs_collect x .canonical fun _ _ _ => rfl).bars
  · exact bars_locked _

theorem bars_generateCsr (policy : CertificatePolicy) : Bars (generateCsr x policy) := by
  refine bars_bind (logs_lift _).bars fun _ => bars_bind (logs_demand _ _).bars fun _ => ?_
  exact bars_locked _

theorem bars_installCertificate (request : CertificateImportRequest) :
    Bars (installCertificate x request) := by
  refine bars_handle (bars_locked _) fun e => ?_
  exact bars_bind (logs_read _).bars fun _ => (logs_raise _).bars

theorem bars_dispatch (message : Json) : Bars (dispatch x message) := by
  refine bars_bind (logs_lift _).bars fun ⟨operation, arguments⟩ => ?_
  cases operation with
  | inspect =>
    refine bars_bind (logs_lift _).bars fun _ => ?_
    exact bars_bind bars_inspectPublicState fun _ => (logs_lift _).bars
  | generateCsr =>
    refine bars_bind (logs_lift _).bars fun fields => ?_
    split
    · refine bars_bind (logs_lift _).bars fun _ => bars_bind (logs_lift _).bars fun policy => ?_
      exact bars_bind (bars_generateCsr policy) fun _ => (logs_pure _).bars
    · exact (logs_raise _).bars
  | install =>
    refine bars_bind (logs_lift _).bars fun fields => ?_
    split
    · refine bars_bind (logs_lift _).bars fun _ => ?_
      refine bars_bind (logs_decodeImportRequest (fun _ _ _ _ => rfl) _).bars fun request => ?_
      refine bars_bind (bars_installCertificate request) fun _ => bars_bind (logs_clock x).bars fun _ => ?_
      refine bars_bind (logs_lift _).bars fun _ => bars_bind (logs_lift _).bars fun _ => ?_
      exact (logs_lift _).bars
    · exact (logs_raise _).bars
  | recover =>
    refine bars_bind (logs_lift _).bars fun _ => ?_
    exact bars_bind (bars_locked _) fun _ => (logs_pure _).bars
  | verifyPending =>
    refine bars_bind (logs_lift _).bars fun _ => bars_bind (bars_locked _) fun _ => ?_
    exact bars_bind (logs_demand _ _).bars fun _ => (logs_pure _).bars

theorem bars_execute (o : Operation) : Bars (execute x o) := by
  cases o with
  | inspect => exact bars_bind bars_inspectPublicState fun _ => (logs_pure _).bars
  | generateCsr policy => exact bars_bind (bars_generateCsr policy) fun _ => (logs_pure _).bars
  | install request => exact bars_bind (bars_installCertificate request) fun _ => (logs_pure _).bars
  | verifyPending => exact bars_bind (bars_locked _) fun _ => (logs_pure _).bars
  | recover startup => exact bars_bind (bars_locked _) fun _ => (logs_pure _).bars
  | message value =>
    refine bars_bind (bars_handle ?_ fun _ => (logs_pure _).bars) fun _ => (logs_pure _).bars
    cases value with
    | none => exact (logs_raise _).bars
    | some value => exact bars_bind (bars_dispatch value) fun _ => (logs_pure _).bars

/-! ## Writer exclusion -/

/-- In every run, whatever fails: the stores change only while the service is
proven stopped, it is started only over a store that the journal names, and a
lock that was taken is given up in order or kept, unless the process was cut
off; while it is kept, no other executor takes it. -/
theorem writers_are_excluded (h : Reachable g w) :
    (∀ newer e older, w.trace = newer ++ e :: older → Orderly g e older) ∧
    ∀ (x : Session) (o : Operation), x.host = g.host →
      ((execute x o w.fresh).1 ≠ .dead → ∃ new, (execute x o w.fresh).2.trace = new ++ w.trace ∧
        (Holding new → (execute x o w.fresh).2.held = true)) ∧
      (w.held = true → Marks (fun e => e.event.mild = true) w.fresh (execute x o w.fresh).2) := by
  obtain ⟨moves, leads⟩ := h
  refine ⟨fun newer e older split => ?_, fun x o host => ⟨fun alive => ?_, fun held => ?_⟩⟩
  · have excluded := leads.excluded
    rw [split] at excluded
    exact excluded.entry
  · have ends := execute_closes host o (leads.inv.waiting leads.excluded)
    unfold Prog.Holds at ends
    split at ends
    · rename_i run
      rw [run]
      exact ends.holding
    · rename_i run
      rw [run]
      exact ends.holding
    · rename_i run
      rw [run] at alive
      exact absurd rfl alive
  · exact (bars_execute (x := x) o).final w.fresh held rfl

/-- The start that ends an installation. -/
theorem installation_starts_over_a_named_store : ∃ newer e older,
    Sample.installed.trace = newer ++ e :: older ∧ e.event = .startIssued ∧
      Resumable (Sample.setting false) e older := by
  have started : Sample.installed.trace.any (fun e => decide (e.event = .startIssued)) = true := by
    decide +kernel
  obtain ⟨e, member, event⟩ := List.any_eq_true.mp started
  have event := of_decide_eq_true event
  obtain ⟨newer, older, split⟩ := List.append_of_mem member
  have orderly := (writers_are_excluded (Sample.reachable_installed false)).1 newer e older split
  exact ⟨newer, e, older, split, event, orderly.starts event⟩

/-- An installation that was killed between the rename of its first journal and
the sync of the directory, and the recovery after it: the service is started
while a power loss could still take the journal. -/
theorem recovery_starts_before_the_journal_is_durable :
    ∃ w, Reachable (Sample.setting true) w ∧
      ∃ e ∈ w.trace, e.event = .startIssued ∧ ∃ ns, e.disk.dir.Image ns ∧ ns .journal = none := by
  let moves : List Move := [.operate (Sample.session [(51, .killAfter)]) (.install Sample.request),
    .operate (Sample.session []) (.recover false)]
  have leads : Leads (Sample.setting true) moves (run moves Sample.start) :=
    Sample.leads (by simp [moves, Move.On, Move.Powered, Sample.session])
  have started : (run moves Sample.start).trace.any (fun e =>
      decide (e.event = .startIssued ∧ e.disk.dir.durable .journal = none)) = true := by decide +kernel
  obtain ⟨e, member, found⟩ := List.any_eq_true.mp started
  obtain ⟨event, lost⟩ := of_decide_eq_true found
  exact ⟨run moves Sample.start, ⟨moves, leads⟩, e, member, event, e.disk.dir.durable,
    ⟨[], List.nil_sublist _, rfl⟩, lost⟩

end

end CertRenewer
