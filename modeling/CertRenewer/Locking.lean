import CertRenewer.Writer

/-!
# The locked context

Acquiring the lock may create its file; nothing else of the disk changes before
the body runs. Giving the lock up clears the executor object.
-/

namespace CertRenewer

open Crash

section
variable {g : Setting} {w t : World} {α : Type}

/-! ## What acquiring the lock leaves alone -/

theorem reads_lockFile (x : Session) : Reads (primitive x do
    let d ← Prog.read World.disk
    match d.dir.visible .lock with
    | none => Prog.raise .os
    | some i => pure i) fun i v => v.disk.dir.visible .lock = some i := by
  refine reads_primitive x (reads_then (reads_view View.disk) fun d => ?_)
  cases seen : d.dir.visible .lock with
  | none => exact (reads_raise _).mono fun _ _ no => no.elim
  | some i =>
    refine (reads_pure i).mono ?_
    rintro _ v rfl rfl
    exact seen

/-- At most a new lock file, and nothing else of the disk or the service. -/
structure Locks (w t : World) : Prop where
  dev : t.disk.dev = w.disk.dev
  names : ∀ n, n ≠ .lock → t.disk.dir.visible n = w.disk.dir.visible n
  lock : t.disk.dir.visible .lock = w.disk.dir.visible .lock ∨
    (w.disk.dir.visible .lock = none ∧ ∃ k, w.disk.dir.next ≤ k ∧ t.disk.dir.visible .lock = some k)
  files : ∀ i < w.disk.dir.next, t.disk.files i = w.disk.files i
  next : w.disk.dir.next ≤ t.disk.dir.next
  service : t.service = w.service
  journal : t.process.journal = w.process.journal
  uuids : t.uuids = w.uuids

theorem Locks.refl (w : World) : Locks w w :=
  ⟨rfl, fun _ _ => rfl, Or.inl rfl, fun _ _ => rfl, Nat.le_refl _, rfl, rfl, rfl⟩

theorem Locks.quiet {u : World} (h : Locks w t) (q : Quiet t u) : Locks w u where
  dev := by rw [q.disk]; exact h.dev
  names := by rw [q.disk]; exact h.names
  lock := by rw [q.disk]; exact h.lock
  files := by rw [q.disk]; exact h.files
  next := by rw [q.disk]; exact h.next
  service := q.service.trans h.service
  journal := by rw [q.process]; exact h.journal
  uuids := q.uuids.trans h.uuids

theorem Locks.born (h : Locks w t) (free : t.disk.dir.visible .lock = none) :
    Locks w (t.born .lock) where
  dev := h.dev
  names n hn := by
    rw [← h.names n hn]
    simp [World.born, Disk.create, hn]
  lock := by
    refine Or.inr ⟨?_, t.disk.dir.next, h.next, by simp [World.born, Disk.create]⟩
    rcases h.lock with same | ⟨none, _⟩
    · exact same.symm.trans free
    · exact none
  files i hi := by
    have ne : i ≠ t.disk.dir.next := by
      have := h.next
      omega
    simpa [World.born, Disk.create, ne] using h.files i hi
  next := Nat.le_succ_of_le h.next
  service := h.service
  journal := h.journal
  uuids := h.uuids

theorem Locks.amend {k : Nat} {f : Inode → Inode} (h : Locks w t) (new : w.disk.dir.next ≤ k) :
    Locks w (t.amend k f) := by
  refine { h with files := fun i hi => ?_ }
  have ne : i ≠ k := by omega
  simpa [World.amend, Disk.modify, ne] using h.files i hi

theorem Locks.settled (h : Locks w t) : Locks w t.settled := { h with }

theorem Locks.stat (h : Locks w t) {n : Name} (other : n ≠ .lock) :
    t.disk.stat n = w.disk.stat n := by
  unfold Disk.stat
  rw [h.names n other]
  cases seen : w.disk.dir.visible n with
  | none => rfl
  | some i =>
    have below := w.disk.dir.visible_lt seen
    have counted (m : Name) : (t.disk.dir.visible m = some i) = (w.disk.dir.visible m = some i) := by
      by_cases hm : m = .lock
      · subst hm
        rcases h.lock with same | ⟨none, k, new, found⟩
        · rw [same]
        · rw [none, found]
          simp
          omega
      · rw [h.names m hm]
    simp only [Option.map_some, Disk.statOf, Disk.links, h.files i below, counted]

theorem acquire_locks (x : Session) :
    Prog.Holds (acquire x) (fun _ t => Locks w t ∧ t.process.locked = true)
      (fun _ => Locks w) (Locks w) w := by
  have stable (s t : World) (q : Quiet s t) (h : Locks w s) : Locks w t := h.quiet q
  have stop (t : World) (h : Locks w t) : Locks w t := h
  have nothing : Reads (primitive x (pure ())) fun _ _ => True :=
    (reads_primitive x (reads_pure ())).mono fun _ _ _ => trivial
  have rest (t : World) (ht : Locks w t) : Prog.Holds (do
      let i ← primitive x do
        let d ← Prog.read World.disk
        match d.dir.visible .lock with
        | none => Prog.raise .os
        | some i => pure i
      let expected ← status x .lock
      demand (i = expected.ino) "executor lock replaced"
      primitive x do
        let w ← Prog.read id
        Prog.guard (!w.held) .os
        emit .acquired
        setProcess fun p => { p with locked := true, expectStopped := false }
      noKeytool x) (fun _ t => Locks w t ∧ t.process.locked = true) (fun _ => Locks w) (Locks w) t := by
    refine Prog.holds_bind_of ((reads_lockFile x).keeps stable stop ht) fun i t ⟨ht, _⟩ => ?_
    refine Prog.holds_bind_of ((reads_status x .lock).keeps stable stop ht) fun s t ⟨ht, _⟩ => ?_
    refine Prog.holds_bind_of ((reads_demand _ _).keeps stable stop ht) fun _ t ⟨ht, _⟩ => ?_
    refine Prog.holds_bind_of (holds_primitive x
      (S := fun _ t => Locks w t ∧ t.process.locked = true) stable stop ht (fun t ht => ?_)
      fun _ _ h => h.1) fun _ t ht => ?_
    · rw [Prog.holds_bind, Prog.holds_read, Prog.holds_bind, Prog.holds_guard]
      exact ⟨fun _ => ⟨{ ht with }, rfl⟩, fun _ => ht⟩
    · exact ((reads_noKeytool x).keeps
        (K := fun t => Locks w t ∧ t.process.locked = true)
        (fun s t q h => ⟨h.1.quiet q, by rw [q.process]; exact h.2⟩) (fun t h => h.1) ht).mono
        (fun _ _ h => h.1) (fun _ _ h => h) fun _ h => h
  refine Prog.holds_bind_of (nothing.keeps stable stop (Locks.refl w)) fun _ t ⟨ht, _⟩ => ?_
  refine Prog.holds_bind_of (nothing.keeps stable stop ht) fun _ t ⟨ht, _⟩ => ?_
  refine Prog.holds_bind_of ((reads_exists x .lock).keeps stable stop ht) fun b t ⟨ht, _⟩ => ?_
  cases b with
  | true => exact rest t ht
  | false =>
    refine Prog.holds_bind_of (create_keeps x (L := fun k t => Locks w t ∧ w.disk.dir.next ≤ k)
      stable stop (fun k s t q h => ⟨h.1.quiet q, h.2⟩) (fun k t h => h.1) ht
      (fun t ht free => ⟨ht.born free, ht.next⟩) (fun k t h => ⟨h.1.amend h.2, h.2⟩)
      (fun k t h => ⟨h.1.amend h.2, h.2⟩)) fun k t ⟨ht, _⟩ => ?_
    exact Prog.holds_bind_of (syncDirectory_keeps x (L := Locks w) stable stop stop ht.1
      fun t ht => ht.settled) fun _ t ht => rest t ht

/-! ## The invariant -/

/-- The lock is held, and nothing was done under it yet. -/
structure Entered (g : Setting) (w : World) : Prop where
  inv : Inv g w
  locked : w.process.locked = true
  journal : w.process.journal = none
  recent : recentWrites w.trace = []
  lock : w.disk.dir.visible .lock ≠ none
  fresh : w.disk.dir.visible .journal = none → Unjournalled w.trace

theorem Entered.quiet (h : Entered g w) (q : Quiet w t) : Entered g t where
  inv := h.inv.steady q.toSteady
  locked := by rw [q.process]; exact h.locked
  journal := by rw [q.process]; exact h.journal
  recent := by
    refine List.eq_nil_iff_forall_not_mem.mpr fun a ha => ?_
    have old := q.toSteady.recentWrites ha
    rw [h.recent] at old
    cases old
  lock := by rw [q.disk]; exact h.lock
  fresh free := by
    rw [q.disk] at free
    exact q.toSteady.unjournalled free (h.fresh free)

/-- A new lock file. -/
structure LockBorn (g : Setting) (k : Nat) (w : World) : Prop where
  inv : Inv g w
  journal : w.process.journal = none
  seen : w.disk.dir.visible .lock = some k
  unsealed : ∀ c, ¬ Sealed g w.trace k c

theorem LockBorn.amend {k : Nat} {f : Inode → Inode} (h : LockBorn g k w)
    (healthy : ∀ file, Healthy g.dev .lock file → Healthy g.dev .lock (f file)) :
    LockBorn g k (w.amend k f) :=
  ⟨h.inv.amend rfl h.seen h.unsealed (healthy _) (fun no => nomatch no), h.journal, h.seen, h.unsealed⟩

theorem lockBorn (inv : Inv g w) (journal : w.process.journal = none) :
    LockBorn g w.disk.dir.next (w.born .lock) where
  inv := inv.born (Or.inr (Or.inr rfl)) (fun no => nomatch no) (fun no => nomatch no)
    fun no => nomatch no
  journal := journal
  seen := by simp [World.born, Disk.create]
  unsealed c hs := by
    rcases sealed_cons.mp hs with old | ⟨⟨_, no⟩, _⟩
    · have := (inv.synced _ c old).1
      omega
    · cases no

theorem acquire_keeps (x : Session) (inv : Inv g w) (journal : w.process.journal = none) :
    Prog.Holds (acquire x) (fun _ => Entered g) (fun _ => Inv g) (Inv g) w := by
  have stable (s t : World) (q : Quiet s t) (h : Inv g s ∧ s.process.journal = none) :
      Inv g t ∧ t.process.journal = none :=
    ⟨h.1.steady q.toSteady, by rw [q.process]; exact h.2⟩
  have stop (t : World) (h : Inv g t ∧ t.process.journal = none) : Inv g t := h.1
  have nothing : Reads (primitive x (pure ())) fun _ _ => True :=
    (reads_primitive x (reads_pure ())).mono fun _ _ _ => trivial
  have kept (s t : World) (q : Quiet s t)
      (h : (Inv g s ∧ s.process.journal = none) ∧ s.disk.dir.visible .lock ≠ none) :
      (Inv g t ∧ t.process.journal = none) ∧ t.disk.dir.visible .lock ≠ none :=
    ⟨stable s t q h.1, by rw [q.disk]; exact h.2⟩
  have stopped (t : World)
      (h : (Inv g t ∧ t.process.journal = none) ∧ t.disk.dir.visible .lock ≠ none) : Inv g t := h.1.1
  have locking (t : World)
      (ht : (Inv g t ∧ t.process.journal = none) ∧ t.disk.dir.visible .lock ≠ none) :
      Prog.Holds (primitive x do
      let w ← Prog.read id
      Prog.guard (!w.held) .os
      emit .acquired
      setProcess fun p => { p with locked := true, expectStopped := false })
      (fun _ => Entered g) (fun _ => Inv g) (Inv g) t := by
    refine holds_primitive x kept stopped ht (fun t ⟨ht, lock⟩ => ?_) fun _ t h => h.inv
    rw [Prog.holds_bind, Prog.holds_read, Prog.holds_bind, Prog.holds_guard]
    refine ⟨fun _ => ?_, fun _ => ht.1⟩
    have logged := ht.1.plain (e := .acquired) rfl
    exact ⟨{ logged with memory := logged.memory }, rfl, ht.2, rfl, lock, fun free => ⟨free, Or.inl rfl⟩⟩
  have rest (t : World) (ht : Inv g t ∧ t.process.journal = none) : Prog.Holds (do
      let i ← primitive x do
        let d ← Prog.read World.disk
        match d.dir.visible .lock with
        | none => Prog.raise .os
        | some i => pure i
      let expected ← status x .lock
      demand (i = expected.ino) "executor lock replaced"
      primitive x do
        let w ← Prog.read id
        Prog.guard (!w.held) .os
        emit .acquired
        setProcess fun p => { p with locked := true, expectStopped := false }
      noKeytool x) (fun _ => Entered g) (fun _ => Inv g) (Inv g) t := by
    refine Prog.holds_bind_of ((reads_lockFile x).keeps stable stop ht) fun i t ⟨ht, seen⟩ => ?_
    have ht : (Inv g t ∧ t.process.journal = none) ∧ t.disk.dir.visible .lock ≠ none := by
      refine ⟨ht, ?_⟩
      rw [show t.disk.dir.visible .lock = some i from seen]
      simp
    refine Prog.holds_bind_of ((reads_status x .lock).keeps kept stopped ht) fun s t ⟨ht, _⟩ => ?_
    refine Prog.holds_bind_of ((reads_demand _ _).keeps kept stopped ht) fun _ t ⟨ht, _⟩ => ?_
    refine Prog.holds_bind_of (locking t ht) fun _ t ht => ?_
    exact ((reads_noKeytool x).keeps (K := Entered g) (fun s t q h => h.quiet q)
      (fun t h => h.inv) ht).mono (fun _ _ h => h.1) (fun _ _ h => h) fun _ h => h
  refine Prog.holds_bind_of (nothing.keeps stable stop ⟨inv, journal⟩) fun _ t ⟨ht, _⟩ => ?_
  refine Prog.holds_bind_of (nothing.keeps stable stop ht) fun _ t ⟨ht, _⟩ => ?_
  refine Prog.holds_bind_of ((reads_exists x .lock).keeps stable stop ht) fun b t ⟨ht, _⟩ => ?_
  cases b with
  | true => exact rest t ht
  | false =>
    refine Prog.holds_bind_of (create_keeps x (L := LockBorn g) stable stop
      (fun k s t q h => ⟨h.inv.steady q.toSteady, by rw [q.process]; exact h.journal,
        by rw [q.disk]; exact h.seen, fun c hs => h.unsealed c (q.toSteady.sealed.mp hs)⟩)
      (fun k t h => h.inv) ht (fun t ht _ => lockBorn ht.1 ht.2)
      (fun k t h => h.amend fun file hf =>
        ⟨hf.regular, hf.mode, hf.device, hf.outside, hf.size, fun _ => ⟨rfl, rfl⟩⟩)
      (fun k t h => h.amend fun file hf =>
        ⟨hf.regular, rfl, hf.device, hf.outside, hf.size, hf.owner⟩)) fun k t ⟨ht, _⟩ => ?_
    refine Prog.holds_bind_of (syncDirectory_keeps x
      (L := fun t => Inv g t ∧ t.process.journal = none) stable stop stop ⟨ht.inv, ht.journal⟩
      fun t ht => ⟨ht.1.settled, ht.2⟩) fun _ t ht => ?_
    exact rest t ht

/-! ## Giving the lock up -/

/-- The executor object after its lock is given up. -/
def World.cleared (w : World) : World := { w with process := { stage := w.process.stage } }

def World.retained (w : World) : World := { w with held := true }

/-- The lock is given up, or kept where a writer may survive. -/
theorem release_holds (x : Session) {K I : World → Prop} (stable : ∀ s t, Quiet s t → K s → K t)
    (stop : ∀ t, K t → I t) (closed : ∀ t, K t → K t.cleared) (kept : ∀ t, I t → I t.retained)
    (now : K w) : Prog.Holds (release x) (fun _ => K) (fun _ => I) I w := by
  unfold release
  rw [Prog.holds_bind, Prog.holds_read]
  split
  · have look : Reads (do noKeytool x; if w.process.expectStopped then stopped x)
        fun _ _ => True := by
      refine reads_then (reads_noKeytool x) fun _ => ?_
      split
      · exact (reads_stopped x).mono fun _ _ _ _ => trivial
      · exact (reads_pure ()).mono fun _ _ _ _ => trivial
    rw [Prog.holds_bind, Prog.holds_handle]
    refine (look.keeps stable stop now).mono (fun _ t ⟨ht, _⟩ => ?_) (fun _ t ht => ?_) fun t ht => ht
    · exact closed _ (stable t _ (quiet_log (e := .released) rfl rfl) ht)
    · exact kept t ht
  · exact now

/-- A locked operation: it stops in `I` when its body does, and ends in `Q` when
giving up the lock disturbs neither. -/
theorem locked_holds (x : Session) {body : Exec α} {A I : World → Prop} {Q : α → World → Prop}
    (enter : Prog.Holds (acquire x) (fun _ => A) (fun _ => I) I w)
    (inside : ∀ t, A t → Prog.Holds body Q (fun _ => I) I t)
    (stable : ∀ a s t, Quiet s t → Q a s → Q a t) (closed : ∀ a t, Q a t → Q a t.cleared)
    (stop : ∀ a t, Q a t → I t) (stable' : ∀ s t, Quiet s t → I s → I t)
    (closed' : ∀ t, I t → I t.cleared) (kept : ∀ t, I t → I t.retained) :
    Prog.Holds (locked x body) Q (fun _ => I) I w := by
  unfold locked
  rw [Prog.holds_ensure]
  have run : Prog.Holds (mask "UniFi executor operation failed; recovery may be required"
      (do acquire x; body)) Q (fun _ => I) I w := by
    unfold mask
    rw [Prog.holds_handle]
    exact Prog.holds_bind_of enter fun _ t ht => inside t ht
  refine run.mono (fun a t ht => ?_) (fun e t ht => ?_) fun t ht => ht
  · exact release_holds x (stable a) (stop a) (closed a) kept ht
  · exact release_holds x stable' (fun t h => h) closed' kept ht

theorem Inv.cleared (h : Inv g w) : Inv g w.cleared := by
  refine { h with memory := fun j hj => ?_ }
  cases hj

theorem Inv.retained (h : Inv g w) : Inv g w.retained := { h with }

/-- A locked operation keeps the invariant when its body does, and what its
body promises when giving up the lock does not disturb it. -/
theorem locked_keeps (x : Session) {body : Exec α} {P : α → World → Prop}
    (stable : ∀ a s t, Quiet s t → P a s → P a t) (closed : ∀ a t, P a t → P a t.cleared)
    (inside : ∀ t, Entered g t → Locks w t →
      Prog.Holds body (fun a t => Inv g t ∧ P a t) (fun _ => Inv g) (Inv g) t)
    (inv : Inv g w) (journal : w.process.journal = none) :
    Prog.Holds (locked x body) (fun a t => Inv g t ∧ P a t) (fun _ => Inv g) (Inv g) w := by
  refine locked_holds x (A := fun t => Entered g t ∧ Locks w t) ?_ (fun t ht => inside t ht.1 ht.2)
    (fun a s t q h => ⟨h.1.steady q.toSteady, stable a s t q h.2⟩)
    (fun a t h => ⟨h.1.cleared, closed a t h.2⟩) (fun a t h => h.1)
    (fun s t q h => h.steady q.toSteady) (fun t h => h.cleared) fun t h => h.retained
  exact ((acquire_keeps x inv journal).and (acquire_locks x)).mono (fun _ t ht => ⟨ht.1, ht.2.1⟩)
    (fun _ t ht => ht.1) fun t ht => ht.1

end

end CertRenewer
