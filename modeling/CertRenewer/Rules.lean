import CertRenewer.Reads

/-!
# Rules for the steps that change the disk

Each system call that changes the disk is one change of the world. A rule says:
if `K` holds before the step, `L` after its change, and both are good enough to
stop at, then the step leaves `L`, however it is interrupted.
-/

namespace CertRenewer

open Crash

/-! ## The changes -/

def World.born (w : World) (n : Name) : World :=
  { w.log (.created n w.disk.dir.next) with disk := w.disk.create n }

def World.amend (w : World) (i : Nat) (f : Inode → Inode) : World :=
  { w with disk := w.disk.modify i f }

def World.fsynced (w : World) (n : Name) (i : Nat) : World :=
  { w.log (.syncedFile n i) with
    disk := w.disk.modify i fun file => { file with stored := file.content } }

def World.settled (w : World) : World := (w.log .syncedDirectory).redirect w.disk.dir.sync

def World.renamed (w : World) (source target : Name) (i : Nat) : World :=
  { w.log (.renamed source target i) with
    disk := { w.disk.touch i with dir := w.disk.dir.rename source target } }

def World.unlinked (w : World) (n : Name) (i : Nat) : World :=
  { w.log (.unlinked n) with disk := { w.disk.touch i with dir := w.disk.dir.unlink n } }

def World.linked (w : World) (i : Nat) : World :=
  { w.log (.linked .rollback i) with
    disk := { w.disk.touch i with dir := w.disk.dir.link .canonical .rollback } }

/-! ## The rules -/

section
variable {K L I : World → Prop} {w : World} (x : Session)

theorem fsyncFile_keeps {n : Name} {i : Nat} (stable : ∀ s t, Quiet s t → K s → K t)
    (stop : ∀ t, K t → I t) (stop' : ∀ t, L t → I t) (now : K w)
    (effect : ∀ t, K t → L (t.fsynced n i)) :
    Prog.Holds (fsyncFile x n i) (fun _ => L) (fun _ => I) I w :=
  holds_primitive x stable stop now (fun t ht => effect t ht) fun _ => stop'

theorem syncDirectory_keeps (stable : ∀ s t, Quiet s t → K s → K t)
    (stop : ∀ t, K t → I t) (stop' : ∀ t, L t → I t) (now : K w)
    (effect : ∀ t, K t → L t.settled) :
    Prog.Holds (syncDirectory x) (fun _ => L) (fun _ => I) I w :=
  holds_primitive x stable stop now (fun t ht => effect t ht) fun _ => stop'

theorem syncFile_keeps {n : Name} (stable : ∀ s t, Quiet s t → K s → K t)
    (stop : ∀ t, K t → I t) (stop' : ∀ t, L t → I t) (now : K w)
    (effect : ∀ t i, K t → t.disk.dir.visible n = some i → L (t.fsynced n i)) :
    Prog.Holds (syncFile x n) (fun _ => L) (fun _ => I) I w := by
  refine Prog.holds_bind_of ((reads_opened x n).keeps stable stop now) fun i t ⟨ht, seen, _⟩ => ?_
  exact fsyncFile_keeps x (K := fun t => K t ∧ t.disk.dir.visible n = some i)
    (fun s t q h => ⟨stable s t q h.1, by rw [q.disk]; exact h.2⟩) (fun t h => stop t h.1) stop'
    ⟨ht, seen⟩ fun t h => effect t i h.1 h.2

/-- The two halves of a write leave `L`, whatever chunk comes first. -/
theorem write_keeps {i : Nat} {content : Content} {size : Nat}
    (stable : ∀ s t, Quiet s t → K s → K t) (stop : ∀ t, K t → I t) (stop' : ∀ t, L t → I t)
    (now : K w)
    (chunk : ∀ t bytes, K t → K (t.amend i fun file =>
      { file with content := .other bytes, size := min bytes.length size, stamp := file.stamp + 1 }))
    (effect : ∀ t, K t → L (t.amend i fun file =>
      { file with content := content, size := size, stamp := file.stamp + 1 })) :
    Prog.Holds (write x i content size) (fun _ => L) (fun _ => I) I w := by
  have first : Prog.Holds (primitive x do
      let w ← Prog.read id
      let chunk := x.oracle.partly w.tick
      fill i (.other chunk) (min chunk.length size)) (fun _ => K) (fun _ => I) I w :=
    holds_primitive x stable stop now (fun t ht => chunk t _ ht) fun _ => stop
  refine Prog.holds_bind_of first fun _ t ht => ?_
  exact holds_primitive x stable stop ht (fun t ht => effect t ht) fun _ => stop'

theorem create_keeps {n : Name} {L : Nat → World → Prop} (stable : ∀ s t, Quiet s t → K s → K t)
    (stop : ∀ t, K t → I t) (stable' : ∀ k s t, Quiet s t → L k s → L k t)
    (stop' : ∀ k t, L k t → I t) (now : K w)
    (birth : ∀ t, K t → t.disk.dir.visible n = none → L t.disk.dir.next (t.born n))
    (owned : ∀ k t, L k t → L k (t.amend k fun file =>
      { file with uid := if n = .stage then abc else 0, gid := if n = .stage then abc else 0 }))
    (moded : ∀ k t, L k t → L k (t.amend k fun file => { file with mode := 0o600 })) :
    Prog.Holds (create x n) (fun k t => L k t ∧
      ∃ s, t.disk.stat n = some s ∧ s.safe n t.disk.dev = true) (fun _ => I) I w := by
  refine Prog.holds_bind_of ((reads_checkName x).keeps stable stop now) fun _ t ht => ?_
  have entry (t : World) (ht : K t) :
      Prog.Holds (createEntry n) (fun k t => L k t) (fun _ => I) I t := by
    unfold createEntry
    rw [Prog.holds_bind, Prog.holds_read]
    cases seen : t.disk.dir.visible n with
    | some _ => exact stop t ht
    | none => exact birth t ht seen
  refine Prog.holds_bind_of
    (holds_primitive x stable stop ht.1 entry fun k => stop' k) fun k t hk => ?_
  refine Prog.holds_bind_of (holds_primitive x (S := fun _ => L k) (stable' k) (stop' k) hk
    (fun t ht => owned k t ht) fun _ => stop' k) fun _ t hk => ?_
  refine Prog.holds_bind_of (holds_primitive x (S := fun _ => L k) (stable' k) (stop' k) hk
    (fun t ht => moded k t ht) fun _ => stop' k) fun _ t hk => ?_
  refine Prog.holds_bind_of ((reads_checkOpened x n k).keeps (stable' k) (stop' k) hk)
    fun _ t found => ?_
  exact found

theorem replace_keeps {source target : Name} (stable : ∀ s t, Quiet s t → K s → K t)
    (stop : ∀ t, K t → I t) (stop' : ∀ t, L t → I t) (now : K w)
    (effect : ∀ t i s, K t → t.disk.dir.visible source = some i → t.disk.stat source = some s →
      s.safe source t.disk.dev = true → L (t.renamed source target i)) :
    Prog.Holds (replace x source target) (fun _ => L) (fun _ => I) I w := by
  refine Prog.holds_bind_of ((reads_demand _ _).keeps stable stop now) fun _ t ⟨ht, _⟩ => ?_
  refine Prog.holds_bind_of ((reads_status x source).keeps stable stop ht) fun s t ⟨ht, found⟩ => ?_
  refine holds_primitive x (K := fun t => K t ∧ t.disk.stat source = some s ∧
      s.safe source t.disk.dev = true) (fun a b q h => ⟨stable a b q h.1, by rw [q.disk]; exact h.2⟩)
    (fun t h => stop t h.1) ⟨ht, found⟩ (fun t ht => ?_) fun _ => stop'
  unfold renameEntry
  rw [Prog.holds_bind, Prog.holds_read]
  cases seen : t.disk.dir.visible source with
  | none => exact stop t ht.1
  | some i => exact effect t i s ht.1 seen ht.2.1 ht.2.2

/-- A name is removed if it is there. -/
theorem remove_keeps {n : Name} (stable : ∀ s t, Quiet s t → K s → K t)
    (stop : ∀ t, K t → I t) (stop' : ∀ t, L t → I t) (now : K w)
    (absent : ∀ t, K t → t.disk.dir.visible n = none → L t)
    (effect : ∀ t i, K t → t.disk.dir.visible n = some i → L (t.unlinked n i)) :
    Prog.Holds (remove x n) (fun _ => L) (fun _ => I) I w := by
  refine Prog.holds_bind_of ((reads_demand _ _).keeps stable stop now) fun _ t ⟨ht, _⟩ => ?_
  refine Prog.holds_bind_of ((reads_exists x n).keeps stable stop ht) fun b t ⟨ht, eq⟩ => ?_
  cases b with
  | false => exact absent t ht (by simpa using eq.symm)
  | true =>
    refine Prog.holds_bind_of ((reads_status x n).keeps stable stop ht) fun s t ⟨ht, _⟩ => ?_
    refine holds_primitive x stable stop ht (fun t ht => ?_) fun _ => stop'
    unfold unlinkEntry
    rw [Prog.holds_bind, Prog.holds_read]
    cases seen : t.disk.dir.visible n with
    | none => exact stop t ht
    | some i => exact effect t i ht seen

theorem linkRollback_keeps (stable : ∀ s t, Quiet s t → K s → K t)
    (stop : ∀ t, K t → I t) (stop' : ∀ t, L t → I t) (now : K w)
    (effect : ∀ t i, K t → t.disk.dir.visible .canonical = some i →
      t.disk.dir.visible .rollback = none → L (t.linked i)) :
    Prog.Holds (linkRollback x) (fun _ => L) (fun _ => I) I w := by
  refine Prog.holds_bind_of ((reads_status x .canonical).keeps stable stop now) fun _ t ⟨ht, _⟩ => ?_
  refine holds_primitive x stable stop ht (fun t ht => ?_) fun _ => stop'
  unfold linkEntry
  rw [Prog.holds_bind, Prog.holds_read]
  cases seen : t.disk.dir.visible .canonical with
  | none => exact stop t ht
  | some i =>
    cases free : t.disk.dir.visible .rollback with
    | some _ => exact stop t ht
    | none => exact effect t i ht seen free

end

end CertRenewer
