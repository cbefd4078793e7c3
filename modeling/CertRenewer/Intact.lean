import CertRenewer.Orphans

/-!
# Operations that leave nothing behind

Everything an operation does before a transaction begins leaves the five names
of the data directory, their files and the service alone: at most the lock's
file is new. An inspection and a signing request never do more.
-/

namespace CertRenewer

open Crash

/-- Each name but the lock denotes the file it did, and the files are as they
were. -/
structure Intact (w t : World) : Prop where
  names : ∀ n, n ≠ .lock → t.disk.dir.visible n = w.disk.dir.visible n
  files : ∀ i < w.disk.dir.next, t.disk.files i = w.disk.files i
  next : w.disk.dir.next ≤ t.disk.dir.next

/-- The service is as it was too, and only entries with `P` are new. -/
structure Passive (P : Entry → Prop) (w t : World) : Prop extends Intact w t where
  service : t.service = w.service
  uuids : t.uuids = w.uuids
  new : Notes P w t

abbrev Looks {α : Type} (P : Entry → Prop) (m : Exec α) : Prop :=
  Prog.Yields (Passive P) m fun _ _ => True

section
variable {α β : Type} {P : Entry → Prop} {x : Session} {w t u : World} {m : Exec α}

theorem Intact.refl (w : World) : Intact w w := ⟨fun _ _ => rfl, fun _ _ => rfl, Nat.le_refl _⟩

theorem Intact.of_disk (h : t.disk = w.disk) : Intact w t := by
  refine ⟨?_, ?_, ?_⟩
  · rw [h]
    exact fun _ _ => rfl
  · rw [h]
    exact fun _ _ => rfl
  · exact Nat.le_of_eq (by rw [h])

theorem Intact.trans (h : Intact w t) (k : Intact t u) : Intact w u where
  names n other := (k.names n other).trans (h.names n other)
  files i below := (k.files i (Nat.lt_of_lt_of_le below h.next)).trans (h.files i below)
  next := Nat.le_trans h.next k.next

theorem Passive.refl (P : Entry → Prop) (w : World) : Passive P w w :=
  ⟨Intact.refl w, rfl, rfl, Notes.refl P w⟩

theorem Passive.trans (h : Passive P w t) (k : Passive P t u) : Passive P w u :=
  ⟨h.toIntact.trans k.toIntact, k.service.trans h.service, k.uuids.trans h.uuids,
    h.new.trans k.new⟩

/-! ## Rules -/

theorem Reads.looks {S : α → View → Prop} (h : Reads m S) (e : Emits P m) : Looks P m := fun w =>
  ((h w).and (e w)).mono
    (fun _ _ ht => ⟨⟨.of_disk ht.1.1.disk, ht.1.1.service, ht.1.1.uuids, ht.2.1⟩, trivial⟩)
    (fun _ _ ht => ⟨.of_disk ht.1.disk, ht.1.service, ht.1.uuids, ht.2⟩)
    fun _ ht => ⟨.of_disk ht.1.disk, ht.1.service, ht.1.uuids, ht.2⟩

theorem looks_lift (r : Result α) : Looks P (lift r) := (reads_lift r).looks (logs_lift r).emits

theorem looks_demand (p : Prop) [Decidable p] (message : String) : Looks P (demand p message) :=
  (reads_demand p message).looks (logs_demand p message).emits

theorem looks_refuse (message : String) : Looks P (refuse message : Exec α) :=
  (reads_refuse message).looks (logs_raise _).emits

theorem looks_pure (a : α) : Looks P (pure a) := (reads_pure a).looks (logs_pure a).emits

theorem looks_read (f : World → α) : Looks P (Prog.read f) := fun w => ⟨Passive.refl P w, trivial⟩

theorem looks_update {f : World → World} (kept : ∀ w, (f w).disk = w.disk ∧ (f w).service = w.service ∧
    (f w).uuids = w.uuids ∧ (f w).trace = w.trace) : Looks P (Prog.update f) := fun w => by
  obtain ⟨disk, service, uuids, trace⟩ := kept w
  exact ⟨⟨.of_disk disk, service, uuids, [], trace, by simp⟩, trivial⟩

theorem looks_emit {e : Event} (h : Always P e) : Looks P (emit e) := fun w =>
  ⟨⟨.of_disk rfl, rfl, rfl, [⟨e, w.disk, w.service, w.process⟩], rfl, by simpa using h _ _ _⟩, trivial⟩

theorem looks_bind {m : Exec β} {f : β → Exec α} (h : Looks P m) (hf : ∀ b, Looks P (f b)) :
    Looks P (m >>= f) :=
  (Prog.yields_bind (fun _ _ _ p q => p.trans q) h hf fun _ _ _ _ _ t => t).mono fun _ _ _ => trivial

theorem looks_handle {h : Error → Exec α} (first : Looks P m) (rescue : ∀ e, Looks P (h e)) :
    Looks P (Prog.handle m h) :=
  (Prog.yields_handle (fun _ _ _ p q => p.trans q) first rescue fun _ _ _ _ t => t).mono
    fun _ _ _ => trivial

theorem looks_ite {c : Prop} [Decidable c] {m' : Exec α} (yes : Looks P m) (no : Looks P m') :
    Looks P (if c then m else m') := by
  split
  · exact yes
  · exact no

theorem looks_primitive (x : Session) (h : Looks P m) : Looks P (primitive x m) :=
  yields_primitive x (fun _ _ _ p q => p.trans q) (fun w => ⟨.of_disk rfl, rfl, rfl, [], rfl, by simp⟩)
    (fun _ _ t => t) h

theorem looks_ensure {f : Exec Unit} (h : Looks P m) (last : Looks P f) : Looks P (Prog.ensure m f) := by
  intro w
  rw [Prog.holds_ensure]
  have after (t : World) (ht : Passive P w t) :
      Prog.Holds f (fun _ => Passive P w) (fun _ => Passive P w) (Passive P w) t :=
    (last t).mono (fun _ u hu => ht.trans hu.1) (fun _ u hu => ht.trans hu) fun u hu => ht.trans hu
  exact (h w).mono
    (fun _ t ht => (after t ht.1).mono (fun _ _ hu => ⟨hu, trivial⟩) (fun _ _ hu => hu) fun _ hu => hu)
    (fun _ t ht => after t ht) fun t ht => ht

/-! ## Under the lock -/

theorem Locks.intact (h : Locks w t) : Intact w t := ⟨h.names, h.files, h.next⟩

section
variable (x) (guards : ∀ e, e.guards = true → Always P e)
include guards

theorem looks_acquire : Looks P (acquire x) := fun w =>
  ((acquire_locks x).and (emits_acquire x guards w)).mono
    (fun _ _ ht => ⟨⟨ht.1.1.intact, ht.1.1.service, ht.1.1.uuids, ht.2.1⟩, trivial⟩)
    (fun _ _ ht => ⟨ht.1.intact, ht.1.service, ht.1.uuids, ht.2⟩)
    fun _ ht => ⟨ht.1.intact, ht.1.service, ht.1.uuids, ht.2⟩

theorem looks_release : Looks P (release x) := by
  have proven := (guards .provenStopped rfl).proven
  refine looks_bind (looks_read _) fun p => looks_ite ?_ (looks_pure ())
  refine looks_bind (looks_handle ?_ fun _ => ?_) fun _ => ?_
  · refine looks_bind ((reads_noKeytool x).looks (logs_noKeytool x).emits) fun _ => ?_
    exact looks_ite ((reads_stopped x).looks (logs_stopped x proven).emits) (looks_pure ())
  · refine looks_bind (looks_update fun _ => ⟨rfl, rfl, rfl, rfl⟩) fun _ => ?_
    exact (reads_raise _).looks (logs_raise _).emits
  · refine looks_bind (looks_emit (guards .released rfl)) fun _ => ?_
    exact looks_update fun _ => ⟨rfl, rfl, rfl, rfl⟩

theorem looks_locked {body : Exec α} (h : Looks P body) : Looks P (locked x body) := by
  refine looks_ensure (looks_handle (looks_bind (looks_acquire x guards) fun _ => h) fun _ => ?_)
    (looks_release x guards)
  exact (reads_raise _).looks (logs_raise _).emits

end

theorem looks_noTransaction (x : Session) : Looks P (noTransaction x) :=
  (reads_noTransaction x).looks (logs_noTransaction x).emits

/-! ## Inspections and signing requests -/

section
variable (x) (guards : ∀ e, e.guards = true → Always P e)
variable (listed : Always P (.keytool .canonical .list))
include guards listed

theorem looks_inspectPublicState : Looks P (inspectPublicState x) := by
  have collects : Looks P (collect x .canonical) :=
    (reads_collect x .canonical).looks (logs_collect x .canonical listed).emits
  refine looks_bind (looks_read _) fun p => looks_ite collects ?_
  exact looks_locked x guards (looks_bind (looks_noTransaction x) fun _ => collects)

theorem looks_generateCsr (requested : ∀ dname ext, Always P (.keytool .canonical (.certreq dname ext)))
    (policy : CertificatePolicy) : Looks P (generateCsr x policy) := by
  refine looks_bind (looks_lift _) fun command => looks_bind (looks_demand _ _) fun _ => ?_
  refine looks_locked x guards (looks_bind (looks_noTransaction x) fun _ => ?_)
  refine looks_bind ((reads_status x .canonical).looks (logs_status x .canonical).emits) fun before => ?_
  refine looks_bind ((reads_collect x .canonical).looks (logs_collect x .canonical listed).emits)
    fun state => ?_
  refine looks_bind (looks_lift _) fun id => looks_bind (looks_demand _ _) fun _ => ?_
  refine looks_bind (looks_lift _) fun dname => looks_bind (looks_lift _) fun ext => ?_
  have certreq : Looks P (keytool x .canonical (.certreq dname ext)) := by
    refine looks_bind (reads_assertLocked.looks logs_assertLocked.emits) fun _ => ?_
    refine looks_bind (looks_demand _ _) fun _ => ?_
    refine looks_bind (looks_primitive x (looks_pure ())) fun _ => looks_primitive x ?_
    exact looks_bind (looks_emit (requested dname ext)) fun _ => looks_read _
  refine looks_bind certreq fun result => ?_
  refine looks_bind ((reads_same x .canonical before).looks (logs_same x .canonical before).emits)
    fun _ => ?_
  refine looks_bind (looks_lift _) fun _ => looks_bind (looks_demand _ _) fun _ => looks_pure _

end

end

end CertRenewer
