import CertRenewer.Recovered

/-!
# Recovery never loses the last good keystore

This is about any disk a recovery may find, not about the reachable ones: any
journal its check accepts, with any files under the other names. The canonical
name is never left free, a keystore of the journal stays under the canonical or
the rollback name, and a refusal leaves the stores where they were.
-/

namespace CertRenewer

open Crash

section
variable {x : Session} {w t : World} {j : Journal} {n : Name} {i k : Nat}

/-- The content is one of the journal's two keystores. -/
def Good (h : Host) (j : Journal) (c : Content) : Prop :=
  h.Reads c j.old ∨ ∃ id, j.issued = some id ∧ h.Reads c id

/-- A name that keeps a keystore of the journal. -/
def Keeps (h : Host) (j : Journal) (d : Disk) (n : Name) : Prop :=
  ∃ i, d.dir.visible n = some i ∧ Good h j (d.files i).content

def Retains (h : Host) (j : Journal) (d : Disk) : Prop :=
  Keeps h j d .canonical ∨ Keeps h j d .rollback

/-- Since `w`: no keystore was lost, and the canonical name was not freed. -/
structure Spared (h : Host) (j : Journal) (w t : World) : Prop where
  retained : Retains h j w.disk → Retains h j t.disk
  canonical : w.disk.dir.visible .canonical ≠ none → t.disk.dir.visible .canonical ≠ none

/-- The stores' names denote what they did, with what was in their files. -/
structure InPlace (w t : World) : Prop where
  names : ∀ n, n.isStore = true → t.disk.dir.visible n = w.disk.dir.visible n
  content : ∀ i < w.disk.dir.next, (t.disk.files i).content = (w.disk.files i).content

theorem InPlace.quiet {u : World} (h : InPlace w t) (q : Quiet t u) : InPlace w u := by
  refine ⟨?_, ?_⟩
  · rw [q.disk]
    exact h.names
  · rw [q.disk]
    exact h.content

theorem InPlace.steady {u : World} (h : InPlace w t) (q : Steady t u) : InPlace w u := by
  refine ⟨?_, ?_⟩
  · rw [q.disk]
    exact h.names
  · rw [q.disk]
    exact h.content

theorem Locks.inPlace (h : Locks w t) : InPlace w t :=
  ⟨fun n store => h.names n (by rintro rfl; cases store), fun i hi => by rw [h.files i hi]⟩

theorem InPlace.keeps (h : InPlace w t) {host : Host} (store : n.isStore = true)
    (kept : Keeps host j w.disk n) : Keeps host j t.disk n := by
  obtain ⟨i, seen, good⟩ := kept
  refine ⟨i, (h.names n store).trans seen, ?_⟩
  rw [h.content i (w.disk.dir.visible_lt seen)]
  exact good

theorem InPlace.spared (h : InPlace w t) (host : Host) : Spared host j w t where
  retained kept := kept.imp (h.keeps rfl) (h.keeps rfl)
  canonical := by rw [h.names _ rfl]; exact id

/-- A canonical store of the journal is enough. -/
theorem Keeps.spared {host : Host} (h : Keeps host j t.disk .canonical) : Spared host j w t where
  retained _ := Or.inl h
  canonical _ := by
    obtain ⟨i, seen, _⟩ := h
    rw [seen]
    simp

/-! ## Changes beside the canonical store -/

/-- Another file or another name changes. -/
theorem Keeps.move {host : Host} (h : Keeps host j w.disk .canonical)
    (name : t.disk.dir.visible .canonical = w.disk.dir.visible .canonical)
    (content : ∀ i, w.disk.dir.visible .canonical = some i →
      (t.disk.files i).content = (w.disk.files i).content) : Keeps host j t.disk .canonical := by
  obtain ⟨i, seen, good⟩ := h
  refine ⟨i, name.trans seen, ?_⟩
  rw [content i seen]
  exact good

theorem Keeps.quiet {host : Host} (h : Keeps host j w.disk .canonical) (q : Quiet w t) :
    Keeps host j t.disk .canonical := by
  rw [q.disk]
  exact h

theorem Keeps.unlinked {host : Host} (h : Keeps host j w.disk .canonical) (other : n ≠ .canonical) :
    Keeps host j (w.unlinked n i).disk .canonical := by
  refine h.move ?_ fun l _ => w.disk.content_touch i l
  change (w.disk.dir.unlink n).visible .canonical = _
  rw [Dir.visible_unlink, Function.update_of_ne other.symm]

theorem Keeps.settled {host : Host} (h : Keeps host j w.disk .canonical) :
    Keeps host j w.settled.disk .canonical := h

theorem Keeps.born {host : Host} (h : Keeps host j w.disk .canonical) (other : n ≠ .canonical) :
    Keeps host j (w.born n).disk .canonical := by
  refine h.move ?_ fun l seen => ?_
  · change (w.disk.create n).dir.visible .canonical = _
    simp [Disk.create, other.symm]
  · have older : l ≠ w.disk.dir.next := Nat.ne_of_lt (w.disk.dir.visible_lt seen)
    change ((w.disk.create n).files l).content = _
    simp [Disk.create, older]

theorem Keeps.amend {host : Host} {f : Inode → Inode} (h : Keeps host j w.disk .canonical)
    (other : w.disk.dir.visible .canonical ≠ some k) : Keeps host j (w.amend k f).disk .canonical := by
  refine h.move rfl fun l seen => ?_
  have differs : l ≠ k := fun same => other (same ▸ seen)
  change ((w.disk.modify k f).files l).content = _
  simp [Disk.modify, differs]

theorem Keeps.fsynced {host : Host} (h : Keeps host j w.disk .canonical) :
    Keeps host j (w.fsynced n k).disk .canonical := by
  refine h.move rfl fun l _ => ?_
  by_cases same : l = k
  · subst same
    simp [World.fsynced, Disk.modify]
  · simp [World.fsynced, Disk.modify, same]

theorem Keeps.published {host : Host} (h : Keeps host j w.disk .canonical)
    (seen : w.disk.dir.visible .journalNew = some k) :
    Keeps host j (w.renamed .journalNew .journal k).disk .canonical := by
  refine h.move ?_ fun l _ => w.disk.content_touch k l
  change (w.disk.dir.rename .journalNew .journal).visible .canonical = _
  by_cases same : w.disk.dir.visible .journal = some k
  · rw [Dir.rename_same _ (seen.trans same.symm)]
  · rw [Dir.rename_of_visible _ seen same, Dir.visible_push]
    rfl

/-! ## Steps after the canonical store was proved -/

/-- A step that leaves a canonical keystore of the journal where it is. -/
abbrev Preserves {α : Type} (h : Host) (j : Journal) (m : Exec α) : Prop :=
  ∀ w, Keeps h j w.disk .canonical → Prog.Holds m (fun _ t => Keeps h j t.disk .canonical)
    (fun _ t => Keeps h j t.disk .canonical) (fun t => Keeps h j t.disk .canonical) w

section
variable {α β : Type} {host : Host}

theorem preserves_bind {m : Exec β} {f : β → Exec α} (h : Preserves host j m)
    (hf : ∀ b, Preserves host j (f b)) : Preserves host j (m >>= f) := fun w kept =>
  Prog.holds_bind_of (h w kept) fun b t ht => hf b t ht

theorem Reads.preserves {m : Exec α} {P : α → View → Prop} (h : Reads m P) : Preserves host j m :=
  fun _ kept => (h.keeps (K := fun t => Keeps host j t.disk .canonical) (fun _ _ q h => h.quiet q)
    (fun _ h => h) kept).mono (fun _ _ h => h.1) (fun _ _ h => h) fun _ h => h

theorem Steadies.preserves {m : Exec α} (h : Steadies m) : Preserves host j m := fun _ kept =>
  h.keeps (K := fun t => Keeps host j t.disk .canonical)
    (fun _ _ q h => by rw [q.disk]; exact h) (fun _ h => h) kept

theorem preserves_update {f : World → World} (same : ∀ w, (f w).disk = w.disk) :
    Preserves host j (Prog.update f) := fun w kept => by
  change Keeps host j (f w).disk .canonical
  rw [same]
  exact kept

variable (x)

theorem preserves_remove (other : n ≠ .canonical) : Preserves host j (remove x n) := fun _ kept =>
  remove_keeps x (fun _ _ q h => Keeps.quiet h q) (fun _ h => h) (fun _ h => h) kept (fun _ h _ => h)
    fun _ _ h _ => Keeps.unlinked h other

theorem preserves_syncDirectory : Preserves host j (syncDirectory x) := fun _ kept =>
  syncDirectory_keeps x (fun _ _ q h => Keeps.quiet h q) (fun _ h => h) (fun _ h => h) kept
    fun _ h => h

theorem preserves_writeJournal (v : Journal) : Preserves host j (writeJournal x v) := by
  intro w kept
  have stable (s t : World) (q : Quiet s t) (h : Keeps host j s.disk .canonical) :
      Keeps host j t.disk .canonical := h.quiet q
  have stop (t : World) (h : Keeps host j t.disk .canonical) : Keeps host j t.disk .canonical := h
  -- a file that is not the canonical one
  have stable' (k : Nat) (s t : World) (q : Quiet s t)
      (h : Keeps host j s.disk .canonical ∧ s.disk.dir.visible .canonical ≠ some k) :
      Keeps host j t.disk .canonical ∧ t.disk.dir.visible .canonical ≠ some k := by
    rw [q.disk]
    exact h
  rw [writeJournal, Prog.holds_bind]
  change Prog.Holds _ _ _ _ (w.log _)
  have size : Reads (primitive x (Prog.read fun w => (x.oracle.encodedSize w.tick).val))
      fun _ _ => True := reads_primitive x fun w => ⟨Quiet.refl w, trivial⟩
  refine Prog.holds_bind_of (size.keeps stable stop kept) fun size t ⟨ht, _⟩ => ?_
  refine Prog.holds_bind_of (preserves_remove x (n := .journalNew) (by decide) t ht) fun _ t ht => ?_
  refine Prog.holds_bind_of (create_keeps x (L := fun k t => Keeps host j t.disk .canonical ∧
    t.disk.dir.visible .canonical ≠ some k) stable stop stable' (fun _ _ h => h.1) ht
    (fun t ht _ => ⟨ht.born (by decide), ?_⟩) (fun k t ht => ⟨ht.1.amend ht.2, ht.2⟩)
    (fun k t ht => ⟨ht.1.amend ht.2, ht.2⟩)) fun k t ⟨ht, _⟩ => ?_
  · intro seen
    have seen : t.disk.dir.visible .canonical = some t.disk.dir.next := by
      simpa [World.born, Disk.create] using seen
    exact Nat.lt_irrefl _ (t.disk.dir.visible_lt seen)
  refine Prog.holds_bind_of (write_keeps x (L := fun t => Keeps host j t.disk .canonical) (stable' k)
    (fun _ h => h.1) stop ht (fun t _ ht => ⟨ht.1.amend ht.2, ht.2⟩) fun t ht => ht.1.amend ht.2)
    fun _ t ht => ?_
  refine Prog.holds_bind_of (fsyncFile_keeps x (L := fun t => Keeps host j t.disk .canonical) stable stop
    stop ht fun t ht => ht.fsynced) fun _ t ht => ?_
  refine Prog.holds_bind_of (replace_keeps x (L := fun t => Keeps host j t.disk .canonical) stable stop
    stop ht fun t i _ ht seen _ _ => ht.published seen) fun _ t ht => ?_
  exact preserves_syncDirectory x t ht

theorem preserves_phase (p : Phase) (f : Journal → Journal) : Preserves host j (phase x p f) := by
  refine preserves_bind reads_getJournal.preserves fun a => ?_
  refine preserves_bind (preserves_update fun _ => rfl) fun _ => ?_
  exact preserves_bind (reads_lift _).preserves fun _ => preserves_writeJournal x _

theorem preserves_cleanUp : Preserves host j (cleanUp x) := by
  refine preserves_bind (preserves_remove x (by decide)) fun _ => ?_
  refine preserves_bind (preserves_remove x (by decide)) fun _ => ?_
  refine preserves_bind (preserves_remove x (by decide)) fun _ => ?_
  refine preserves_bind (preserves_syncDirectory x) fun _ => ?_
  exact preserves_bind (preserves_remove x (by decide)) fun _ => preserves_syncDirectory x

theorem preserves_finish : Preserves host j (finishLiveVerified x) := by
  refine preserves_bind reads_getJournal.preserves fun _ => preserves_bind (reads_demand _ _).preserves ?_
  refine fun _ => preserves_bind (preserves_remove x (by decide)) fun _ => ?_
  refine preserves_bind (preserves_syncDirectory x) fun _ => ?_
  exact preserves_bind (preserves_remove x (by decide)) fun _ => preserves_syncDirectory x

end

/-! ## The decision -/

theorem Journal.issued_of_commit (valid : j.validate = .ok ()) (possible : j.commitPossible = true) :
    ∃ id, j.issued = some id := by
  obtain ⟨_, _, _, consistent, _⟩ := Journal.validate_eq_ok.mp valid
  by_contra none
  have missing : j.issued.isNone = true := by
    cases issued : j.issued with
    | none => rfl
    | some id => exact absurd ⟨id, issued⟩ none
  exact consistent ⟨possible, Or.inl missing⟩

/-- The rollback becomes the canonical store. -/
theorem Keeps.restored {host : Host} (seen : w.disk.dir.visible .rollback = some i)
    (reads : host.Reads (w.disk.files i).content j.old) :
    Keeps host j (w.renamed .rollback .canonical i).disk .canonical := by
  refine ⟨i, ?_, Or.inl ?_⟩
  · change (w.disk.dir.rename .rollback .canonical).visible .canonical = _
    by_cases same : w.disk.dir.visible .canonical = some i
    · rw [Dir.rename_same _ (seen.trans same.symm), same]
    · rw [Dir.rename_of_visible _ seen same, Dir.visible_push]
      simp [Change.apply]
  · have content : ((w.renamed .rollback .canonical i).disk.files i).content = (w.disk.files i).content :=
      w.disk.content_touch i i
    rw [content]
    exact reads

theorem restoreRollback_spares (rollback canonical : Stat) (here : InPlace w t)
    (old : ∃ i, t.disk.dir.visible .rollback = some i ∧ x.host.Reads (t.disk.files i).content j.old) :
    Prog.Holds (restoreRollback x j rollback canonical)
      (fun _ u => Keeps x.host j u.disk .canonical) (fun _ => Spared x.host j w) (Spared x.host j w) t := by
  obtain ⟨i, seen, reads⟩ := old
  have stable (s u : World) (q : Quiet s u) (h : InPlace w s ∧ s.disk.dir.visible .rollback = some i ∧
        x.host.Reads (s.disk.files i).content j.old) : InPlace w u ∧
      u.disk.dir.visible .rollback = some i ∧ x.host.Reads (u.disk.files i).content j.old :=
    ⟨h.1.quiet q, by rw [q.disk]; exact h.2⟩
  have stop (s : World) (h : InPlace w s ∧ s.disk.dir.visible .rollback = some i ∧
      x.host.Reads (s.disk.files i).content j.old) : Spared x.host j w s := h.1.spared x.host
  refine Prog.holds_bind_of ((reads_stopped x).keeps stable stop ⟨here, seen, reads⟩) fun _ t ⟨ht, _⟩ => ?_
  refine Prog.holds_bind_of ((reads_same x .rollback rollback).keeps stable stop ht) fun _ t ⟨ht, _⟩ => ?_
  refine Prog.holds_bind_of ((reads_same x .canonical canonical).keeps stable stop ht)
    fun _ t ⟨ht, _⟩ => ?_
  refine Prog.holds_bind_of (replace_keeps x (L := fun u => Keeps x.host j u.disk .canonical) stable stop
    (fun _ h => h.spared) ht fun u k _ hu there _ _ => ?_) fun _ t ht => ?_
  · obtain rfl : i = k := Option.some.inj (hu.2.1.symm.trans there)
    exact .restored hu.2.1 hu.2.2
  have rest : Preserves x.host j (do
      syncDirectory x
      let id ← collectId x .canonical
      demand (id = j.old) "rollback restoration failed"
      let info ← status x .canonical
      demand (info.fileId = j.oldInode) "rollback restoration failed") := by
    refine preserves_bind (preserves_syncDirectory x) fun _ => ?_
    refine preserves_bind (reads_collectId x .canonical).preserves fun _ => ?_
    refine preserves_bind (reads_demand _ _).preserves fun _ => ?_
    exact preserves_bind (reads_status x .canonical).preserves fun _ => (reads_demand _ _).preserves
  exact (rest t ht).mono (fun _ _ h => h) (fun _ _ h => h.spared) fun _ h => h.spared

/-- Whatever is decided, the canonical store is then one of the journal's. -/
theorem decideRecovery_spares (valid : j.validate = .ok ()) (here : InPlace w t) :
    Prog.Holds (decideRecovery x j) (fun _ u => Keeps x.host j u.disk .canonical)
      (fun _ => Spared x.host j w) (Spared x.host j w) t := by
  have stable (s u : World) (q : Quiet s u) (h : InPlace w s ∧ s.disk = t.disk) :
      InPlace w u ∧ u.disk = t.disk := ⟨h.1.quiet q, q.disk.trans h.2⟩
  have stop (s : World) (h : InPlace w s ∧ s.disk = t.disk) : Spared x.host j w s := h.1.spared x.host
  refine Prog.holds_bind_of ((reads_status x .canonical).keeps stable stop ⟨here, rfl⟩)
    fun info u looked => ?_
  have hu := looked.1
  refine Prog.holds_bind_of ((reads_observeCanonical info).keeps stable stop hu)
    fun canonical u looked => ?_
  obtain ⟨hu, _, found⟩ := looked
  refine Prog.holds_bind_of ((reads_checkRollback j info).keeps stable stop hu)
    fun rollback v looked => ?_
  obtain ⟨hv, old⟩ := looked
  have found (id : PublicId) (eq : canonical = some id) (mine : j.old = id ∨ j.issued = some id) :
      Keeps x.host j v.disk .canonical := by
    obtain ⟨i, seen, reads⟩ := found id eq
    rw [World.view_disk, hu.2, ← hv.2] at seen reads
    refine ⟨i, seen, ?_⟩
    rcases mine with rfl | issued
    · exact Or.inl reads
    · exact Or.inr ⟨id, issued, reads⟩
  split
  · rename_i same
    exact found j.old same.1 (Or.inl rfl)
  · split
    · rename_i pending
      obtain ⟨id, issued⟩ := Journal.issued_of_commit valid pending.1
      exact found id (pending.2.2.1.trans issued) (Or.inr issued)
    · cases rollback with
      | none => exact hv.1.spared x.host
      | some rollback =>
        refine Prog.holds_bind_of ((reads_demand _ _).keeps stable stop hv) fun _ u demanded => ?_
        have hu := demanded.1
        have kept := (old rollback rfl).2.2
        rw [World.view_disk, hv.2, ← hu.2] at kept
        exact Prog.holds_bind_of (restoreRollback_spares rollback info hu.1 kept) fun _ _ h => h

/-! ## Recovery -/

theorem preserves_resumeService (startup : Bool) : Preserves x.host j (resumeService x startup) :=
  (steadies_resumeService x startup).preserves

theorem recoverTransaction_spares (valid : j.validate = .ok ()) (startup : Bool) (here : InPlace w t) :
    Prog.Holds (recoverTransaction x j startup) (fun _ u => Spared x.host j w u)
      (fun _ => Spared x.host j w) (Spared x.host j w) t := by
  have steady (s u : World) (q : Steady s u) (h : InPlace w s) : InPlace w u := h.steady q
  have stop (s : World) (h : InPlace w s) : Spared x.host j w s := h.spared x.host
  refine Prog.holds_bind_of ((steadies_process (f := fun p => { p with expectStopped := true })
    fun _ => ⟨rfl, rfl⟩).keeps steady stop here) fun _ u hu => ?_
  refine Prog.holds_bind_of ((steadies_stop x).keeps steady stop hu) fun _ u hu => ?_
  refine Prog.holds_bind_of (decideRecovery_spares valid hu) fun outcome u hu => ?_
  have rest : Preserves x.host j (do
      checkStage x j
      stopped x
      resumeService x startup
      phase x outcome.journalPhase
      if outcome = .recoveredOld then cleanUp x
      pure outcome) := by
    refine preserves_bind ?_ fun _ => preserves_bind (reads_stopped x).preserves fun _ => ?_
    · refine preserves_bind (reads_exists x .stage).preserves fun b => ?_
      split
      · exact preserves_bind (reads_status x .stage).preserves fun _ => (reads_demand _ _).preserves
      · exact (reads_pure ()).preserves
    refine preserves_bind (preserves_resumeService startup) fun _ => ?_
    refine preserves_bind (preserves_phase x _ _) fun _ => ?_
    split
    · exact preserves_bind (preserves_cleanUp x) fun _ => (reads_pure outcome).preserves
    · exact (reads_pure outcome).preserves
  exact (rest u hu).mono (fun _ _ h => h.spared) (fun _ _ h => h.spared) fun _ h => h.spared

/-- The journal that was there is the one that is loaded. -/
theorem loadJournal_reads {l : Nat} (record : w.disk.dir.visible .journal = some l)
    (content : (w.disk.files l).content = .journal j) (locks : Locks w t) :
    Prog.Holds (loadJournal x) (fun a u => a = j ∧ j.validate = .ok () ∧ InPlace w u ∧
      u.process.journal = some j) (fun _ => InPlace w) (InPlace w) t := by
  have stable (s u : World) (q : Quiet s u) (h : Locks w s) : Locks w u := h.quiet q
  have stop (s : World) (h : Locks w s) : InPlace w s := h.inPlace
  refine Prog.holds_bind_of ((reads_readJournal x).keeps stable stop locks)
    fun a u ⟨hu, i, seen, found⟩ => ?_
  obtain rfl : l = i := by
    rw [World.view_disk, hu.names _ (by decide)] at seen
    exact Option.some.inj (record.symm.trans seen)
  obtain rfl : j = a := by
    rw [World.view_disk, hu.files l (w.disk.dir.visible_lt record), content] at found
    exact Content.journal.inj found
  refine Prog.holds_bind_of ((reads_lift _).keeps stable stop hu) fun _ u ⟨hu, valid⟩ => ?_
  rw [Prog.holds_bind]
  change Prog.Holds _ _ _ _ (u.remember j)
  have here : InPlace w (u.remember j) := ⟨hu.inPlace.names, hu.inPlace.content⟩
  have policy : Reads (requireCurrentPolicy x) fun _ _ => True :=
    reads_then reads_getJournal fun a => (reads_demand _ _).mono fun _ _ _ _ => trivial
  refine Prog.holds_bind_of (policy.keeps (K := fun s => InPlace w s ∧ s.process.journal = some j)
    (fun s u q h => ⟨h.1.quiet q, by rw [q.process]; exact h.2⟩) (fun s h => h.1) ⟨here, rfl⟩)
    fun _ u hu => ⟨rfl, valid, hu.1⟩

theorem Spared.quiet {host : Host} {u : World} (h : Spared host j w t) (q : Quiet t u) :
    Spared host j w u := by
  refine ⟨?_, ?_⟩
  · rw [q.disk]
    exact h.retained
  · rw [q.disk]
    exact h.canonical

theorem InPlace.synced {u : World} (h : InPlace w t) (names : u.disk.dir.visible = t.disk.dir.visible)
    (content : ∀ i, (u.disk.files i).content = (t.disk.files i).content) : InPlace w u :=
  ⟨fun n store => by rw [names]; exact h.names n store, fun i hi => (content i).trans (h.content i hi)⟩

theorem establish_inPlace (memory : t.process.journal = some j) (here : InPlace w t) :
    Prog.Holds (establishLiveVerifiedDurability x)
      (fun _ u => InPlace w u ∧ u.process.journal = some j) (fun _ => InPlace w) (InPlace w) t := by
  have stable (s u : World) (q : Quiet s u) (h : InPlace w s ∧ s.process.journal = some j) :
      InPlace w u ∧ u.process.journal = some j := ⟨h.1.quiet q, by rw [q.process]; exact h.2⟩
  have stop (s : World) (h : InPlace w s ∧ s.process.journal = some j) : InPlace w s := h.1
  refine Prog.holds_bind_of (reads_getJournal.keeps stable stop ⟨here, memory⟩) fun _ u ⟨hu, _⟩ => ?_
  refine Prog.holds_bind_of ((reads_demand _ _).keeps stable stop hu) fun _ u ⟨hu, _⟩ => ?_
  refine Prog.holds_bind_of ((reads_status x .journal).keeps stable stop hu) fun info u ⟨hu, _⟩ => ?_
  refine Prog.holds_bind_of (syncFile_keeps x (L := fun s => InPlace w s ∧ s.process.journal = some j)
    stable stop stop hu fun s i hs _ => ⟨hs.1.synced rfl fun l => ?_, hs.2⟩) fun _ u hu => ?_
  · by_cases same : l = i
    · subst same
      simp [World.fsynced, Disk.modify]
    · simp [World.fsynced, Disk.modify, same]
  refine Prog.holds_bind_of ((reads_same x .journal info).keeps stable stop hu) fun _ u ⟨hu, _⟩ => ?_
  refine Prog.holds_bind_of (syncDirectory_keeps x
    (L := fun s => InPlace w s ∧ s.process.journal = some j) stable stop stop hu
    fun s hs => ⟨hs.1.synced rfl fun _ => rfl, hs.2⟩) fun _ u hu => ?_
  exact ((reads_same x .journal info).keeps stable stop hu).mono (fun _ _ h => h.1) (fun _ _ h => h)
    fun _ h => h

theorem recover_spares {l : Nat} (record : w.disk.dir.visible .journal = some l)
    (content : (w.disk.files l).content = .journal j) (startup : Bool) :
    Prog.Holds (recover x startup) (fun _ => Spared x.host j w) (fun _ => Spared x.host j w)
      (Spared x.host j w) w := by
  have stop (s : World) (h : InPlace w s) : Spared x.host j w s := h.spared x.host
  refine locked_holds x (A := Locks w) (Q := fun _ => Spared x.host j w) ?_ (fun t ht => ?_)
    (fun _ _ _ q h => h.quiet q) (fun _ _ h => ⟨h.retained, h.canonical⟩) (fun _ _ h => h)
    (fun _ _ q h => h.quiet q) (fun _ h => ⟨h.retained, h.canonical⟩) fun _ h => ⟨h.retained, h.canonical⟩
  · exact (acquire_locks x).mono (fun _ _ h => h.1) (fun _ _ h => stop _ h.inPlace) fun _ h => stop _ h.inPlace
  refine Prog.holds_bind_of ((reads_exists x .journal).keeps (K := Locks w) (fun _ _ q h => h.quiet q)
    (fun s h => stop s h.inPlace) ht) fun b t ⟨ht, there⟩ => ?_
  rw [World.view_disk, ht.names _ (by decide), record] at there
  rw [there, Option.isSome_some, if_pos rfl]
  refine Prog.holds_bind_of ((loadJournal_reads record content ht).mono (fun _ _ h => h)
    (fun _ s h => stop s h) fun s h => stop s h) fun a t ⟨rfl, valid, here, memory⟩ => ?_
  split
  · refine Prog.holds_bind_of ((establish_inPlace memory here).mono (fun _ _ h => h)
      (fun _ s h => stop s h) fun s h => stop s h) fun _ t ⟨here, memory⟩ => ?_
    refine Prog.holds_bind_of ((reads_validateLiveVerifiedFiles true).keeps
      (K := fun s => InPlace w s ∧ s.process.journal = some a)
      (fun s u q h => ⟨h.1.quiet q, by rw [q.process]; exact h.2⟩) (fun s h => stop s h.1)
      ⟨here, memory⟩) fun _ t ⟨⟨here, memory⟩, b, found, files⟩ => ?_
    obtain rfl : a = b := Option.some.inj (memory.symm.trans found)
    have kept : Keeps x.host a t.disk .canonical := by
      obtain ⟨s, id, seen, _, _, reads, issued⟩ := files.canonical
      exact ⟨s.ino, (Disk.visible_of_stat seen).1, Or.inr ⟨id, issued.symm, reads⟩⟩
    refine Prog.holds_bind_of ((preserves_finish x t kept).mono (fun _ _ h => h) (fun _ _ h => h.spared)
      fun _ h => h.spared) fun _ _ h => h.spared
  · exact recoverTransaction_spares valid startup here

end

/-! ## Refusals

Only the decision refuses, and it refuses before it changes anything. What
follows a decision can fail in many ways, but not with these words. -/

def refusals : List String :=
  ["unexpected rollback; operator recovery required", "required rollback missing",
    "unexpected canonical; operator recovery required"]

def Refusal (e : Error) : Prop := ∃ message ∈ refusals, e = .operation message

theorem refusal_operation {message : String} : Refusal (.operation message) ↔ message ∈ refusals :=
  ⟨fun ⟨_, member, eq⟩ => Error.operation.inj eq ▸ member, fun member => ⟨message, member, rfl⟩⟩

theorem not_refusal_os : ¬ Refusal .os := fun ⟨_, _, no⟩ => nomatch no

/-- However `m` fails from `w`, it is not a refusal. -/
abbrev PlainAt {α : Type} (m : Exec α) (w : World) : Prop :=
  Prog.Holds m (fun _ _ => True) (fun e _ => ¬ Refusal e) (fun _ => True) w

def Plain {α : Type} (m : Exec α) : Prop := ∀ w, PlainAt m w

section
variable {α β : Type}

theorem plain_pure (a : α) : Plain (pure a) := fun _ => trivial

theorem plain_read (f : World → α) : Plain (Prog.read f) := fun _ => trivial

theorem plain_update (f : World → World) : Plain (Prog.update f) := fun _ => trivial

theorem plain_os : Plain (Prog.raise .os : Exec α) := fun _ => not_refusal_os

theorem plain_demand (p : Prop) [Decidable p] {message : String} (other : message ∉ refusals) :
    Plain (demand p message) := fun w => by
  rw [demand, PlainAt, Prog.holds_guard]
  exact ⟨fun _ => trivial, fun _ no => other (refusal_operation.mp no)⟩

theorem plain_refuse {message : String} (other : message ∉ refusals) :
    Plain (refuse message : Exec α) := fun _ no => other (refusal_operation.mp no)

theorem plain_bind {m : Exec β} {f : β → Exec α} (h : Plain m) (hf : ∀ b, Plain (f b)) :
    Plain (m >>= f) := fun w => Prog.holds_bind_of (h w) fun b t _ => hf b t

theorem plain_primitive (x : Session) {m : Exec α} (h : Plain m) : Plain (primitive x m) := by
  intro w
  change Prog.Holds (Prog.interrupted .os m (x.oracle.verdict w.tick)) _ _ _ { w with tick := w.tick + 1 }
  exact Prog.holds_interrupted _ (h _) (fun _ => ⟨not_refusal_os, trivial⟩)
    fun _ _ _ _ => ⟨not_refusal_os, trivial⟩

theorem plain_ite {c : Prop} [Decidable c] {m m' : Exec α} (h : Plain m) (h' : Plain m') :
    Plain (if c then m else m') := by
  split
  · exact h
  · exact h'

variable (x : Session) (n : Name)

theorem plain_checkName : Plain (checkName x) := plain_primitive x (plain_pure ())

theorem plain_status : Plain (status x n) := by
  refine plain_bind (plain_checkName x) fun _ => plain_primitive x ?_
  refine plain_bind (plain_read _) fun d => ?_
  cases d.stat n with
  | none => exact plain_os
  | some s => exact plain_bind (plain_demand _ (by decide)) fun _ => plain_pure s

theorem plain_exists : Plain (exists_ x n) :=
  plain_bind (plain_checkName x) fun _ => plain_primitive x (plain_read _)

theorem plain_same (expected : Stat) : Plain (same x n expected) :=
  plain_bind (plain_status x n) fun _ => plain_demand _ (by decide)

theorem plain_checkOpened (i : Nat) : Plain (checkOpened x n i) :=
  plain_bind (plain_primitive x (plain_read _)) fun _ => plain_bind (plain_status x n) fun _ =>
    plain_demand _ (by decide)

theorem plain_create : Plain (create x n) := by
  refine plain_bind (plain_checkName x) fun _ => plain_bind (plain_primitive x ?_) fun i => ?_
  · refine plain_bind (plain_read _) fun d => ?_
    cases d.dir.visible n with
    | some _ => exact plain_os
    | none => exact plain_bind (plain_update _) fun _ => plain_bind (plain_update _) fun _ => plain_pure _
  · refine plain_bind (plain_primitive x (plain_update _)) fun _ => ?_
    refine plain_bind (plain_primitive x (plain_update _)) fun _ => ?_
    exact plain_bind (plain_checkOpened x n i) fun _ => plain_pure i

theorem plain_fsyncFile (i : Nat) : Plain (fsyncFile x n i) :=
  plain_primitive x (plain_bind (plain_update _) fun _ => plain_update _)

theorem plain_syncDirectory : Plain (syncDirectory x) :=
  plain_primitive x (plain_bind (plain_update _) fun _ => plain_update _)

theorem plain_write (i : Nat) (content : Content) (size : Nat) : Plain (write x i content size) :=
  plain_bind (plain_primitive x (plain_bind (plain_read _) fun _ => plain_update _)) fun _ =>
    plain_primitive x (plain_update _)

theorem plain_replace (source target : Name) : Plain (replace x source target) := by
  refine plain_bind (plain_demand _ (by decide)) fun _ => plain_bind (plain_status x source) fun _ => ?_
  refine plain_primitive x (plain_bind (plain_read _) fun d => ?_)
  cases d.dir.visible source with
  | none => exact plain_os
  | some _ => exact plain_bind (plain_update _) fun _ => plain_update _

theorem plain_remove : Plain (remove x n) := by
  refine plain_bind (plain_demand _ (by decide)) fun _ => plain_bind (plain_exists x n) fun _ => ?_
  refine plain_ite (plain_bind (plain_status x n) fun _ => plain_primitive x ?_) (plain_pure ())
  refine plain_bind (plain_read _) fun d => ?_
  cases d.dir.visible n with
  | none => exact plain_os
  | some _ => exact plain_bind (plain_update _) fun _ => plain_update _

theorem plain_writeJournal (v : Journal) : Plain (writeJournal x v) := by
  refine plain_bind (plain_update _) fun _ => plain_bind (plain_primitive x (plain_read _)) fun size => ?_
  refine plain_bind (plain_remove x _) fun _ => plain_bind (plain_create x _) fun i => ?_
  refine plain_bind (plain_write x i _ size) fun _ => plain_bind (plain_fsyncFile x _ i) fun _ => ?_
  exact plain_bind (plain_replace x _ _) fun _ => plain_syncDirectory x

theorem plain_getJournal : Plain getJournal := by
  refine plain_bind (plain_read _) fun p => ?_
  cases p.journal with
  | none => exact plain_refuse (by decide)
  | some j => exact plain_pure j

theorem plain_require {p : Prop} [Decidable p] {message : String} (other : message ∉ refusals)
    {f : Unit → Result Unit} (rest : ∀ e, f () = .error e → ¬ Refusal e) (e : Error)
    (h : (require p message >>= f) = .error e) : ¬ Refusal e := by
  rcases bind_eq_error.mp h with refused | ⟨_, _, h⟩
  · obtain ⟨_, rfl⟩ := check_error.mp refused
    exact fun no => other (refusal_operation.mp no)
  · exact rest e h

theorem plain_validate (v : Journal) : Plain (lift v.validate : Exec Unit) := by
  have plain : ∀ e, v.validate = .error e → ¬ Refusal e := by
    unfold Journal.validate
    refine plain_require (by decide) (plain_require (by decide) (plain_require (by decide)
      (plain_require (by decide) fun e h => ?_)))
    obtain ⟨_, rfl⟩ := check_error.mp h
    exact fun no => absurd (refusal_operation.mp no) (by decide)
  intro w
  rw [lift, PlainAt, Prog.holds_ofExcept]
  exact ⟨fun _ _ => trivial, plain⟩

theorem plain_phase (p : Phase) (f : Journal → Journal) : Plain (phase x p f) :=
  plain_bind plain_getJournal fun _ => plain_bind (plain_update _) fun _ =>
    plain_bind (plain_validate _) fun _ => plain_writeJournal x _

theorem plain_cleanUp : Plain (cleanUp x) := by
  refine plain_bind (plain_remove x _) fun _ => plain_bind (plain_remove x _) fun _ => ?_
  refine plain_bind (plain_remove x _) fun _ => plain_bind (plain_syncDirectory x) fun _ => ?_
  exact plain_bind (plain_remove x _) fun _ => plain_syncDirectory x

theorem plain_finish : Plain (finishLiveVerified x) := by
  refine plain_bind plain_getJournal fun _ => plain_bind (plain_demand _ (by decide)) fun _ => ?_
  refine plain_bind (plain_remove x _) fun _ => plain_bind (plain_syncDirectory x) fun _ => ?_
  exact plain_bind (plain_remove x _) fun _ => plain_syncDirectory x

theorem plain_processes : Plain (processes x) := plain_primitive x (plain_read _)

theorem plain_running : Plain (running x) := plain_primitive x (plain_read _)

theorem plain_stopped : Plain (stopped x) := by
  refine plain_bind (plain_processes x) fun _ => plain_bind (plain_demand _ (by decide)) fun _ => ?_
  refine plain_bind (plain_running x) fun _ => plain_bind (plain_demand _ (by decide)) fun _ => ?_
  exact plain_update _

theorem plain_start : Plain (start x) := by
  refine plain_bind (plain_bind (plain_processes x) fun _ => plain_demand _ (by decide)) fun _ => ?_
  refine plain_bind (plain_primitive x (plain_bind (plain_update _) fun _ => plain_update _)) fun _ => ?_
  refine plain_bind (plain_running x) fun _ => plain_bind (plain_demand _ (by decide)) fun _ => ?_
  exact plain_bind (plain_processes x) fun _ => plain_demand _ (by decide)

theorem plain_checkStage (j : Journal) : Plain (checkStage x j) :=
  plain_bind (plain_exists x _) fun _ =>
    plain_ite (plain_bind (plain_status x _) fun _ => plain_demand _ (by decide)) (plain_pure ())

end

/-! ## Reading a store that reads back -/

section
variable {α β : Type} {x : Session} {w t : World} {j : Journal} {i : Nat}

/-- The canonical store reads back, as something. -/
def Legible (h : Host) (d : Disk) : Prop :=
  ∃ i id, d.dir.visible .canonical = some i ∧ h.Reads (d.files i).content id

theorem Keeps.legible {host : Host} {d : Disk} (h : Keeps host j d .canonical) : Legible host d := by
  obtain ⟨i, seen, reads | ⟨id, _, reads⟩⟩ := h
  · exact ⟨i, j.old, seen, reads⟩
  · exact ⟨i, id, seen, reads⟩

/-- A looking step that is plain, in front of the rest. -/
theorem Reads.plain_then {m : Exec β} {f : β → Exec α} {P : β → View → Prop} (h : Reads m P)
    (plain : PlainAt m w) (rest : ∀ b t, Quiet w t → P b w.view → PlainAt (f b) t) :
    PlainAt (m >>= f) w :=
  Prog.holds_bind_of (((h w).and plain).mono (fun _ _ h => h.1) (fun _ _ h => h.2) fun _ _ => trivial)
    fun b t hb => rest b t hb.1 hb.2

theorem Steadies.plain_then {m : Exec β} {f : β → Exec α} (h : Steadies m) (plain : PlainAt m w)
    (rest : ∀ b t, Steady w t → PlainAt (f b) t) : PlainAt (m >>= f) w :=
  Prog.holds_bind_of (((h w).and plain).mono (fun _ _ h => h.1) (fun _ _ h => h.2) fun _ _ => trivial)
    fun b t hb => rest b t hb.1

theorem plainAt_lift {r : Result α} {a : α} (ok : r = .ok a) : PlainAt (lift r) w := by
  subst ok
  exact trivial

theorem plain_assertLocked : Plain assertLocked :=
  plain_bind (plain_read _) fun _ => plain_demand _ (by decide)

theorem plain_list : Plain (keytool x .canonical .list) := by
  refine plain_bind plain_assertLocked fun _ => plain_bind (plain_demand _ (by decide)) fun _ => ?_
  refine plain_bind (plain_primitive x (plain_pure ())) fun _ => plain_primitive x ?_
  refine plain_bind (plain_update _) fun _ => plain_bind (plain_read _) fun d => ?_
  cases d.inode .canonical with
  | none => exact plain_os
  | some file =>
    simp only
    cases x.host.listing file.content with
    | none => exact plain_os
    | some output => exact plain_pure output

theorem plainAt_collect (legible : Legible x.host w.disk) : PlainAt (collect x .canonical) w ∧
    Reads (collect x .canonical) fun state v => Legible x.host v.disk →
      ∃ id, publicId x.host.lib state = .ok id := by
  constructor
  · obtain ⟨i, id, seen, state, read, _⟩ := legible
    refine reads_assertLocked.plain_then (plain_assertLocked w) fun _ t q _ => ?_
    have seen : t.disk.dir.visible .canonical = some i := by rw [q.disk]; exact seen
    have read : x.host.read (t.disk.files i).content = some state := by rw [q.disk]; exact read
    refine (reads_demand _ _).plain_then (plain_demand _ (by decide) t) fun _ u q' _ => ?_
    have q := q'
    refine (reads_status x .canonical).plain_then (plain_status x _ u) fun before v q' _ => ?_
    have q := q.trans q'
    refine (reads_list x .canonical).plain_then (plain_list v)
      fun data z q' ⟨file, inode, listed⟩ => ?_
    have file_ : file = t.disk.files i := by
      rw [World.view_disk, q.disk, Disk.inode, seen, Option.map_some] at inode
      exact (Option.some.inj inode).symm
    refine (reads_same x .canonical before).plain_then (plain_same x _ before z) fun _ _ _ _ => ?_
    rw [Host.read, ← file_, listed] at read
    simp only at read
    split at read
    · rename_i parsed
      exact plainAt_lift parsed
    · cases read
  · refine (reads_collect x .canonical).mono ?_
    rintro state v ⟨i, seen, read⟩ ⟨l, id, there, state', read', named⟩
    obtain rfl : i = l := Option.some.inj (seen.symm.trans there)
    obtain rfl : state = state' := Option.some.inj (read.symm.trans read')
    exact ⟨id, named⟩

theorem Legible.quiet {host : Host} (h : Legible host w.disk) (q : Quiet w t) : Legible host t.disk := by
  rw [q.disk]
  exact h

theorem Legible.steady {host : Host} (h : Legible host w.disk) (q : Steady w t) : Legible host t.disk := by
  rw [q.disk]
  exact h

/-- The public identity of a canonical store that reads back. -/
theorem plainAt_readId (legible : Legible x.host w.disk) {f : PublicId → Exec α}
    (rest : ∀ id t, Quiet w t → PlainAt (f id) t) : PlainAt (do
      let id ← lift (publicId x.host.lib (← collect x .canonical))
      f id) w := by
  obtain ⟨plain, found⟩ := plainAt_collect (x := x) legible
  refine found.plain_then plain fun state t q named => ?_
  obtain ⟨id, named⟩ := named legible
  refine (reads_lift _).plain_then (plainAt_lift named) fun id u q' _ => rest id u (q.trans q')

theorem plainAt_collectId (legible : Legible x.host w.disk) : PlainAt (collectId x .canonical) w := by
  obtain ⟨plain, found⟩ := plainAt_collect (x := x) legible
  refine found.plain_then plain fun state t q named => ?_
  obtain ⟨id, named⟩ := named legible
  exact plainAt_lift named

theorem plainAt_resumeService (startup : Bool) (legible : Legible x.host w.disk) :
    PlainAt (resumeService x startup) w := by
  refine (reads_stopped x).plain_then (plain_stopped x w) fun _ t q _ => ?_
  have legible := legible.quiet q
  refine (reads_status x .canonical).plain_then (plain_status x _ t) fun before u q _ => ?_
  have legible := legible.quiet q
  refine plainAt_readId legible fun seen v q => ?_
  have legible := legible.quiet q
  refine reads_getJournal.plain_then (plain_getJournal v) fun j z q _ => ?_
  have legible := legible.quiet q
  have rest (u : World) (legible : Legible x.host u.disk) : PlainAt (do
      same x .canonical before
      let again ← lift (publicId x.host.lib (← collect x .canonical))
      demand (again = seen) "canonical changed while restoring service") u := by
    refine (reads_same x .canonical before).plain_then (plain_same x _ before u) fun _ v q _ => ?_
    exact plainAt_readId (legible.quiet q) fun id t _ => plain_demand _ (by decide) t
  split
  · refine (steadies_start x).plain_then (plain_start x z) fun _ u q => ?_
    exact (steadies_process (f := fun p => { p with expectStopped := false })
      fun _ => ⟨rfl, rfl⟩).plain_then (plain_update _ u) fun _ v q' => rest v ((legible.steady q).steady q')
  · exact rest z legible

/-! ## The refusals of a recovery -/

/-- A refusal leaves the stores in place. -/
abbrev Declines {α : Type} (w : World) (m : Exec α) (t : World) : Prop :=
  Prog.Holds m (fun _ _ => True) (fun e u => Refusal e → InPlace w u) (fun _ => True) t

theorem PlainAt.declines {m : Exec α} (h : PlainAt m t) : Declines w m t :=
  h.mono (fun _ _ _ => trivial) (fun _ _ plain refusal => absurd refusal plain) fun _ _ => trivial

theorem restoreRollback_declines (rollback canonical : Stat) (here : InPlace w t)
    (old : ∃ i, t.disk.dir.visible .rollback = some i ∧ x.host.Reads (t.disk.files i).content j.old) :
    Declines w (restoreRollback x j rollback canonical) t := by
  obtain ⟨i, seen, reads⟩ := old
  have stable (s u : World) (q : Quiet s u) (h : InPlace w s ∧ s.disk.dir.visible .rollback = some i ∧
        x.host.Reads (s.disk.files i).content j.old) : InPlace w u ∧
      u.disk.dir.visible .rollback = some i ∧ x.host.Reads (u.disk.files i).content j.old :=
    ⟨h.1.quiet q, by rw [q.disk]; exact h.2⟩
  refine PlainAt.declines ?_
  refine (reads_stopped x).plain_then (plain_stopped x t) fun _ u q _ => ?_
  have now := stable t u q ⟨here, seen, reads⟩
  refine (reads_same x .rollback rollback).plain_then (plain_same x _ _ u) fun _ v q _ => ?_
  have now := stable u v q now
  refine (reads_same x .canonical canonical).plain_then (plain_same x _ _ v) fun _ z q _ => ?_
  have now := stable v z q now
  have moved : Prog.Holds (replace x .rollback .canonical) (fun _ u => Legible x.host u.disk)
      (fun _ _ => True) (fun _ => True) z :=
    replace_keeps x stable (fun _ _ => trivial) (fun _ _ => trivial) now fun u k _ hu there _ _ => by
      obtain rfl : i = k := Option.some.inj (hu.2.1.symm.trans there)
      exact (Keeps.restored (j := j) hu.2.1 hu.2.2).legible
  refine Prog.holds_bind_of ((moved.and (plain_replace x _ _ z)).mono (fun _ _ h => h.1)
    (fun _ _ h => h.2) fun _ _ => trivial) fun _ u legible => ?_
  have synced : Prog.Holds (syncDirectory x) (fun _ u => Legible x.host u.disk) (fun _ _ => True)
      (fun _ => True) u :=
    syncDirectory_keeps x (K := fun u => Legible x.host u.disk) (fun _ _ q h => h.quiet q)
      (fun _ _ => trivial) (fun _ _ => trivial) legible fun _ h => h
  refine Prog.holds_bind_of ((synced.and (plain_syncDirectory x u)).mono (fun _ _ h => h.1)
    (fun _ _ h => h.2) fun _ _ => trivial) fun _ u legible => ?_
  refine Prog.holds_bind_of (plainAt_collectId legible) fun id v _ => ?_
  exact plain_bind (plain_demand _ (by decide)) (fun _ => plain_bind (plain_status x _) fun _ =>
    plain_demand _ (by decide)) v

theorem decideRecovery_declines (here : InPlace w t) : Declines w (decideRecovery x j) t := by
  have stable (s u : World) (q : Quiet s u) (h : InPlace w s ∧ s.disk = t.disk) :
      InPlace w u ∧ u.disk = t.disk := ⟨h.1.quiet q, q.disk.trans h.2⟩
  -- up to the restoration every failure leaves the stores in place
  have look {γ : Type} {m : Exec γ} {f : γ → Exec RecoveryOutcome} {P : γ → View → Prop} {s : World} (h : Reads m P)
      (now : InPlace w s ∧ s.disk = t.disk)
      (rest : ∀ b u, (InPlace w u ∧ u.disk = t.disk) → P b u.view → Declines w (f b) u) :
      Declines w (m >>= f) s := by
    refine Prog.holds_bind_of (R := fun b u => (InPlace w u ∧ u.disk = t.disk) ∧ P b u.view)
      ((h s).mono (fun b u hb => ?_) (fun _ u q _ => (stable s u q now).1) fun _ _ => trivial)
      fun b u hb => rest b u hb.1 hb.2
    exact ⟨stable s u hb.1 now, by rw [hb.1.view]; exact hb.2⟩
  refine look (reads_status x .canonical) ⟨here, rfl⟩ fun info u hu _ => ?_
  refine look (reads_observeCanonical info) hu fun canonical u hu _ => ?_
  refine look (reads_checkRollback j info) hu fun rollback u hu old => ?_
  split
  · exact trivial
  · split
    · exact trivial
    · cases rollback with
      | none => exact fun _ => hu.1
      | some rollback =>
        refine look (reads_demand _ _) hu fun _ v hv _ => ?_
        have kept := (old rollback rfl).2.2
        rw [World.view_disk, hu.2, ← hv.2] at kept
        exact Prog.holds_bind_of (restoreRollback_declines rollback info hv.1 kept) fun _ _ _ => trivial

theorem recoverTransaction_declines (valid : j.validate = .ok ()) (startup : Bool) (here : InPlace w t) :
    Declines w (recoverTransaction x j startup) t := by
  have steady {m : Exec Unit} {f : Unit → Exec RecoveryOutcome} {s : World} (h : Steadies m)
      (now : InPlace w s) (rest : ∀ u, InPlace w u → Declines w (f ()) u) : Declines w (m >>= f) s :=
    Prog.holds_bind_of ((h s).mono (fun _ u q => now.steady q.1) (fun _ u q _ => now.steady q)
      fun _ _ => trivial) fun _ u hu => rest u hu
  refine steady (steadies_process (f := fun p => { p with expectStopped := true }) fun _ => ⟨rfl, rfl⟩)
    here fun u hu => ?_
  refine steady (steadies_stop x) hu fun u hu => ?_
  refine Prog.holds_bind_of (((decideRecovery_spares valid hu).and (decideRecovery_declines hu)).mono
    (fun _ _ h => h.1.legible) (fun _ _ h => h.2) fun _ _ => trivial) fun outcome u legible => ?_
  have rest : PlainAt (do
      checkStage x j
      stopped x
      resumeService x startup
      phase x outcome.journalPhase
      if outcome = .recoveredOld then cleanUp x
      pure outcome) u := by
    refine (reads_checkStage j).plain_then (plain_checkStage x j u) fun _ v q _ => ?_
    have legible := legible.quiet q
    refine (reads_stopped x).plain_then (plain_stopped x v) fun _ z q _ => ?_
    refine Prog.holds_bind_of (plainAt_resumeService startup (legible.quiet q)) fun _ z _ => ?_
    refine plain_bind (plain_phase x _ _) (fun _ => ?_) z
    exact plain_ite (plain_bind (plain_cleanUp x) fun _ => plain_pure _) (plain_pure _)
  exact rest.declines

/-- How a recovery reports a refusal. -/
def Refused (e : Error) : Prop :=
  ∃ reason, Refusal reason ∧ e = .masked "UniFi executor operation failed; recovery may be required" reason

theorem holds_of_all {m : Exec α} {Q : α → World → Prop} {E : Error → World → Prop}
    (value : ∀ a u, Q a u) (failure : ∀ e u, E e u) : Prog.Holds m Q E (fun _ => True) t := by
  unfold Prog.Holds
  split
  · exact value _ _
  · exact failure _ _
  · trivial

/-- Giving up the lock fails in its own words. -/
theorem release_unrefused : Prog.Holds (release x) (fun _ _ => True) (fun e _ => ¬ Refused e)
    (fun _ => True) t := by
  unfold release
  rw [Prog.holds_bind, Prog.holds_read]
  split
  · rw [Prog.holds_bind, Prog.holds_handle]
    refine holds_of_all (fun _ _ => trivial) fun _ _ => ?_
    rintro ⟨_, _, no⟩
    cases no
  · trivial

theorem recover_declines {l : Nat} (record : w.disk.dir.visible .journal = some l)
    (content : (w.disk.files l).content = .journal j) (startup : Bool) :
    Prog.Holds (recover x startup) (fun _ _ => True) (fun e u => Refused e → InPlace w u)
      (fun _ => True) w := by
  unfold recover locked mask
  rw [Prog.holds_ensure, Prog.holds_handle]
  refine Prog.Holds.mono (Q := fun _ _ => True) (E := fun e u => Refusal e → InPlace w u)
    (D := fun _ => True) ?_ (fun _ _ _ => ?_) (fun e t declined => ?_) fun _ _ => trivial
  · refine Prog.holds_bind_of ((acquire_locks x).mono (fun _ _ h => h.1) (fun _ _ h _ => h.inPlace)
      fun _ _ => trivial) fun _ t ht => ?_
    refine Prog.holds_bind_of (((reads_exists x .journal) t).mono
      (fun b u h => And.intro (ht.quiet h.1) h.2) (fun _ _ q _ => (ht.quiet q).inPlace)
      fun _ _ => trivial) fun b u ⟨hu, there⟩ => ?_
    have there : b = (t.disk.dir.visible .journal).isSome := there
    rw [ht.names _ (by decide), record] at there
    rw [there, Option.isSome_some, if_pos rfl]
    refine Prog.holds_bind_of ((loadJournal_reads record content hu).mono (fun _ _ h => h)
      (fun _ _ h _ => h) fun _ _ => trivial) fun a v ⟨rfl, valid, here, memory⟩ => ?_
    split
    · refine Prog.holds_bind_of ((establish_inPlace memory here).mono (fun _ _ h => h.1)
        (fun _ _ h _ => h) fun _ _ => trivial) fun _ z here => ?_
      refine Prog.holds_bind_of ((reads_validateLiveVerifiedFiles true z).mono (fun _ _ _ => trivial)
        (fun _ _ q _ => here.quiet q) fun _ _ => trivial) fun _ z (_ : True) => ?_
      exact PlainAt.declines (plain_bind (plain_finish x) (fun _ => plain_pure _) z)
    · exact recoverTransaction_declines valid startup here
  · exact release_unrefused.mono (fun _ _ h => h) (fun _ _ no refused => absurd refused no) fun _ h => h
  · rw [Prog.holds_raise]
    have kept := release_holds x (K := fun u => Refusal e → InPlace w u)
      (I := fun u => Refusal e → InPlace w u) (fun _ _ q h refusal => (h refusal).quiet q) (fun _ h => h)
      (fun _ h refusal => ⟨(h refusal).names, (h refusal).content⟩)
      (fun _ h refusal => ⟨(h refusal).names, (h refusal).content⟩) declined
    refine (kept.and release_unrefused).mono (fun _ _ h refused => ?_) (fun _ _ h refused => absurd refused h.2)
      fun _ _ => trivial
    obtain ⟨reason, refusal, same⟩ := refused
    cases same
    exact h.1 refusal

/-- From any disk with a journal that the check accepts, wherever a recovery
stops, a keystore of the journal stays under the canonical or the rollback name
if one was there, and the canonical name stays taken. A refusal leaves the
stores' names on the files they had. -/
theorem recovery_never_loses_the_keystore {l : Nat} (startup : Bool)
    (record : w.disk.dir.visible .journal = some l) (content : (w.disk.files l).content = .journal j) :
    (Retains x.host j w.disk → Retains x.host j (recover x startup w.fresh).2.disk) ∧
    (w.disk.dir.visible .canonical ≠ none →
      (recover x startup w.fresh).2.disk.dir.visible .canonical ≠ none) ∧
    ∀ e t, recover x startup w.fresh = (.raised e, t) → Refused e →
      ∀ n, n.isStore = true → t.disk.dir.visible n = w.disk.dir.visible n := by
  have spared := (recover_spares (x := x) (w := w.fresh) record content startup).final
  refine ⟨spared.retained, spared.canonical, fun e t failed refused => ?_⟩
  exact ((recover_declines (x := x) (w := w.fresh) record content startup).raised failed refused).names

/-- After an installation, with a recovery killed while it restores the rollback. -/
theorem installed_keystore_is_retained : Retains Sample.host Sample.pending
    (recover (Sample.session [(392, .refuse), (416, .kill)]) true Sample.installed.fresh).2.disk := by
  refine (recovery_never_loses_the_keystore (l := 12) true (by decide +kernel) (by decide +kernel)).1 ?_
  refine Or.inl ⟨5, by decide +kernel, Or.inr ⟨⟨1, [3, 2]⟩, rfl, ?_⟩⟩
  have content : (Sample.installed.disk.files 5).content = .store [3, 3, 3] := by decide +kernel
  rw [content]
  exact Sample.reads_issued

end

end CertRenewer
