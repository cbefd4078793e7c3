import CertRenewer.Recovering

/-!
# A live verification keeps the invariant

`verify_pending` journals a live verification only after it has observed the
endpoint with the leaf it read from the canonical store, and has found the same
leaf there again.
-/

namespace CertRenewer

open Crash

section
variable {g : Setting} {x : Session} {w t : World} {j v : Journal} {i k : Nat}

/-! ## A listing is on record -/

/-- Since `w` the store under the name was listed, on the disk of `w`. -/
def Listed (n : Name) (w t : World) : Prop :=
  ∃ e new, t.trace = new ++ w.trace ∧ e ∈ new ∧ e.event = .keytool n .list ∧ e.disk = w.disk

theorem Listed.quiet {n : Name} {u : World} (h : Listed n w t) (q : Quiet t u) : Listed n w u := by
  obtain ⟨e, new, trace, seen, rest⟩ := h
  obtain ⟨newer, ext, _⟩ := q.common
  exact ⟨e, newer ++ new, by rw [ext, trace, List.append_assoc], List.mem_append_right _ seen, rest⟩

theorem Quiet.listed {n : Name} (q : Quiet w t) : Listed n w (t.log (.keytool n .list)) := by
  obtain ⟨new, ext, _⟩ := q.common
  exact ⟨_, _ :: new, congrArg (_ :: ·) ext, List.mem_cons_self, rfl, q.disk⟩

theorem keytool_lists (n : Name) :
    Prog.Holds (keytool x n .list) (fun _ t => Listed n w t) (fun _ _ => True) (fun _ => True) w := by
  have quiet (s t : World) (q : Quiet s t) (h : Quiet w s) : Quiet w t := h.trans q
  have stop (t : World) (_ : Quiet w t) : True := trivial
  refine Prog.holds_bind_of (reads_assertLocked.keeps quiet stop (Quiet.refl w)) fun _ t ⟨ht, _⟩ => ?_
  refine Prog.holds_bind_of ((reads_demand _ _).keeps quiet stop ht) fun _ t ⟨ht, _⟩ => ?_
  refine Prog.holds_bind_of ((reads_primitive x (reads_pure ())).keeps quiet stop ht)
    fun _ t ⟨ht, _⟩ => ?_
  refine holds_primitive x quiet stop ht (fun t ht => ?_) fun _ _ _ => trivial
  rw [Prog.holds_bind]
  change Prog.Holds _ _ _ _ (t.log (.keytool n .list))
  have listed := ht.listed (n := n)
  refine Prog.holds_bind_of (R := fun _ u => Listed n w u) listed fun d u hu => ?_
  cases d.inode n with
  | none => trivial
  | some file =>
    simp only
    cases x.host.listing file.content with
    | none => trivial
    | some output => exact hu

theorem collect_lists (n : Name) :
    Prog.Holds (collect x n) (fun _ t => Listed n w t) (fun _ _ => True) (fun _ => True) w := by
  have quiet (s t : World) (q : Quiet s t) (h : Quiet w s) : Quiet w t := h.trans q
  have stop (t : World) (_ : Quiet w t) : True := trivial
  refine Prog.holds_bind_of (reads_assertLocked.keeps quiet stop (Quiet.refl w)) fun _ t ⟨ht, _⟩ => ?_
  refine Prog.holds_bind_of ((reads_demand _ _).keeps quiet stop ht) fun _ t ⟨ht, _⟩ => ?_
  refine Prog.holds_bind_of ((reads_status x n).keeps quiet stop ht) fun before t ⟨ht, _⟩ => ?_
  refine Prog.holds_bind_of (keytool_lists n) fun data u hu => ?_
  have listed : Listed n w u := by
    obtain ⟨e, new, trace, seen, event, disk⟩ := hu
    obtain ⟨older, ext, _⟩ := ht.common
    exact ⟨e, new ++ older, by rw [trace, ext, List.append_assoc], List.mem_append_left _ seen, event,
      disk.trans ht.disk⟩
  have quiet (s t : World) (q : Quiet s t) (h : Listed n w s) : Listed n w t := h.quiet q
  refine Prog.holds_bind_of ((reads_same x n before).keeps quiet (fun _ _ => trivial) listed)
    fun _ t ⟨ht, _⟩ => ?_
  exact ((reads_lift _).keeps quiet (fun _ _ => trivial) ht).mono (fun _ _ h => h.1)
    (fun _ _ _ => trivial) fun _ _ => trivial

/-! ## The observation -/

theorem reads_canonicalLeaf : Reads (canonicalLeaf x) fun leaf v =>
    ∃ state, Found x v.disk .canonical state ∧ state.certificateChainDer.head? = some leaf := by
  refine reads_then (reads_collect x .canonical) fun state => (reads_lift _).mono ?_
  rintro leaf v first found
  refine ⟨state, found, ?_⟩
  unfold orFail at first
  split at first
  · cases first
    assumption
  · cases first

theorem canonicalLeaf_lists :
    Prog.Holds (canonicalLeaf x) (fun _ t => Listed .canonical w t) (fun _ _ => True) (fun _ => True)
      w := by
  refine Prog.holds_bind_of (collect_lists .canonical) fun state t ht => ?_
  exact ((reads_lift _).keeps (fun s t q h => Listed.quiet h q) (fun _ _ => trivial) ht).mono
    (fun _ _ h => h.1) (fun _ _ _ => trivial) fun _ _ => trivial

/-- The pending journal is loaded, the service runs, and the disk is `d`. -/
structure Watching (g : Setting) (x : Session) (i : Nat) (d : Disk) (w : World) (j : Journal) :
    Prop extends Loaded g x i w j where
  pending : j.phase = .serviceResumedPendingLiveVerification
  up : w.service.up = true
  frozen : w.disk = d

theorem Watching.quiet {d : Disk} (h : Watching g x i d w j) (q : Quiet w t) :
    Watching g x i d t j where
  toLoaded := h.toLoaded.steady q.toSteady
  pending := h.pending
  up := by rw [q.service]; exact h.up
  frozen := q.disk.trans h.frozen

/-- What the files show before the observation is what the observation is of. -/
theorem Watching.pendingEntry {d : Disk} {leaf : Bytes} {e : Event} (host : x.host = g.host)
    (h : Watching g x i d w j) (files : FilesVerified x j false d)
    (leafed : ∃ state, Found x d .canonical state ∧ state.certificateChainDer.head? = some leaf)
    (issued : some (x.host.lib.sha256 leaf) = j.issued.bind fun id => id.chain.head?) :
    Pending g ⟨e, w.disk, w.service, w.process⟩ j leaf := by
  have proper := h.ok.supported.proper
  obtain ⟨s, id, found, single, number, ⟨state', read', named⟩, same⟩ := files.canonical
  obtain ⟨seen, stat⟩ := Disk.visible_of_stat found
  obtain ⟨state, ⟨l, seen', read⟩, first⟩ := leafed
  obtain rfl : s.ino = l := Option.some.inj (seen.symm.trans seen')
  obtain rfl : state' = state := Option.some.inj (read'.symm.trans read)
  have dev := (proper.stage _ number.symm).1
  have stage : j.stageInode = some ⟨g.dev, s.ino⟩ := by
    rw [← number, ← dev]
    rfl
  rw [host] at read named issued
  rw [← same] at issued
  have same_phase : { j with phase := .serviceResumedPendingLiveVerification } = j := by
    rw [← h.pending]
  refine ⟨h.locked, ?_, ⟨i, h.journal, ?_⟩, h.up, ⟨s.ino, ?_, stage, ?_, state', id, ?_, first, named,
    same.symm, issued.symm⟩, ?_⟩
  · rw [same_phase]
    exact h.memory
  · rw [same_phase]
    exact (h.inv.synced i _ h.sealed).2.1
  · rw [h.frozen]
    exact seen
  · rw [h.frozen, ← single]
    exact (congrArg Stat.nlink stat).symm
  · rw [h.frozen]
    exact read
  · rcases files.rollback with ⟨no, _⟩ | ⟨r, kept, file, reads⟩
    · cases no
    have ino : r.ino = j.oldInode.ino := congrArg FileId.ino file
    rw [host, ino] at reads
    rw [h.frozen]
    refine ⟨?_, proper.oldDev, reads⟩
    rw [(Disk.visible_of_stat kept).1, ino]

theorem observeLive_keeps (host : x.host = g.host) (h : Loaded g x i w j)
    (pending : j.phase = .serviceResumedPendingLiveVerification) :
    Prog.Holds (observeLive x j)
      (fun _ t => Loaded g x i t j ∧ t.disk = w.disk ∧ t.disk.dir.visible .stage = none ∧
        Observed g t.trace j) (fun _ => Inv g) (Inv g) w := by
  have stable (s t : World) (q : Quiet s t) (h : Loaded g x i s j ∧ s.disk = w.disk) :
      Loaded g x i t j ∧ t.disk = w.disk := ⟨h.1.steady q.toSteady, q.disk.trans h.2⟩
  refine Prog.holds_bind_of ((reads_running x).keeps
    (K := fun t => Loaded g x i t j ∧ t.disk = w.disk) stable (fun t h => h.1.inv) ⟨h, rfl⟩)
    fun up t ⟨ht, running⟩ => ?_
  have service : t.service.up = up := running.symm
  refine Prog.holds_bind_of ((reads_demand _ _).keeps
    (K := fun s => (Loaded g x i s j ∧ s.disk = w.disk) ∧ s.service.up = up)
    (fun s t q h => ⟨stable s t q h.1, by rw [q.service]; exact h.2⟩) (fun t h => h.1.1.inv)
    ⟨ht, service⟩) fun _ t ⟨⟨ht, same⟩, up⟩ => ?_
  have watching : Watching g x i w.disk t j := ⟨ht.1, pending, same.trans up, ht.2⟩
  have quiet (s t : World) (q : Quiet s t) (h : Watching g x i w.disk s j) :
      Watching g x i w.disk t j := h.quiet q
  have stop (t : World) (h : Watching g x i w.disk t j) : Inv g t := h.inv
  refine Prog.holds_bind_of ((reads_validateLiveVerifiedFiles false).keeps quiet stop watching)
    fun _ t ⟨ht, a, memory, files⟩ => ?_
  obtain rfl : j = a := Option.some.inj (ht.memory.symm.trans memory)
  rw [World.view_disk, ht.frozen] at files
  refine Prog.holds_bind_of (reads_canonicalLeaf.keeps quiet stop ht) fun leaf t ⟨ht, leafed⟩ => ?_
  rw [World.view_disk, ht.frozen] at leafed
  refine Prog.holds_bind_of ((reads_demand _ _).keeps quiet stop ht) fun _ t ⟨ht, issued⟩ => ?_
  refine Prog.holds_bind_of ((reads_primitive x (reads_pure ())).keeps quiet stop ht)
    fun _ t ⟨ht, _⟩ => ?_
  -- the observation, made of exactly these files
  have quiet' (s t : World) (q : Quiet s t)
      (h : Watching g x i w.disk s j ∧ ∃ observed ∈ s.trace,
        observed.event = .observed j.policyDigest leaf ∧ Pending g observed j leaf) :
      Watching g x i w.disk t j ∧ ∃ observed ∈ t.trace,
        observed.event = .observed j.policyDigest leaf ∧ Pending g observed j leaf := by
    obtain ⟨watching, observed, seen, rest⟩ := h
    exact ⟨watching.quiet q, observed, q.toSteady.suffix.subset seen, rest⟩
  have observe : Prog.Holds (verifyLiveTls x leaf)
      (fun _ t => Watching g x i w.disk t j ∧ ∃ observed ∈ t.trace,
        observed.event = .observed j.policyDigest leaf ∧ Pending g observed j leaf)
      (fun _ => Inv g) (Inv g) t := by
    refine holds_primitive x quiet stop ht (fun t ht => ?_) fun _ t h => h.1.inv
    rw [Prog.holds_bind, Prog.holds_read, Prog.holds_bind, Prog.holds_guard]
    refine ⟨fun _ => ?_, fun _ => ht.inv⟩
    exact ⟨ht.quiet (quiet_log rfl rfl), _, List.mem_cons_self, by rw [h.digest],
      ht.pendingEntry host files leafed issued⟩
  refine Prog.holds_bind_of observe fun _ t ht => ?_
  refine Prog.holds_bind_of ((reads_running x).keeps quiet' (fun t h => h.1.inv) ht)
    fun _ t ⟨ht, _⟩ => ?_
  refine Prog.holds_bind_of ((reads_demand _ _).keeps quiet' (fun t h => h.1.inv) ht)
    fun _ t ⟨ht, _⟩ => ?_
  refine Prog.holds_bind_of ((reads_validateLiveVerifiedFiles false).keeps quiet'
    (fun t h => h.1.inv) ht) fun _ t ⟨ht, _⟩ => ?_
  obtain ⟨watching, observed, seen, event, entry⟩ := ht
  refine Prog.holds_bind_of (((reads_canonicalLeaf.keeps quiet stop watching).and
    canonicalLeaf_lists).mono (fun _ _ h => h) (fun _ _ h => h.1) fun _ h => h.1)
    fun again u ⟨⟨hu, state, ⟨l, here, read⟩, first⟩, e, new, trace, mem, listed, disk⟩ => ?_
  refine ((reads_demand _ _).keeps (K := fun s => Watching g x i w.disk s j ∧ u.trace <:+ s.trace)
    (fun s t q h => ⟨h.1.quiet q, h.2.trans q.toSteady.suffix⟩) (fun t h => h.1.inv)
    ⟨hu, List.suffix_refl _⟩).mono (fun _ s ⟨⟨hs, ext⟩, same⟩ => ?_) (fun _ _ h => h) fun _ h => h
  rw [World.view_disk, hu.frozen] at here read
  refine ⟨hs.toLoaded, hs.frozen, by rw [hs.frozen]; exact files.stage, ?_⟩
  have order : [e, observed].Sublist u.trace := by
    rw [trace]
    exact (List.singleton_sublist.mpr mem).append (List.singleton_sublist.mpr seen)
  rw [host] at read
  refine ⟨observed, e, leaf, l, state, order.trans ext.sublist, event, entry, listed, ?_, ?_, ?_⟩
  · rw [disk, watching.frozen]
    exact here
  · rw [disk, watching.frozen]
    exact read
  · rw [← same]
    exact first

/-! ## The operation -/

theorem verifyPending_keeps (host : x.host = g.host) (inv : Inv g w)
    (journal : w.process.journal = none) :
    Prog.Holds (verifyPending x) (fun outcome t => Inv g t ∧ Finalized g w outcome t)
      (fun _ => Inv g) (Inv g) w := by
  refine locked_keeps x (P := Finalized g w) (fun _ s t q h => h.suffix q.toSteady.suffix)
    (fun _ t h => h) (fun s hs locks => ?_) inv journal
  have stable (r t : World) (q : Quiet r t) (h : Entered g r ∧ r.disk = s.disk) :
      Entered g t ∧ t.disk = s.disk := ⟨h.1.quiet q, q.disk.trans h.2⟩
  have load : Prog.Holds (loadPending x)
      (fun j t => ∃ i, Loaded g x i t j ∧ t.disk = s.disk ∧
        j.phase = .serviceResumedPendingLiveVerification ∧ j.resume = true)
      (fun _ => Inv g) (Inv g) s := by
    refine Prog.holds_bind_of ((reads_exists x .journal).keeps stable (fun t h => h.1.inv) ⟨hs, rfl⟩)
      fun b t ⟨ht, _⟩ => ?_
    refine Prog.holds_bind_of ((reads_demand _ _).keeps stable (fun t h => h.1.inv) ht)
      fun _ t ⟨ht, _⟩ => ?_
    refine Prog.holds_bind_of (loadJournal_keeps ht.1) fun j t ⟨i, loaded, disk⟩ => ?_
    have quiet (r t : World) (q : Quiet r t) (h : Loaded g x i r j ∧ r.disk = s.disk) :
        Loaded g x i t j ∧ t.disk = s.disk := ⟨h.1.steady q.toSteady, q.disk.trans h.2⟩
    refine Prog.holds_bind_of ((reads_demand _ _).keeps quiet (fun t h => h.1.inv)
      ⟨loaded, disk.trans ht.2⟩) fun _ t ⟨ht, pending⟩ => ?_
    refine Prog.holds_bind_of ((reads_demand _ _).keeps quiet (fun t h => h.1.inv) ht)
      fun _ t ⟨ht, resume⟩ => ?_
    exact ⟨i, ht.1, ht.2, pending, resume.1⟩
  refine Prog.holds_bind_of load fun j t ⟨i, loaded, disk, pending, resume⟩ => ?_
  have found := locks.journal_before (i := i) (j := j)
    (by rw [← disk]; exact loaded.journal)
    (by rw [← disk]; exact (loaded.inv.synced i _ loaded.sealed).2.1)
  refine Prog.holds_bind_of (observeLive_keeps host loaded pending)
    fun _ t ⟨loaded, _, free, observed⟩ => ?_
  have unverified : j.phase ≠ .liveVerified := by
    rw [pending]
    decide
  have progress : j.progress ∈ allowedProgress .liveVerified := by
    have proper := loaded.ok.supported.proper.progress
    rwa [pending] at proper
  have write := loaded.toHeld.rephased (p := .liveVerified) unverified progress (fun _ => resume)
    (fun _ => observed.rephase _) fun old => by
      refine old.rephase ?_ unverified (by decide) fun _ => old.committed (Or.inl ?_)
      · rw [pending]
        decide
      · rw [pending]
        decide
  refine Prog.holds_bind_of ((phase_keeps x (f := id) loaded.memory rfl write).mono
    (fun _ _ h => h) (fun _ _ h => h.inv) fun _ h => h.inv) fun _ u ⟨durable, scribed⟩ => ?_
  obtain ⟨l, seen, sealed⟩ := durable.journal
  have again : Loaded g x l u { j with phase := .liveVerified } :=
    ⟨durable.toHeld, by rw [scribed.process]; exact loaded.locked, seen, sealed, loaded.digest⟩
  refine Prog.holds_bind_of (establish_keeps again) fun _ r ⟨firm, names⟩ => ?_
  have stage : r.disk.dir.visible .stage = none := by
    rw [names, scribed.names .stage (by decide) (by decide)]
    exact free
  have observed : Observed g r.trace j := (firm.ok.supported.live rfl).rephase j.phase
  have temporary : r.disk.dir.visible .journalNew = none := by
    rw [names]
    exact durable.temporary
  exact Prog.holds_bind_of (finishLiveVerified_keeps firm stage temporary)
    fun _ r hr => ⟨hr.1, fun _ => ⟨i, j, found.1, found.2, observed.mono hr.2⟩⟩

end

end CertRenewer
