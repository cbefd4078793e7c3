import CertRenewer.Installation

/-!
# A recovery keeps the invariant

`recover` works from the journal it finds. It puts the old store back or leaves
the new one pending, records which, and only then takes away what is left of the
transaction.
-/

namespace CertRenewer

open Crash

section
variable {g : Setting} {x : Session} {w t : World} {j v : Journal} {i k : Nat}

/-! ## The journal is loaded -/

/-- The journal on disk is the one in memory. -/
structure Loaded (g : Setting) (x : Session) (i : Nat) (w : World) (j : Journal) :
    Prop extends Held g w j where
  locked : w.process.locked = true
  journal : w.disk.dir.visible .journal = some i
  sealed : Sealed g w.trace i (.journal j)
  digest : j.policyDigest = x.policy.digest

theorem Loaded.steady (h : Loaded g x i w j) (s : Steady w t) : Loaded g x i t j where
  toHeld := h.toHeld.steady s
  locked := s.locked.trans h.locked
  journal := by rw [s.disk]; exact h.journal
  sealed := h.sealed.mono s.suffix
  digest := h.digest

/-- The file the journal's name denotes is synced with the value it shows. -/
theorem Inv.sealed_of_content (inv : Inv g w) (seen : w.disk.dir.visible .journal = some i)
    (content : (w.disk.files i).content = .journal j) : Sealed g w.trace i (.journal j) := by
  obtain ⟨a, sealed, _⟩ := inv.visible_journal seen
  have eq : Content.journal j = .journal a := content.symm.trans (inv.synced i _ sealed).2.1
  cases eq
  exact sealed

theorem Entered.held (h : Entered g w) (seen : w.disk.dir.visible .journal = some i)
    (sealed : Sealed g w.trace i (.journal j)) : Held g (w.remember j) j := by
  obtain ⟨a, hs, ok, fits⟩ := h.inv.visible_journal seen
  obtain rfl : j = a := h.inv.unique_journal hs sealed
  refine ⟨h.inv.remember ok.supported.proper, rfl, ok, fits, fun a ha => ?_, fun k a hk ha => ?_,
    h.inv.same i j seen sealed, h.lock, fun powered clean => (h.inv.tidy powered).snug clean i j seen sealed,
    fun unverified k a hk ha => ?_, h.fresh⟩
  · have ha : a ∈ recentWrites w.trace := ha
    rw [h.recent] at ha
    cases ha
  · have hk : w.disk.dir.visible .journal = some k := hk
    obtain rfl : i = k := Option.some.inj (seen.symm.trans hk)
    rw [h.inv.unique_journal sealed ha]
    exact Journal.Below.refl j
  · have hk : w.disk.dir.visible .journal = some k := hk
    obtain rfl : i = k := Option.some.inj (seen.symm.trans hk)
    rw [h.inv.unique_journal sealed ha]
    exact unverified

theorem loadJournal_keeps (h : Entered g w) :
    Prog.Holds (loadJournal x) (fun j t => ∃ i, Loaded g x i t j ∧ t.disk = w.disk)
      (fun _ => Inv g) (Inv g) w := by
  have stable (s t : World) (q : Quiet s t) (h : Entered g s ∧ s.disk = w.disk) :
      Entered g t ∧ t.disk = w.disk := ⟨h.1.quiet q, q.disk.trans h.2⟩
  refine Prog.holds_bind_of ((reads_readJournal x).keeps stable (fun t h => h.1.inv) ⟨h, rfl⟩)
    fun j t ⟨ht, i, seen, content⟩ => ?_
  rw [World.view_disk, ht.2] at seen content
  refine Prog.holds_bind_of ((reads_lift _).keeps stable (fun t h => h.1.inv) ht)
    fun _ t ⟨ht, _⟩ => ?_
  rw [← ht.2] at seen content
  have sealed := ht.1.inv.sealed_of_content seen content
  have held : Held g (t.remember j) j := ht.1.held seen sealed
  rw [Prog.holds_bind]
  change Prog.Holds _ _ _ _ (t.remember j)
  -- the value is in memory before its policy is compared
  have stable (r s : World) (q : Quiet r s)
      (h : Held g r j ∧ r.process.locked = true ∧ r.disk = t.disk ∧ Sealed g r.trace i (.journal j)) :
      Held g s j ∧ s.process.locked = true ∧ s.disk = t.disk ∧ Sealed g s.trace i (.journal j) :=
    ⟨h.1.steady q.toSteady, by rw [q.process]; exact h.2.1, q.disk.trans h.2.2.1,
      h.2.2.2.mono q.toSteady.suffix⟩
  have policy : Reads (requireCurrentPolicy x) fun _ v =>
      ∃ a, v.process.journal = some a ∧ a.policyDigest = x.policy.digest := by
    refine reads_then reads_getJournal fun a => (reads_demand _ _).mono ?_
    exact fun _ v digest held => ⟨a, held, digest⟩
  refine Prog.holds_bind_of (policy.keeps stable (fun t h => h.1.inv) ⟨held, ht.1.locked, rfl, sealed⟩)
    fun _ s ⟨hs, a, memory, digest⟩ => ?_
  obtain rfl : j = a := Option.some.inj (hs.1.memory.symm.trans memory)
  refine ⟨i, ⟨hs.1, hs.2.1, ?_, hs.2.2.2, digest⟩, hs.2.2.1.trans ht.2⟩
  rw [hs.2.2.1]
  exact seen

/-! ## The decision -/

theorem reads_observeCanonical (info : Stat) : Reads (observeCanonical x info) fun canonical v =>
    v.disk.stat .canonical = some info ∧ ∀ id, canonical = some id →
      ∃ i, v.disk.dir.visible .canonical = some i ∧ x.host.Reads (v.disk.files i).content id := by
  have look : Reads (Prog.handle (some <$> collectId x .canonical) (fun _ => pure none))
      fun canonical v => ∀ id, canonical = some id →
        ∃ i, v.disk.dir.visible .canonical = some i ∧ x.host.Reads (v.disk.files i).content id := by
    refine reads_handle ?_ fun _ => (reads_pure none).mono ?_
    · change Reads (collectId x .canonical >>= fun id => pure (some id)) _
      refine reads_then (reads_collectId x .canonical) fun id => (reads_pure (some id)).mono ?_
      rintro _ v rfl found _ ⟨⟩
      exact found
    · rintro _ v rfl _ ⟨⟩
  refine reads_then look fun canonical => reads_then (reads_same x .canonical info) fun _ => ?_
  refine (reads_pure canonical).mono ?_
  rintro _ v rfl found seen
  exact ⟨found.1, seen⟩

theorem reads_checkRollback (j : Journal) (canonical : Stat) :
    Reads (checkRollback x j canonical) fun rollback v => ∀ info, rollback = some info →
      v.disk.stat .rollback = some info ∧ info.fileId = j.oldInode ∧
        ∃ i, v.disk.dir.visible .rollback = some i ∧ x.host.Reads (v.disk.files i).content j.old := by
  refine reads_then (reads_exists x .rollback) fun b => ?_
  cases b with
  | false =>
    refine reads_then (reads_demand _ _) fun _ => (reads_pure none).mono ?_
    rintro _ v rfl _ _ _ ⟨⟩
  | true =>
    refine reads_then (reads_status x .rollback) fun info => ?_
    refine reads_then (reads_status x .rollback) fun again => reads_then (reads_demand _ _) fun _ => ?_
    refine reads_then (reads_collectId x .rollback) fun id => reads_then (reads_demand _ _) fun _ => ?_
    refine (reads_pure (some info)).mono ?_
    rintro _ v rfl rfl reads same again first _ _ ⟨⟩
    cases again.1.symm.trans first.1
    exact ⟨first.1, same, reads⟩

/-- The rollback is the canonical store again. -/
theorem Loaded.restored (h : Loaded g x i w j) (possible : j.commitPossible = true)
    (unverified : j.phase ≠ .liveVerified) (seen : w.disk.dir.visible .rollback = some k) :
    Loaded g x i (w.renamed .rollback .canonical k) j := by
  obtain rfl : k = j.oldInode.ino := by
    rcases (h.fits _ w.disk.dir.image_visible).rollback with none | old
    · rw [none] at seen
      cases seen
    · exact Option.some.inj (seen.symm.trans old)
  have suffix : w.trace <:+ (w.renamed .rollback .canonical j.oldInode.ino).trace :=
    List.suffix_cons _ _
  have logged : Inv g (w.log (.renamed .rollback .canonical j.oldInode.ino)) :=
    h.inv.log (e := .renamed .rollback .canonical j.oldInode.ino) rfl (fun _ _ no => nomatch no)
      (fun _ no => nomatch no) (fun _ _ no => nomatch no) fun ⟨_, no⟩ => nomatch no
  have inv : Inv g (w.renamed .rollback .canonical j.oldInode.ino) :=
    (logged.touch j.oldInode.ino).restore h.journal (h.sealed.mono suffix) possible unverified seen
      ⟨_, List.mem_cons_self, rfl, rfl⟩
  have images {ns : Names Name}
      (image : (w.renamed .rollback .canonical j.oldInode.ino).disk.dir.Image ns) :
      ∃ old, w.disk.dir.Image old ∧ (ns = old ∨
        ns = (Change.move .rollback .canonical j.oldInode.ino).apply old) := by
    have image : (w.disk.dir.rename .rollback .canonical).Image ns := image
    by_cases same : w.disk.dir.visible .canonical = some j.oldInode.ino
    · rw [w.disk.dir.rename_same (seen.trans same.symm)] at image
      exact ⟨ns, image, Or.inl rfl⟩
    · rw [w.disk.dir.rename_of_visible seen same] at image
      rcases (w.disk.dir.image_push _ _ ns).mp image with old | ⟨earlier, old, rfl⟩
      · exact ⟨ns, old, Or.inl rfl⟩
      · exact ⟨earlier, old, Or.inr rfl⟩
  have others (n : Name) (rollback : n ≠ .rollback) (canonical : n ≠ .canonical) :
      (w.renamed .rollback .canonical j.oldInode.ino).disk.dir.visible n = w.disk.dir.visible n := by
    change (w.disk.dir.rename .rollback .canonical).visible n = _
    by_cases same : w.disk.dir.visible .canonical = some j.oldInode.ino
    · rw [w.disk.dir.rename_same (seen.trans same.symm)]
    · rw [w.disk.dir.rename_of_visible seen same, Dir.visible_push]
      simp [Change.apply, rollback, canonical]
  have journal := others .journal (by decide) (by decide)
  have held : Held g (w.renamed .rollback .canonical j.oldInode.ino) j := by
    refine h.toHeld.move inv suffix rfl (fun a ha => ?_) (fun ns image => ?_) (fun ns image => ?_)
      journal (others .lock (by decide) (by decide)) (fun old clean => ?_)
      fun free old => ⟨free, Or.inr old⟩
    · have ha : a ∈ recentWrites
        (⟨.renamed .rollback .canonical j.oldInode.ino, w.disk, w.service, w.process⟩ :: w.trace) := ha
      exact recentWrites_cons (by rintro _ ⟨⟩) ha
    · obtain ⟨old, from_, rfl | rfl⟩ := images image
      · exact h.fits ns from_
      · exact (h.fits old from_).restore
    · obtain ⟨old, from_, rfl | rfl⟩ := images image
      · exact ⟨ns, from_, rfl⟩
      · exact ⟨old, from_, by simp [Change.apply]⟩
    · have same : w.disk.dir.visible .canonical = some j.oldInode.ino :=
        clean _ List.mem_cons_self _ rfl
      change Snug g j (w.disk.dir.rename .rollback .canonical).visible
      rw [w.disk.dir.rename_same (seen.trans same.symm)]
      exact old
  exact ⟨held, h.locked, journal.trans h.journal, h.sealed.mono suffix, h.digest⟩

theorem Loaded.settled (h : Loaded g x i w j) : Loaded g x i w.settled j :=
  ⟨h.toHeld.settled, h.locked, h.journal, h.sealed.mono (List.suffix_cons _ _), h.digest⟩

/-- What the outcome of a decision says. -/
def Decided (g : Setting) (j : Journal) (d : Disk) : RecoveryOutcome → Prop
  | .recoveredOld => d.dir.visible .canonical = some j.oldInode.ino
  | .serviceResumedPendingLiveVerification => j.commitPossible = true ∧
    ∃ k, j.stageInode = some ⟨g.dev, k⟩ ∧ d.dir.visible .canonical = some k
  | _ => False

/-- The names are what the journalled outcome says of them. -/
theorem Decided.snug {d : Disk} {outcome : RecoveryOutcome} (h : Decided g j d outcome)
    (proper : j.Proper g) (unverified : j.phase ≠ .liveVerified) (old : Snug g j d.dir.visible) :
    Snug g { j with phase := outcome.journalPhase } d.dir.visible := by
  cases outcome with
  | noActiveTransaction => exact h.elim
  | renewalFinalized => exact h.elim
  | recoveredOld => exact Snug.of_recovered rfl h
  | serviceResumedPendingLiveVerification =>
    obtain ⟨_, k, stage, canonical⟩ := h
    have active : j.phase ≠ .recoveredOld := fun recovered => by
      have eq := canonical.symm.trans (old.recovered recovered)
      exact (proper.stage _ stage).2 (Option.some.inj eq)
    exact old.rephase active unverified (by decide) fun _ => ⟨k, stage, canonical⟩

theorem restoreRollback_keeps (rollback canonical : Stat) (possible : j.commitPossible = true)
    (unverified : j.phase ≠ .liveVerified) (h : Loaded g x i w j) :
    Prog.Holds (restoreRollback x j rollback canonical)
      (fun _ t => Loaded g x i t j ∧ t.disk.dir.visible .canonical = some j.oldInode.ino)
      (fun _ => Inv g) (Inv g) w := by
  have stable (s t : World) (q : Quiet s t) (h : Loaded g x i s j) : Loaded g x i t j :=
    h.steady q.toSteady
  have stop (t : World) (h : Loaded g x i t j) : Inv g t := h.inv
  refine Prog.holds_bind_of ((reads_stopped x).keeps stable stop h) fun _ t ⟨ht, _⟩ => ?_
  refine Prog.holds_bind_of ((reads_same x .rollback _).keeps stable stop ht) fun _ t ⟨ht, _⟩ => ?_
  refine Prog.holds_bind_of ((reads_same x .canonical _).keeps stable stop ht) fun _ t ⟨ht, _⟩ => ?_
  refine Prog.holds_bind_of (replace_keeps x (L := fun t => Loaded g x i t j) stable stop stop ht
    fun t k s ht seen _ _ => ht.restored possible unverified seen) fun _ t ht => ?_
  refine Prog.holds_bind_of (syncDirectory_keeps x (L := fun t => Loaded g x i t j) stable stop stop ht
    fun t ht => ht.settled) fun _ t ht => ?_
  refine Prog.holds_bind_of ((reads_collectId x .canonical).keeps stable stop ht) fun _ t ⟨ht, _⟩ => ?_
  refine Prog.holds_bind_of ((reads_demand _ _).keeps stable stop ht) fun _ t ⟨ht, _⟩ => ?_
  refine Prog.holds_bind_of ((reads_status x .canonical).keeps
    (K := fun t => Loaded g x i t j) stable stop ht) fun info t ⟨ht, found, _⟩ => ?_
  refine ((reads_demand _ _).keeps (K := fun t => Loaded g x i t j ∧ t.disk.stat .canonical = some info)
    (fun s t q h => ⟨h.1.steady q.toSteady, by rw [q.disk]; exact h.2⟩) (fun t h => h.1.inv)
    ⟨ht, found⟩).mono (fun _ t ⟨⟨ht, found⟩, same⟩ => ⟨ht, ?_⟩) (fun _ _ e => e) fun _ e => e
  rw [(Disk.visible_of_stat found).1]
  exact congrArg (fun f => some f.ino) same

theorem decideRecovery_keeps (h : Loaded g x i w j) (unverified : j.phase ≠ .liveVerified) :
    Prog.Holds (decideRecovery x j)
      (fun outcome t => Loaded g x i t j ∧ Decided g j t.disk outcome) (fun _ => Inv g) (Inv g) w := by
  have stable (s t : World) (q : Quiet s t) (h : Loaded g x i s j ∧ s.disk = w.disk) :
      Loaded g x i t j ∧ t.disk = w.disk := ⟨h.1.steady q.toSteady, q.disk.trans h.2⟩
  have stop (t : World) (h : Loaded g x i t j ∧ t.disk = w.disk) : Inv g t := h.1.inv
  refine Prog.holds_bind_of ((reads_status x .canonical).keeps stable stop ⟨h, rfl⟩)
    fun info t looked => ?_
  obtain ⟨ht, found, safe⟩ := looked
  rw [World.view_disk, ht.2] at found safe
  refine Prog.holds_bind_of ((reads_observeCanonical info).keeps stable stop ht)
    fun canonical t looked => ?_
  have ht := looked.1
  refine Prog.holds_bind_of ((reads_checkRollback j info).keeps stable stop ht)
    fun rollback t looked => ?_
  have ht := looked.1
  split
  · rename_i old
    refine ⟨ht.1, ?_⟩
    change t.disk.dir.visible .canonical = _
    rw [ht.2, (Disk.visible_of_stat found).1]
    exact congrArg (fun f => some f.ino) old.2
  · split
    · rename_i pending
      refine ⟨ht.1, pending.1, info.ino, ?_, ?_⟩
      · rw [← pending.2.2.2, Stat.fileId_of_safe safe, h.inv.dev]
      · rw [ht.2]
        exact (Disk.visible_of_stat found).1
    · cases rollback with
      | none => exact ht.1.inv
      | some rollback =>
        refine Prog.holds_bind_of ((reads_demand _ _).keeps stable stop ht)
          fun _ t demanded => ?_
        obtain ⟨ht, _, possible, _⟩ := demanded
        exact Prog.holds_bind_of (restoreRollback_keeps rollback info possible unverified ht.1)
          fun _ t ht => ht

/-! ## The cleanup -/

/-- The rollback goes where no image needs it. -/
theorem Inv.unlinkedRollback (h : Inv g w)
    (released : Released g ⟨.unlinked .rollback, w.disk, w.service, w.process⟩ w.trace)
    (free : ∀ ns, w.disk.dir.Image ns → ∀ k a, ns .journal = some k ∨ w.disk.dir.visible .journal = some k →
      Sealed g w.trace k (.journal a) → ns .canonical = some a.oldInode.ino ∨ a.phase = .liveVerified)
    (ended : ∀ k a, w.disk.dir.visible .journal = some k → Sealed g w.trace k (.journal a) →
      a.phase = .recoveredOld ∨ a.phase = .liveVerified) : Inv g (w.unlinked .rollback k) := by
  have logged : Inv g (w.log (.unlinked .rollback)) :=
    h.log (e := .unlinked .rollback) released (fun _ _ no => nomatch no) (fun _ no => nomatch no)
      (fun _ _ no => nomatch no) fun ⟨_, no⟩ => nomatch no
  have sealed {l : Nat} {a : Journal}
      (ha : Sealed g (w.log (.unlinked .rollback)).trace l (.journal a)) :
      Sealed g w.trace l (.journal a) := by
    rcases sealed_cons.mp ha with old | ⟨⟨_, no⟩, _⟩
    · exact old
    · cases no
  exact (logged.touch k).unlink (by decide)
    (fun _ ns image l a hl ha => free ns image l a hl (sealed ha)) (fun no => nomatch no)
    fun _ l a hl ha => (ended l a hl (sealed ha)).imp_right fun live => ⟨rfl, live⟩

/-- Nothing is left of the transaction but its journal. -/
structure Swept (g : Setting) (w : World) : Prop where
  inv : Inv g w
  images : ∀ ns, w.disk.dir.Image ns →
    ns .canonical = w.disk.dir.visible .canonical ∧ ns .stage = none ∧ ns .rollback = none ∧
      ns .journalNew = none

theorem Inv.swept (h : Inv g w) (stage : w.disk.dir.visible .stage = none)
    (rollback : w.disk.dir.visible .rollback = none)
    (temporary : w.disk.dir.visible .journalNew = none) : Swept g w.settled := by
  refine ⟨h.settled, fun ns image => ?_⟩
  rw [(w.disk.dir.image_sync ns).mp image]
  exact ⟨rfl, stage, rollback, temporary⟩

theorem Swept.quiet (h : Swept g w) (q : Quiet w t) : Swept g t :=
  ⟨h.inv.steady q.toSteady, by rw [q.disk]; exact h.images⟩

/-- The journal goes last. -/
theorem Swept.finish (h : Swept g w) :
    Prog.Holds (do remove x .journal; syncDirectory x) (fun _ => Inv g) (fun _ => Inv g) (Inv g) w := by
  refine Prog.holds_bind_of (remove_keeps x (K := Swept g) (L := Inv g) (fun s t q h => h.quiet q)
    (fun t h => h.inv) (fun t h => h) h (fun t h _ => h.inv) fun t k h _ => ?_) fun _ t ht => ?_
  · refine ((h.inv.plain (e := .unlinked .journal) rfl).touch k).unlink (by decide)
      (fun no => nomatch no) (fun _ => h.images) fun no => ?_
    rcases no with no | no <;> cases no
  · exact syncDirectory_keeps x (K := Inv g) (L := Inv g) (fun s t q h => h.steady q.toSteady)
      (fun t h => h) (fun t h => h) ht fun t h => h.settled

/-- Every image has the old store, under a journal that says so. -/
structure Cleaning (g : Setting) (i : Nat) (removed : List Name) (w : World) (v : Journal) : Prop where
  inv : Inv g w
  sealed : Sealed g w.trace i (.journal v)
  phase : v.phase = .recoveredOld
  journal : ∀ ns, w.disk.dir.Image ns → ns .journal = some i
  canonical : ∀ ns, w.disk.dir.Image ns → ns .canonical = some v.oldInode.ino
  gone : ∀ n ∈ removed, w.disk.dir.visible n = none

theorem Cleaning.quiet {removed : List Name} (h : Cleaning g i removed w v) (q : Quiet w t) :
    Cleaning g i removed t v where
  inv := h.inv.steady q.toSteady
  sealed := h.sealed.mono q.toSteady.suffix
  phase := h.phase
  journal := by rw [q.disk]; exact h.journal
  canonical := by rw [q.disk]; exact h.canonical
  gone := by rw [q.disk]; exact h.gone

theorem Cleaning.absent {removed : List Name} {n : Name} (h : Cleaning g i removed w v)
    (none : w.disk.dir.visible n = none) : Cleaning g i (n :: removed) w v := by
  refine { h with gone := fun m hm => ?_ }
  rcases List.mem_cons.mp hm with rfl | hm
  · exact none
  · exact h.gone m hm

theorem Cleaning.unlinked {removed : List Name} {n : Name} (h : Cleaning g i removed w v)
    (inv : Inv g (w.unlinked n k)) (store : n ≠ .canonical) (record : n ≠ .journal) :
    Cleaning g i (n :: removed) (w.unlinked n k) v where
  inv := inv
  sealed := h.sealed.mono (List.suffix_cons _ _)
  phase := h.phase
  journal ns image := by
    rcases (w.disk.dir.image_unlink n ns).mp image with old | ⟨earlier, old, rfl⟩
    · exact h.journal ns old
    · simpa [record.symm] using h.journal earlier old
  canonical ns image := by
    rcases (w.disk.dir.image_unlink n ns).mp image with old | ⟨earlier, old, rfl⟩
    · exact h.canonical ns old
    · simpa [store.symm] using h.canonical earlier old
  gone m hm := by
    change (w.disk.dir.unlink n).visible m = none
    rw [Dir.visible_unlink]
    by_cases same : m = n
    · simp [same]
    · simpa [same] using h.gone m ((List.mem_cons.mp hm).resolve_left same)

theorem Cleaning.recovered {removed : List Name} {l : Nat} {a : Journal}
    (h : Cleaning g i removed w v) (seen : w.disk.dir.visible .journal = some l)
    (sealed : Sealed g w.trace l (.journal a)) : a.phase = .recoveredOld := by
  obtain rfl : i = l := Option.some.inj ((h.journal _ w.disk.dir.image_visible).symm.trans seen)
  rw [h.inv.unique_journal h.sealed sealed]
  exact h.phase

/-- The old store is canonical again and journalled as recovered. -/
theorem Cleaning.released {removed : List Name} (h : Cleaning g i removed w v)
    (seen : w.disk.dir.visible .rollback = some k) : Inv g (w.unlinked .rollback k) := by
  have here := h.journal _ w.disk.dir.image_visible
  obtain ⟨a, sealed, ok, fits⟩ := h.inv.visible_journal here
  obtain rfl : v = a := h.inv.unique_journal sealed h.sealed
  refine h.inv.unlinkedRollback ⟨i, v, h.journal, (h.inv.synced i _ h.sealed).2.2, ?_, Or.inl ⟨h.phase,
    h.canonical _ w.disk.dir.image_visible, ok.reads_old h.inv⟩⟩ (fun ns image l a hl ha => ?_)
    fun l a hl ha => Or.inl (h.recovered hl ha)
  · rcases (fits _ w.disk.dir.image_visible).rollback with none | old
    · rw [none] at seen
      cases seen
    · exact old
  · have hl : some i = some l := by
      rcases hl with hl | hl
      · exact (h.journal ns image).symm.trans hl
      · exact here.symm.trans hl
    obtain rfl : i = l := Option.some.inj hl
    rw [h.inv.unique_journal h.sealed ha]
    exact Or.inl (h.canonical ns image)

theorem cleanUp_keeps (h : Cleaning g i [] w v) :
    Prog.Holds (cleanUp x) (fun _ => Inv g) (fun _ => Inv g) (Inv g) w := by
  have stable (removed : List Name) (s t : World) (q : Quiet s t) (h : Cleaning g i removed s v) :
      Cleaning g i removed t v := h.quiet q
  have stop (removed : List Name) (t : World) (h : Cleaning g i removed t v) : Inv g t := h.inv
  refine Prog.holds_bind_of (remove_keeps x (L := fun t => Cleaning g i [.stage] t v) (stable _)
    (stop _) (stop _) h (fun t h none => h.absent none)
    fun t k h _ => h.unlinked (h.inv.unlinkedPlain (Or.inl rfl) k
      fun _ l a hl ha => h.recovered hl ha) (by decide) (by decide))
    fun _ t ht => ?_
  refine Prog.holds_bind_of (remove_keeps x (L := fun t => Cleaning g i [.rollback, .stage] t v)
    (stable _) (stop _) (stop _) ht (fun t h none => h.absent none)
    fun t k h seen => h.unlinked (h.released seen) (by decide) (by decide)) fun _ t ht => ?_
  refine Prog.holds_bind_of (remove_keeps x
    (L := fun t => Cleaning g i [.journalNew, .rollback, .stage] t v) (stable _)
    (stop _) (stop _) ht (fun t h none => h.absent none)
    fun t k h _ => h.unlinked (h.inv.unlinkedPlain (Or.inr rfl) k fun no => nomatch no)
      (by decide) (by decide))
    fun _ t ht => ?_
  refine Prog.holds_bind_of (syncDirectory_keeps x (L := Swept g) (stable _) (stop _)
    (fun t h => h.inv) ht fun t h => h.inv.swept (h.gone .stage (by simp)) (h.gone .rollback (by simp))
      (h.gone .journalNew (by simp))) fun _ t ht => ?_
  exact ht.finish

/-- The stage, if there is one, is no larger than the executor takes a store to
be. Nothing bounds what keytool leaves in it. -/
def StageFits (d : Disk) : Prop :=
  ∀ i, d.dir.visible .stage = some i → (d.files i).size ≤ maxStore

theorem reads_checkStage (j : Journal) : Reads (checkStage x j) fun _ v => StageFits v.disk := by
  refine reads_then (reads_exists x .stage) fun b => ?_
  cases b with
  | false =>
    refine (reads_pure ()).mono ?_
    rintro _ v _ free i seen
    rw [seen] at free
    cases free
  | true =>
    refine reads_then (reads_status x .stage) fun s => (reads_demand _ _).mono ?_
    rintro _ v _ ⟨found, safe⟩ _ i seen
    obtain ⟨named, stat⟩ := Disk.visible_of_stat found
    have small := Stat.size_of_safe safe
    rw [stat, ← Option.some.inj (seen.symm.trans named)] at small
    exact small

theorem recoverTransaction_keeps (startup : Bool) (h : Loaded g x i w j)
    (unverified : j.phase ≠ .liveVerified) :
    Prog.Holds (recoverTransaction x j startup)
      (fun outcome t => Inv g t ∧ outcome ≠ .renewalFinalized) (fun _ => Inv g) (Inv g) w := by
  have steady (s t : World) (q : Steady s t) (h : Loaded g x i s j) : Loaded g x i t j := h.steady q
  have stop (t : World) (h : Loaded g x i t j) : Inv g t := h.inv
  refine Prog.holds_bind_of (Steadies.keeps (steadies_process fun _ => ⟨rfl, rfl⟩) steady stop h)
    fun _ t ht => ?_
  refine Prog.holds_bind_of (Steadies.keeps (steadies_stop x) steady stop ht) fun _ t ht => ?_
  refine Prog.holds_bind_of (decideRecovery_keeps ht unverified) fun outcome t ht => ?_
  have steady (s t : World) (q : Steady s t) (h : Loaded g x i s j ∧ Decided g j s.disk outcome) :
      Loaded g x i t j ∧ Decided g j t.disk outcome := ⟨h.1.steady q, by rw [q.disk]; exact h.2⟩
  have quiet (s t : World) (q : Quiet s t) (h : Loaded g x i s j ∧ Decided g j s.disk outcome) :
      Loaded g x i t j ∧ Decided g j t.disk outcome := steady s t q.toSteady h
  have stop (t : World) (h : Loaded g x i t j ∧ Decided g j t.disk outcome) : Inv g t := h.1.inv
  refine Prog.holds_bind_of ((reads_checkStage j).keeps quiet stop ht) fun _ t ⟨ht, _⟩ => ?_
  refine Prog.holds_bind_of ((reads_stopped x).keeps quiet stop ht) fun _ t ⟨ht, _⟩ => ?_
  refine Prog.holds_bind_of (Steadies.keeps (steadies_resumeService x startup) steady stop ht)
    fun _ t ⟨ht, decided⟩ => ?_
  have proper := ht.ok.supported.proper
  have write := ht.toHeld.rephased (p := outcome.journalPhase) unverified ?_
    (fun no => by cases outcome <;> cases no) (fun no => by cases outcome <;> cases no)
    (decided.snug proper unverified)
  · refine Prog.holds_bind_of ((phase_keeps x (f := id) ht.memory rfl write).mono
      (fun _ t ht => ht) (fun _ t ht => ht.inv) fun t ht => ht.inv) fun _ s ⟨durable, scribed⟩ => ?_
    cases outcome with
    | noActiveTransaction => exact decided.elim
    | renewalFinalized => exact decided.elim
    | serviceResumedPendingLiveVerification => exact ⟨durable.inv, fun no => nomatch no⟩
    | recoveredOld =>
      obtain ⟨l, seen, sealed⟩ := durable.journal
      refine Prog.holds_bind_of (cleanUp_keeps (i := l) ⟨durable.inv, sealed, rfl, fun ns image => ?_,
        fun ns image => ?_, fun _ no => nomatch no⟩) fun _ u hu => ⟨hu, fun no => nomatch no⟩
      · rw [durable.only ns image]
        exact seen
      · rw [durable.only ns image, scribed.names .canonical (by decide) (by decide)]
        exact decided
  · cases outcome with
    | noActiveTransaction => exact decided.elim
    | renewalFinalized => exact decided.elim
    | recoveredOld => exact progress_mem_chain proper.progress
    | serviceResumedPendingLiveVerification =>
      exact List.mem_singleton.mpr
        (committable_of_commit (progress_mem_chain proper.progress) decided.1)

/-! ## A live-verified transaction is finished -/

/-- The live-verified journal was synced, and then the directory. -/
structure Firm (g : Setting) (x : Session) (i : Nat) (w : World) (j : Journal) :
    Prop extends Loaded g x i w j where
  live : j.phase = .liveVerified
  only : ∀ ns, w.disk.dir.Image ns → ns = w.disk.dir.visible
  barrier : ∃ file directory, [directory, file].Sublist w.trace ∧
    file.event = .syncedFile .journal i ∧ (file.disk.files i).content = .journal j ∧
    directory.event = .syncedDirectory ∧ directory.disk.dir.visible .journal = some i

theorem Firm.quiet (h : Firm g x i w j) (q : Quiet w t) : Firm g x i t j where
  toLoaded := h.toLoaded.steady q.toSteady
  live := h.live
  only := by rw [q.disk]; exact h.only
  barrier := by
    obtain ⟨file, directory, order, rest⟩ := h.barrier
    exact ⟨file, directory, order.trans q.toSteady.suffix.sublist, rest⟩

theorem Loaded.fsynced (h : Loaded g x i w j) : Loaded g x i (w.fsynced .journal i) j :=
  ⟨h.toHeld.fsynced (w.disk.dir.visible_lt h.journal), h.locked, h.journal,
    h.sealed.mono (List.suffix_cons _ _), h.digest⟩

theorem establish_keeps (h : Loaded g x i w j) :
    Prog.Holds (establishLiveVerifiedDurability x)
      (fun _ t => Firm g x i t j ∧ t.disk.dir.visible = w.disk.dir.visible)
      (fun _ => Inv g) (Inv g) w := by
  have quiet (s t : World) (q : Quiet s t)
      (h : Loaded g x i s j ∧ s.disk.dir.visible = w.disk.dir.visible) :
      Loaded g x i t j ∧ t.disk.dir.visible = w.disk.dir.visible :=
    ⟨h.1.steady q.toSteady, by rw [q.disk]; exact h.2⟩
  have stop (t : World) (h : Loaded g x i t j ∧ t.disk.dir.visible = w.disk.dir.visible) : Inv g t :=
    h.1.inv
  refine Prog.holds_bind_of (reads_getJournal.keeps quiet stop ⟨h, rfl⟩) fun a t ⟨ht, memory⟩ => ?_
  obtain rfl : j = a := Option.some.inj (ht.1.memory.symm.trans memory)
  refine Prog.holds_bind_of ((reads_demand _ _).keeps quiet stop ht) fun _ t ⟨ht, live⟩ => ?_
  refine Prog.holds_bind_of ((reads_status x .journal).keeps quiet stop ht) fun info t ⟨ht, _⟩ => ?_
  -- the file first
  have quiet' (s t : World) (q : Quiet s t)
      (h : (Loaded g x i s j ∧ s.disk.dir.visible = w.disk.dir.visible) ∧ ∃ file ∈ s.trace,
        file.event = .syncedFile .journal i ∧ (file.disk.files i).content = .journal j) :
      (Loaded g x i t j ∧ t.disk.dir.visible = w.disk.dir.visible) ∧ ∃ file ∈ t.trace,
        file.event = .syncedFile .journal i ∧ (file.disk.files i).content = .journal j := by
    obtain ⟨loaded, file, seen, rest⟩ := h
    exact ⟨quiet s t q loaded, file, q.toSteady.suffix.subset seen, rest⟩
  refine Prog.holds_bind_of (syncFile_keeps x
    (L := fun t => (Loaded g x i t j ∧ t.disk.dir.visible = w.disk.dir.visible) ∧ ∃ file ∈ t.trace,
      file.event = .syncedFile .journal i ∧ (file.disk.files i).content = .journal j)
    quiet stop (fun t h => h.1.1.inv) ht fun t k ht seen => ?_) fun _ t ht => ?_
  · obtain rfl : i = k := Option.some.inj (ht.1.journal.symm.trans seen)
    exact ⟨⟨ht.1.fsynced, ht.2⟩, _, List.mem_cons_self, rfl, (ht.1.inv.synced i _ ht.1.sealed).2.1⟩
  refine Prog.holds_bind_of ((reads_same x .journal info).keeps quiet' (fun t h => h.1.1.inv) ht)
    fun _ t ⟨ht, _⟩ => ?_
  -- then the directory
  have quiet'' (s t : World) (q : Quiet s t)
      (h : Firm g x i s j ∧ s.disk.dir.visible = w.disk.dir.visible) :
      Firm g x i t j ∧ t.disk.dir.visible = w.disk.dir.visible :=
    ⟨h.1.quiet q, by rw [q.disk]; exact h.2⟩
  refine Prog.holds_bind_of (syncDirectory_keeps x
    (L := fun t => Firm g x i t j ∧ t.disk.dir.visible = w.disk.dir.visible)
    quiet' (fun t h => h.1.1.inv) (fun t h => h.1.inv) ht fun t ⟨⟨loaded, names⟩, file, seen, rest⟩ => ?_)
    fun _ t ht => ?_
  · refine ⟨⟨loaded.settled, live, fun ns image => (t.disk.dir.image_sync ns).mp image, file, _,
      (List.singleton_sublist.mpr seen).cons_cons _, rest.1, rest.2, rfl, loaded.journal⟩, names⟩
  · exact ((reads_same x .journal info).keeps quiet'' (fun t h => h.1.inv) ht).mono
      (fun _ _ h => h.1) (fun _ _ e => e) fun _ e => e

theorem Firm.released (h : Firm g x i w j) (seen : w.disk.dir.visible .rollback = some k) :
    Inv g (w.unlinked .rollback k) := by
  refine h.inv.unlinkedRollback ⟨i, j, fun ns image => ?_, (h.inv.synced i _ h.sealed).2.2, ?_,
    Or.inr ⟨h.live, h.barrier⟩⟩ (fun ns image l a hl ha => ?_) fun l a hl ha => ?_
  · rw [h.only ns image]
    exact h.journal
  · rcases (h.fits _ w.disk.dir.image_visible).rollback with none | old
    · rw [none] at seen
      cases seen
    · exact old
  · rw [h.only ns image, or_self, h.journal] at hl
    obtain rfl : i = l := Option.some.inj hl
    rw [h.inv.unique_journal h.sealed ha]
    exact Or.inr h.live
  · obtain rfl : i = l := Option.some.inj (h.journal.symm.trans hl)
    rw [h.inv.unique_journal h.sealed ha]
    exact Or.inr h.live

theorem finishLiveVerified_keeps (h : Firm g x i w j) (stage : w.disk.dir.visible .stage = none)
    (temporary : w.disk.dir.visible .journalNew = none) :
    Prog.Holds (finishLiveVerified x) (fun _ t => Inv g t ∧ w.trace <:+ t.trace) (fun _ => Inv g) (Inv g)
      w := by
  suffices keeps : Prog.Holds (finishLiveVerified x) (fun _ => Inv g) (fun _ => Inv g) (Inv g) w from
    (keeps.and ((logs_finishLiveVerified (P := fun _ => True) x fun _ _ _ _ _ => trivial).emits w)).mono
      (fun _ _ h => ⟨h.1, h.2.1.suffix⟩) (fun _ _ h => h.1) fun _ h => h.1
  let Bare (t : World) : Prop :=
    t.disk.dir.visible .stage = none ∧ t.disk.dir.visible .journalNew = none
  have quiet (s t : World) (q : Quiet s t) (h : Firm g x i s j ∧ Bare s) :
      Firm g x i t j ∧ Bare t := ⟨h.1.quiet q, by simpa only [Bare, q.disk] using h.2⟩
  have stop (t : World) (h : Firm g x i t j ∧ Bare t) : Inv g t := h.1.inv
  refine Prog.holds_bind_of (reads_getJournal.keeps quiet stop ⟨h, stage, temporary⟩)
    fun _ t ⟨ht, _⟩ => ?_
  refine Prog.holds_bind_of ((reads_demand _ _).keeps quiet stop ht) fun _ t ⟨ht, _⟩ => ?_
  have gone (t : World) (k : Nat) (free : Bare t) : Bare (t.unlinked .rollback k) ∧
      (t.unlinked .rollback k).disk.dir.visible .rollback = none := by
    simpa [Bare, World.unlinked] using free
  refine Prog.holds_bind_of (remove_keeps x (L := fun t => Inv g t ∧ Bare t ∧
    t.disk.dir.visible .rollback = none) quiet stop (fun t h => h.1) ht
    (fun t h none => ⟨h.1.inv, h.2, none⟩)
    fun t k h seen => ⟨h.1.released seen, gone t k h.2⟩) fun _ t ht => ?_
  refine Prog.holds_bind_of (syncDirectory_keeps x
    (K := fun t => Inv g t ∧ Bare t ∧ t.disk.dir.visible .rollback = none)
    (L := Swept g) (fun s t q h => ⟨h.1.steady q.toSteady, by simpa only [Bare, q.disk] using h.2⟩)
    (fun t h => h.1) (fun t h => h.inv) ht fun t h => h.1.swept h.2.1.1 h.2.2 h.2.1.2) fun _ t ht => ?_
  exact ht.finish

/-- What `validateLiveVerifiedFiles` finds. -/
structure FilesVerified (x : Session) (j : Journal) (rollbackOptional : Bool) (d : Disk) : Prop where
  canonical : ∃ s id, d.stat .canonical = some s ∧ s.nlink = 1 ∧ some s.fileId = j.stageInode ∧
    x.host.Reads (d.files s.ino).content id ∧ some id = j.issued
  rollback : (rollbackOptional = true ∧ d.dir.visible .rollback = none) ∨
    ∃ s, d.stat .rollback = some s ∧ s.fileId = j.oldInode ∧ x.host.Reads (d.files s.ino).content j.old
  stage : d.dir.visible .stage = none
  journalNew : d.dir.visible .journalNew = none

theorem reads_validateLiveVerifiedFiles (rollbackOptional : Bool) :
    Reads (validateLiveVerifiedFiles x rollbackOptional) fun _ v =>
      ∃ j, v.process.journal = some j ∧ FilesVerified x j rollbackOptional v.disk := by
  refine reads_then reads_getJournal fun j => reads_then (reads_status x .canonical) fun s => ?_
  refine reads_then (reads_demand _ _) fun _ => reads_then (reads_demand _ _) fun _ => ?_
  refine reads_then (reads_collectId x .canonical) fun id => reads_then (reads_demand _ _) fun _ => ?_
  refine reads_then (reads_exists x .rollback) fun b => ?_
  -- the rest looks at the stage and the temporary journal
  have rest : Reads (do
      demand (!(← exists_ x .stage)) "unexpected pending stage"
      demand (!(← exists_ x .journalNew)) "unexpected pending journal replacement") fun _ v =>
        v.disk.dir.visible .stage = none ∧ v.disk.dir.visible .journalNew = none := by
    refine reads_then (reads_exists x .stage) fun staged => reads_then (reads_demand _ _) fun _ => ?_
    refine reads_then (reads_exists x .journalNew) fun temporary => (reads_demand _ _).mono ?_
    rintro _ v free eq unstaged eq'
    simp_all
  have canonical {v : View} (named : some id = j.issued)
      (found : ∃ i, v.disk.dir.visible .canonical = some i ∧ x.host.Reads (v.disk.files i).content id)
      (number : some s.fileId = j.stageInode) (single : s.nlink = 1)
      (stat : v.disk.stat .canonical = some s) :
      ∃ s id, v.disk.stat .canonical = some s ∧ s.nlink = 1 ∧ some s.fileId = j.stageInode ∧
        x.host.Reads (v.disk.files s.ino).content id ∧ some id = j.issued := by
    obtain ⟨i, seen, reads⟩ := found
    obtain rfl : s.ino = i := Option.some.inj ((Disk.visible_of_stat stat).1.symm.trans seen)
    exact ⟨s, id, stat, single, number, reads, named⟩
  cases b with
  | false =>
    refine reads_then (reads_demand _ _) fun _ => rest.mono ?_
    rintro _ v ⟨stage, journalNew⟩ optional free named found number single stat memory
    refine ⟨j, memory, canonical named found number single stat.1, Or.inl ⟨optional, ?_⟩, stage,
      journalNew⟩
    simpa using free.symm
  | true =>
    refine reads_then (reads_status x .rollback) fun r => reads_then (reads_demand _ _) fun _ => ?_
    refine reads_then (reads_demand _ _) fun _ => reads_then (reads_collectId x .rollback) fun old => ?_
    refine reads_then (reads_demand _ _) fun _ => rest.mono ?_
    rintro _ v ⟨stage, journalNew⟩ same ⟨i, seen, reads⟩ file _ kept _ named found number single stat memory
    obtain rfl : r.ino = i := Option.some.inj ((Disk.visible_of_stat kept.1).1.symm.trans seen)
    exact ⟨j, memory, canonical named found number single stat.1,
      Or.inr ⟨r, kept.1, file, by rw [← same]; exact reads⟩, stage, journalNew⟩

/-! ## The operation -/

/-- A finalised transaction was the one journalled when the operation began, and
it had been observed. -/
def Finalized (g : Setting) (w : World) (outcome : RecoveryOutcome) (t : World) : Prop :=
  outcome = .renewalFinalized → ∃ i j, w.disk.dir.visible .journal = some i ∧
    (w.disk.files i).content = .journal j ∧ Observed g t.trace j

theorem Finalized.suffix {outcome : RecoveryOutcome} {s : World} (h : Finalized g w outcome t)
    (ext : t.trace <:+ s.trace) : Finalized g w outcome s := by
  intro final
  obtain ⟨i, j, seen, content, observed⟩ := h final
  exact ⟨i, j, seen, content, observed.mono ext⟩

/-- The journal found under the lock is the one there was before. -/
theorem Locks.journal_before (h : Locks w t) (seen : t.disk.dir.visible .journal = some i)
    (content : (t.disk.files i).content = .journal j) :
    w.disk.dir.visible .journal = some i ∧ (w.disk.files i).content = .journal j := by
  rw [h.names .journal (by decide)] at seen
  rw [h.files i (w.disk.dir.visible_lt seen)] at content
  exact ⟨seen, content⟩

theorem recover_keeps (startup : Bool) (inv : Inv g w) (journal : w.process.journal = none) :
    Prog.Holds (recover x startup) (fun outcome t => Inv g t ∧ Finalized g w outcome t)
      (fun _ => Inv g) (Inv g) w := by
  refine locked_keeps x (P := Finalized g w) (fun _ s t q h => h.suffix q.toSteady.suffix)
    (fun _ t h => h) (fun s hs locks => ?_) inv journal
  have stable (r t : World) (q : Quiet r t) (h : Entered g r ∧ r.disk = s.disk) :
      Entered g t ∧ t.disk = s.disk := ⟨h.1.quiet q, q.disk.trans h.2⟩
  refine Prog.holds_bind_of ((reads_exists x .journal).keeps stable (fun t h => h.1.inv) ⟨hs, rfl⟩)
    fun b t ⟨ht, _⟩ => ?_
  cases b with
  | false =>
    refine Prog.holds_bind_of ((reads_noTransaction x).keeps stable (fun t h => h.1.inv) ht)
      fun _ t ⟨ht, _⟩ => ?_
    exact Prog.holds_bind_of (syncDirectory_keeps x (L := Inv g) stable (fun t h => h.1.inv)
      (fun t h => h) ht fun t h => h.1.inv.settled) fun _ t ht => ⟨ht, fun no => nomatch no⟩
  | true =>
    refine Prog.holds_bind_of (loadJournal_keeps ht.1) fun j t ⟨i, loaded, disk⟩ => ?_
    have found := locks.journal_before (i := i) (j := j)
      (by rw [← ht.2, ← disk]; exact loaded.journal)
      (by rw [← ht.2, ← disk]; exact (loaded.inv.synced i _ loaded.sealed).2.1)
    split
    · rename_i live
      refine Prog.holds_bind_of (establish_keeps loaded) fun _ t ⟨firm, _⟩ => ?_
      refine Prog.holds_bind_of ((reads_validateLiveVerifiedFiles true).keeps
        (K := fun t => Firm g x i t j) (fun s t q h => h.quiet q) (fun t h => h.inv) firm)
        fun _ t ⟨firm, _, _, verified⟩ => ?_
      have observed := firm.ok.supported.live live
      exact Prog.holds_bind_of (finishLiveVerified_keeps firm verified.stage verified.journalNew)
        fun _ u hu => ⟨hu.1, fun _ => ⟨i, j, found.1, found.2, observed.mono hu.2⟩⟩
    · rename_i unverified
      exact (recoverTransaction_keeps startup loaded unverified).mono
        (fun outcome t ht => ⟨ht.1, fun final => absurd final ht.2⟩) (fun _ _ e => e) fun _ e => e

end

end CertRenewer
