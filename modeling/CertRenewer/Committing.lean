import CertRenewer.Installing

/-!
# From the stage to the pending journal

The stage is numbered, imported into, proved and synced; the old store gets its
second name; the stage takes the canonical name. Each step rests on the one
before being durable.
-/

namespace CertRenewer

open Crash

section
variable {g : Setting} {x : Session} {w t : World} {j v : Journal} {k : Nat} {c : Content}

/-! ## The stage is numbered and imported into -/

/-- The stage is on disk under the number the journal records. -/
structure Staged (g : Setting) (x : Session) (k : Nat) (w : World) (j : Journal) :
    Prop extends At g x (some k) none .staged w j where
  number : j.stageInode = some ⟨g.dev, k⟩
  unsealed : ∀ c, ¬ Sealed g w.trace k c

theorem Staged.steady (h : Staged g x k w j) (s : Steady w t) : Staged g x k t j :=
  ⟨h.toAt.steady s, h.number, fun c hs => h.unsealed c (s.sealed.mp hs)⟩

theorem Journal.issued_of_staging (h : j.progress = .staging) : j.issued.isSome = true :=
  congrArg Progress.issued h

theorem Copied.numbered {s : Stat} (h : Copied g x k w j) (id : s.fileId = ⟨g.dev, k⟩) :
    Prog.Holds (phase x .staging fun j => { j with stageInode := some s.fileId })
      (fun _ t => ∃ v, Staged g x k t v ∧ ¬ ImportedIn t.trace v.transaction ∧ v.issued = j.issued ∧
        v.start = j.start)
      (fun _ => Ready g j.start) (Ready g j.start) w := by
  obtain ⟨unstaged, unlinked, uncommitted⟩ := Journal.fields_of_staging h.progress
  have issued := Journal.issued_of_staging h.progress
  have proper := h.ok.supported.proper
  rw [id]
  have below : j.Below { j with phase := .staging, stageInode := some ⟨g.dev, k⟩ } :=
    ⟨⟨rfl, rfl, rfl, rfl, rfl, rfl⟩, Or.inr rfl, Or.inl unstaged, fun r => r, fun r => r⟩
  have progress : Journal.progress { j with phase := .staging, stageInode := some ⟨g.dev, k⟩ } =
      .staged := by
    simp [Journal.progress, Progress.staged, issued, unlinked, uncommitted]
  have differs := ((h.fits _ w.disk.dir.image_visible).stage k h.seen).1
  have supported : Supported g w.trace
      { j with phase := .staging, stageInode := some ⟨g.dev, k⟩ } := by
    refine ⟨⟨proper.version, proper.oldBounded, proper.oldDev, proper.issued, ?_, ?_, ?_⟩,
      h.ok.supported.old, ?_, ?_⟩
    · intro f hf
      obtain rfl : ⟨g.dev, k⟩ = f := Option.some.inj hf
      exact ⟨rfl, differs⟩
    · rw [progress]
      exact List.mem_cons_of_mem _ List.mem_cons_self
    · intro no
      cases no
    · intro possible
      rw [show j.commitPossible = true from possible] at uncommitted
      cases uncommitted
    · intro no
      cases no
  have fits (ns : Names Name) (image : w.disk.dir.Image ns) :
      Fits g { j with phase := .staging, stageInode := some ⟨g.dev, k⟩ } ns := by
    have old := h.fits ns image
    refine ⟨Or.inl (old.canonical_of_unstaged unstaged), old.rollback, fun i hi => ?_⟩
    refine ⟨(old.stage i hi).1, fun f hf => ?_⟩
    obtain rfl : ⟨g.dev, k⟩ = f := Option.some.inj hf
    exact (h.stages ns image i hi).symm
  have write := h.toMine.writable h.journals supported below fits fun _ => by
    refine Snug.of_uncommitted (q := .staging) progress rfl (by decide) (fun no => absurd no (by decide))
      (fun no => absurd no (by decide)) (fun _ => ?_) fun no => absurd no (by decide)
    rw [h.seen]
    simp
  refine (phase_owned x h.toMine rfl below (by decide) (by decide) write).mono (fun _ t both => ?_)
    (fun _ _ e => e) fun _ e => e
  obtain ⟨owned, scribed⟩ := both
  refine ⟨_, ⟨⟨owned, ?_, ?_, h.digest, progress⟩, rfl, fun c hs => ?_⟩, fun no => ?_, rfl, rfl⟩
  · rw [scribed.names .stage (by decide) (by decide)]
    exact h.seen
  · rw [scribed.names .rollback (by decide) (by decide)]
    exact h.rollback
  · exact h.unsealed c (scribed.sealed k (w.disk.dir.visible_lt h.seen) c hs)
  · exact h.unimported (scribed.imported _ no)

theorem Staged.amend {f : Inode → Inode} (h : Staged g x k w j)
    (healthy : ∀ file, Healthy g.dev .stage file → Healthy g.dev .stage (f file)) :
    Staged g x k (w.amend k f) j := by
  have held := h.toHeld.amend (h.inv.amend rfl h.stage h.unsealed (healthy _) fun no => nomatch no)
  have mine := h.toMine.of_held held (fun _ ha => ha) rfl rfl
  have durable : Durable g (w.amend k f) j :=
    ⟨held, h.durable.only, h.durable.journal, h.durable.temporary⟩
  exact ⟨⟨⟨mine, durable⟩, h.stage, h.rollback, h.digest, h.progress⟩, h.number, h.unsealed⟩

/-- The number the journal records is not the old store's. -/
theorem Staged.differs (h : Staged g x k w j) : k ≠ j.oldInode.ino :=
  ((h.fits _ w.disk.dir.image_visible).stage k h.stage).1

/-- Before a commit is possible the canonical store is the old one. -/
theorem At.canonical {s r : Option Nat} {p : Progress} (h : At g x s r p w j) (uncommitted : p.commit = false) :
    w.disk.dir.visible .canonical = some j.oldInode.ino := by
  rcases (h.fits _ w.disk.dir.image_visible).canonical with old | ⟨possible, _⟩
  · exact old
  · have commit : j.progress.commit = true := possible
    rw [h.progress, uncommitted] at commit
    cases commit

theorem importcert_keeps (reply : Bytes) (h : Staged g x k w j)
    (unimported : ¬ ImportedIn w.trace j.transaction) :
    Prog.Holds (keytool x .stage (.importcert reply)) (fun _ t => Staged g x k t j)
      (fun _ => Ready g j.start) (Ready g j.start) w := by
  have quiet (s t : World) (q : Quiet s t)
      (h : Staged g x k s j ∧ ¬ ImportedIn s.trace j.transaction) :
      Staged g x k t j ∧ ¬ ImportedIn t.trace j.transaction :=
    ⟨h.1.steady q.toSteady, fun no => h.2 ((q.toSteady.importedIn _).mp no)⟩
  have stop (t : World) (h : Staged g x k t j ∧ ¬ ImportedIn t.trace j.transaction) : Ready g j.start t :=
    h.1.ready
  have pass : Reads (primitive x (pure ())) fun _ _ => True :=
    (reads_primitive x (reads_pure ())).mono fun _ _ _ => trivial
  refine Prog.holds_bind_of (reads_assertLocked.keeps quiet stop ⟨h, unimported⟩) fun _ t ⟨ht, _⟩ => ?_
  refine Prog.holds_bind_of ((reads_demand _ _).keeps quiet stop ht) fun _ t ⟨ht, _⟩ => ?_
  refine Prog.holds_bind_of ((reads_demand _ _).keeps quiet stop ht) fun _ t ⟨ht, _⟩ => ?_
  refine Prog.holds_bind_of (pass.keeps quiet stop ht) fun _ t ⟨ht, _⟩ => ?_
  refine holds_primitive x quiet stop ht (fun t ⟨ht, unimported⟩ => ?_) fun _ t ht => ht.ready
  rw [Prog.holds_bind]
  change Prog.Holds _ _ _ _ (t.log (.keytool .stage (.importcert reply)))
  have canonical := ht.canonical rfl
  have inv : Inv g (t.log (.keytool .stage (.importcert reply))) := by
    refine ht.inv.log (e := .keytool .stage (.importcert reply))
      ⟨rfl, ⟨j, ht.memory, unimported⟩, k, _, ht.stage, canonical, ht.differs⟩
      (fun _ _ no => nomatch no) (fun _ no => nomatch no) ?_ fun ⟨_, no⟩ => nomatch no
    intro _ _ _ a ha
    obtain rfl : j = a := Option.some.inj (ht.memory.symm.trans ha)
    exact ht.inv.wrote j ht.ok.wrote
  have held : Held g (t.log (.keytool .stage (.importcert reply))) j :=
    ht.toHeld.carry inv rfl rfl (fun _ no => nomatch no) rfl (fun ns image => ⟨ns, image, rfl, rfl, rfl, rfl⟩)
      fun _ _ => rfl
  have logged : Staged g x k (t.log (.keytool .stage (.importcert reply))) j := by
    obtain ⟨i, seen, sealed⟩ := ht.durable.journal
    refine ⟨⟨⟨ht.toMine.of_held held (fun a ha => by simpa using wrote_cons.mp ha) rfl rfl, held,
      ht.durable.only, ⟨i, seen, sealed.mono (List.suffix_cons _ _)⟩, ht.durable.temporary⟩,
      ht.stage, ht.rollback, ht.digest, ht.progress⟩, ht.number, fun c hs => ?_⟩
    rcases sealed_cons.mp hs with old | ⟨⟨_, no⟩, _⟩
    · exact ht.unsealed c old
    · cases no
  unfold importEntry
  rw [Prog.holds_bind, Prog.holds_bind, Prog.holds_read]
  rw [show (id (t.log (.keytool .stage (.importcert reply)))).disk.dir.visible .stage = some k from
    logged.stage]
  exact logged.amend fun file hf => ⟨hf.regular, hf.mode, hf.device, hf.outside,
    fun no => absurd rfl no, hf.owner⟩

/-! ## The stage is proved and synced -/

/-- The stage holds a content that was proved for the transaction and synced. -/
structure Proved (g : Setting) (x : Session) (r : Option Nat) (p : Progress) (k : Nat) (c : Content)
    (w : World) (j : Journal) : Prop extends At g x (some k) r p w j where
  number : j.stageInode = some ⟨g.dev, k⟩
  sealed : Sealed g w.trace k c
  proved : StageProved g w.trace j k c
  reads : ∃ id, j.issued = some id ∧ g.host.Reads c id

theorem Proved.steady {r : Option Nat} {p : Progress} (h : Proved g x r p k c w j)
    (s : Steady w t) : Proved g x r p k c t j :=
  ⟨h.toAt.steady s, h.number, h.sealed.mono s.suffix, h.proved.mono s.suffix, h.reads⟩

theorem Proved.advance {r : Option Nat} {p q : Progress} {ph : Phase} {f : Journal → Journal}
    (h : Proved g x r p k c w j) (next : v = { f j with phase := ph }) (below : j.Below v)
    (unverified : ph ≠ .liveVerified) (active : ph ≠ .recoveredOld) (progress : v.progress = q)
    (number : v.stageInode = j.stageInode) (issued : v.issued = j.issued) (write : Writable g (w.remember v) v) :
    Prog.Holds (phase x ph f) (fun _ t => Proved g x r q k c t v) (fun _ => Ready g j.start) (Ready g j.start) w := by
  refine (h.toAt.advance next below unverified active progress write).mono (fun _ t ⟨at_, scribed⟩ => ?_)
    (fun _ _ e => e) fun _ e => e
  have suffix : w.trace <:+ t.trace := scribed.suffix
  refine ⟨at_, number.trans h.number, h.sealed.mono suffix, (h.proved.mono suffix).congr ?_ ?_ issued,
    by rw [issued]; exact h.reads⟩
  · exact below.start.transaction.symm
  · exact below.start.policyDigest.symm

/-- What the sync of a file leaves of the transaction. -/
theorem At.fsynced {s r : Option Nat} {p : Progress} {n : Name} {i : Nat} (h : At g x s r p w j)
    (below : i < w.disk.dir.next) : At g x s r p (w.fsynced n i) j := by
  have held := h.toHeld.fsynced (n := n) below
  obtain ⟨l, seen, sealed⟩ := h.durable.journal
  exact ⟨⟨h.toMine.of_held held (fun a ha => by simpa using wrote_cons.mp ha) rfl rfl, held,
    h.durable.only, ⟨l, seen, sealed.mono (List.suffix_cons _ _)⟩, h.durable.temporary⟩,
    h.stage, h.rollback, h.digest, h.progress⟩

/-- A verification of the stage's present content is on record. -/
structure Verified (g : Setting) (x : Session) (request : CertificateImportRequest) (k : Nat)
    (c : Content) (w : World) (j : Journal) : Prop extends Staged g x k w j where
  content : (w.disk.files k).content = c
  record : ∃ verified ∈ w.trace, ∃ now state inspection,
    verified.event = .stageVerified x.policy request now ∧
    verified.disk.dir.visible .stage = some k ∧ (verified.disk.files k).content = c ∧
    verified.process.journal.map Journal.transaction = some j.transaction ∧
    g.host.read c = some state ∧
    verifyCertificateImport g.host.lib state request now = .ok inspection ∧
    (publicId g.host.lib state).toOption = j.issued
  reads : ∃ id, j.issued = some id ∧ g.host.Reads c id

theorem Verified.steady {request : CertificateImportRequest} (h : Verified g x request k c w j)
    (s : Steady w t) : Verified g x request k c t j := by
  obtain ⟨verified, seen, rest⟩ := h.record
  exact ⟨h.toStaged.steady s, by rw [s.disk]; exact h.content,
    ⟨verified, s.suffix.subset seen, rest⟩, h.reads⟩

theorem Verified.synced {request : CertificateImportRequest} (h : Verified g x request k c w j)
    (own : OwnPolicy x.policy request) :
    Proved g x none .staged k c (w.fsynced .stage k) j := by
  obtain ⟨verified, seen, now, state, inspection, event, named, held, mine, read, proved, issued⟩ :=
    h.record
  exact ⟨h.toAt.fsynced (w.disk.dir.visible_lt h.stage), h.number,
    sealed_cons.mpr (Or.inr ⟨⟨.stage, rfl⟩, h.content⟩),
    StageProved.of_verified seen event named held mine h.digest.symm own read proved issued rfl
      h.content, h.reads⟩

/-- A verified import has the identity that was journalled as issued. -/
theorem issued_of_verified {request : CertificateImportRequest} {checked : Checked}
    {state : PublicKeystoreState} {now : Clock} {inspection : UnifiCertificateInspection}
    (h : Admissible g x request j checked)
    (proved : verifyCertificateImport g.host.lib state request now = .ok inspection) :
    publicId g.host.lib state = .ok checked.issued := by
  obtain ⟨plan, prepared, inspected, same, chain⟩ := verify_spec proved
  obtain ⟨before, first⟩ := h.prepared
  obtain ⟨issued, der⟩ := prepare_stable first prepared
  simp only [publicId, inspected, bind, Except.bind, Except.ok.injEq]
  rw [h.issued, same, chain, issued, der]

theorem stageImport_keeps (host : x.host = g.host) {request : CertificateImportRequest}
    {checked : Checked} (h : Opened g x .initial w j) (ok : Admissible g x request j checked) :
    Prog.Holds (stageImport x request checked)
      (fun _ t => ∃ k c v, Proved g x none .staged k c t v ∧ v.start = j.start)
      (fun _ => Ready g j.start) (Ready g j.start) w := by
  refine Prog.holds_bind_of (h.issue ok) fun _ t ht => ?_
  rw [show j.start = Journal.start { j with phase := .staging, issued := some checked.issued } from rfl]
  refine Prog.holds_bind_of (copyStage_keeps x ht) fun _ t ⟨k, ht⟩ => ?_
  refine Prog.holds_bind_of ((reads_status x .stage).keeps (fun s t q h => Copied.quiet h q)
    (fun t h => h.ready) ht) fun stage t ⟨ht, found, safe⟩ => ?_
  have id : stage.fileId = ⟨g.dev, k⟩ := by
    rw [Stat.fileId_of_safe safe, World.view_disk, ht.inv.dev]
    rw [Option.some.inj ((Disk.visible_of_stat found).1.symm.trans ht.seen)]
  refine Prog.holds_bind_of (ht.numbered id) fun _ t ⟨v, ht, unimported, issued, start⟩ => ?_
  rw [← start]
  have issued : v.issued = some checked.issued := issued
  -- the copy is the canonical store's state, then keytool imports into it
  have quiet (s t : World) (q : Quiet s t)
      (h : Staged g x k s v ∧ ¬ ImportedIn s.trace v.transaction) :
      Staged g x k t v ∧ ¬ ImportedIn t.trace v.transaction :=
    ⟨h.1.steady q.toSteady, fun no => h.2 ((q.toSteady.importedIn _).mp no)⟩
  have stop (t : World) (h : Staged g x k t v ∧ ¬ ImportedIn t.trace v.transaction) :
      Ready g v.start t := h.1.ready
  refine Prog.holds_bind_of ((reads_collect x .stage).keeps quiet stop ⟨ht, unimported⟩)
    fun copied t ⟨ht, _⟩ => ?_
  refine Prog.holds_bind_of ((reads_lift _).keeps quiet stop ht) fun _ t ⟨ht, _⟩ => ?_
  refine Prog.holds_bind_of ((reads_demand _ _).keeps quiet stop ht) fun _ t ⟨ht, _⟩ => ?_
  refine Prog.holds_bind_of (importcert_keeps _ ht.1 ht.2) fun _ t ht => ?_
  have quiet (s t : World) (q : Quiet s t) (h : Staged g x k s v) : Staged g x k t v :=
    h.steady q.toSteady
  refine Prog.holds_bind_of ((reads_status x .stage).keeps quiet (fun t h => h.ready) ht)
    fun after t ⟨ht, _⟩ => ?_
  refine Prog.holds_bind_of ((reads_demand _ _).keeps quiet (fun t h => h.ready) ht)
    fun _ t ⟨ht, _⟩ => ?_
  refine Prog.holds_bind_of ((reads_collect x .stage).keeps quiet (fun t h => h.ready) ht)
    fun state t ⟨ht, i, seen, read⟩ => ?_
  obtain rfl : k = i := Option.some.inj (ht.stage.symm.trans seen)
  rw [host, World.view_disk] at read
  generalize content : (t.disk.files k).content = c at read
  have quiet (s t : World) (q : Quiet s t)
      (h : Staged g x k s v ∧ (s.disk.files k).content = c) :
      Staged g x k t v ∧ (t.disk.files k).content = c :=
    ⟨h.1.steady q.toSteady, by rw [q.disk]; exact h.2⟩
  refine Prog.holds_bind_of ((reads_clock x).keeps quiet (fun t h => h.1.ready) ⟨ht, content⟩)
    fun now t ⟨ht, _⟩ => ?_
  refine Prog.holds_bind_of ((reads_lift _).keeps quiet (fun t h => h.1.ready) ht)
    fun inspection t ⟨ht, proved⟩ => ?_
  rw [host] at proved
  have named := issued_of_verified ok proved
  rw [Prog.holds_bind]
  change Prog.Holds _ _ _ _ (t.log (.stageVerified x.policy request now))
  have verified : Verified g x request k c (t.log (.stageVerified x.policy request now)) v := by
    refine ⟨ht.1.steady (steady_log rfl), ht.2, ⟨_, List.mem_cons_self, now, state,
      inspection, rfl, ht.1.stage, ht.2, ?_, read, proved, ?_⟩, ⟨_, issued, state, read, named⟩⟩
    · change t.process.journal.map Journal.transaction = some v.transaction
      rw [ht.1.memory]
      rfl
    · rw [named, issued]
      rfl
  have quiet (s t : World) (q : Quiet s t) (h : Verified g x request k c s v) :
      Verified g x request k c t v := h.steady q.toSteady
  refine Prog.holds_bind_of ((reads_status x .stage).keeps quiet (fun t h => h.ready) verified)
    fun validated t ⟨ht, _⟩ => ?_
  refine Prog.holds_bind_of (syncFile_keeps x (L := fun t => Proved g x none .staged k c t v) quiet
    (fun t h => h.ready) (fun t h => h.ready) ht fun t i ht seen => ?_) fun _ t ht => ?_
  · obtain rfl : k = i := Option.some.inj (ht.stage.symm.trans seen)
    exact ht.synced ok.policy
  refine Prog.holds_bind_of (ht.advance (f := fun j => j) rfl (v.below_rephase _) (by decide)
    (by decide) ht.progress rfl rfl (ht.toHeld.rephased ht.unverified ?_ (fun no => nomatch no)
      (fun no => nomatch no) fun old => ?_)) fun _ t ht => ⟨k, c, _, ht, rfl⟩
  · rw [ht.progress]
    exact List.mem_singleton.mpr rfl
  · exact old.rephase ht.active ht.unverified (by decide) fun no => absurd no (by decide)

/-! ## The old store gets its second name -/

/-- The transaction, with a change of its names that is not synced yet. -/
structure Unsettled (g : Setting) (x : Session) (s r : Option Nat) (p : Progress) (w : World)
    (j : Journal) : Prop extends Mine g w j where
  stage : w.disk.dir.visible .stage = s
  rollback : w.disk.dir.visible .rollback = r
  digest : j.policyDigest = x.policy.digest
  progress : j.progress = p
  journal : ∃ i, w.disk.dir.visible .journal = some i ∧ Sealed g w.trace i (.journal j)
  temporary : w.disk.dir.visible .journalNew = none

theorem Unsettled.steady {s r : Option Nat} {p : Progress} (h : Unsettled g x s r p w j)
    (k : Steady w t) : Unsettled g x s r p t j where
  toMine := h.toMine.steady k
  stage := by rw [k.disk]; exact h.stage
  rollback := by rw [k.disk]; exact h.rollback
  digest := h.digest
  progress := h.progress
  journal := by
    obtain ⟨i, seen, sealed⟩ := h.journal
    exact ⟨i, by rw [k.disk]; exact seen, k.sealed.mpr sealed⟩
  temporary := by rw [k.disk]; exact h.temporary

theorem Unsettled.settled {s r : Option Nat} {p : Progress} (h : Unsettled g x s r p w j) :
    At g x s r p w.settled j := by
  have held := h.toHeld.settled
  obtain ⟨i, seen, sealed⟩ := h.journal
  exact ⟨⟨h.toMine.of_held held (fun a ha => by simpa using wrote_cons.mp ha) rfl rfl, held,
    fun ns image => (w.disk.dir.image_sync ns).mp image,
    ⟨i, seen, sealed.mono (List.suffix_cons _ _)⟩, h.temporary⟩, h.stage, h.rollback, h.digest,
    h.progress⟩

/-- Every image has the names the transaction sees. -/
theorem At.image {s r : Option Nat} {p : Progress} (h : At g x s r p w j) {ns : Names Name}
    (image : w.disk.dir.Image ns) : ns = w.disk.dir.visible := h.durable.only ns image

theorem At.linked {s : Option Nat} {i : Nat} (h : At g x s none .staged w j)
    (seen : w.disk.dir.visible .canonical = some i) :
    Unsettled g x s (some j.oldInode.ino) .staged (w.linked i) j := by
  obtain rfl : i = j.oldInode.ino := Option.some.inj (seen.symm.trans (h.canonical rfl))
  obtain ⟨l, here, sealed⟩ := h.durable.journal
  have suffix : w.trace <:+ (w.linked j.oldInode.ino).trace := List.suffix_cons _ _
  have dir : (w.linked j.oldInode.ino).disk.dir = w.disk.dir.push (.bind .rollback j.oldInode.ino)
      (Dir.bind_below (w.disk.dir.visible_lt seen)) := w.disk.dir.link_of_visible seen
  have visible : (w.linked j.oldInode.ino).disk.dir.visible =
      Function.update w.disk.dir.visible .rollback (some j.oldInode.ino) := by
    rw [dir, Dir.visible_push]
    rfl
  have images {ns : Names Name} (image : (w.linked j.oldInode.ino).disk.dir.Image ns) :
      ns = w.disk.dir.visible ∨
        Function.update w.disk.dir.visible .rollback (some j.oldInode.ino) = ns := by
    rw [dir] at image
    rcases (w.disk.dir.image_push _ _ ns).mp image with old | ⟨earlier, old, rfl⟩
    · exact Or.inl (h.image old)
    · rw [h.image old]
      exact Or.inr rfl
  have inv : Inv g (w.linked j.oldInode.ino) := by
    have touched := (h.inv.plain (e := .linked .rollback j.oldInode.ino) rfl).touch j.oldInode.ino
    refine touched.link seen (fun ns image => ?_) fun ns image k a hk ha => ?_
    · rw [show ns = w.disk.dir.visible from h.image image]
      exact ⟨seen, l, here⟩
    · rw [show ns = w.disk.dir.visible from h.image image, here] at hk
      cases hk
      rw [touched.unique_journal (sealed.mono suffix) ha]
      exact ⟨rfl, h.progress⟩
  have fits := h.fits _ w.disk.dir.image_visible
  have held : Held g (w.linked j.oldInode.ino) j := by
    refine h.toHeld.move inv suffix rfl (fun a ha => ?_) (fun ns image => ?_) (fun ns image => ?_) ?_ ?_
      (fun old _ => ?_) fun free old => ⟨free, Or.inr old⟩
    · have ha : a ∈ recentWrites (⟨.linked .rollback j.oldInode.ino, w.disk, w.service, w.process⟩ ::
        w.trace) := ha
      exact recentWrites_cons (by rintro _ ⟨⟩) ha
    · rcases images image with rfl | rfl
      · exact fits
      · exact fits.link seen
    · rcases images image with rfl | rfl
      · exact ⟨_, w.disk.dir.image_visible, rfl⟩
      · exact ⟨_, w.disk.dir.image_visible, by simp⟩
    · rw [visible]
      simp
    · rw [visible]
      simp
    · rw [visible]
      exact old.link (by rw [h.progress]; decide)
  refine ⟨h.toMine.of_held held (fun a ha => by simpa using wrote_cons.mp ha) rfl
    (by rw [visible]; simp), ?_, ?_, h.digest,
    h.progress, ⟨l, ?_, sealed.mono suffix⟩, ?_⟩
  all_goals rw [visible]
  · simpa using h.stage
  · simp
  · simpa using here
  · simpa using h.durable.temporary

theorem Proved.fsynced {r : Option Nat} {p : Progress} {n : Name} {i : Nat}
    (h : Proved g x r p k c w j) (below : i < w.disk.dir.next) :
    Proved g x r p k c (w.fsynced n i) j :=
  ⟨h.toAt.fsynced below, h.number, h.sealed.mono (List.suffix_cons _ _),
    h.proved.mono (List.suffix_cons _ _), h.reads⟩

/-- What the trace supports of a journal it supports of a later one of the same
transaction, with the same identity and stage. -/
theorem Supported.further {tr : List Entry} (h : Supported g tr j) (start : j.SameStart v)
    (issued : v.issued = j.issued) (stage : v.stageInode = j.stageInode)
    (progress : v.progress ∈ allowedProgress v.phase) (unverified : v.phase ≠ .liveVerified)
    (committable : v.commitPossible = true → ∃ i c id, v.stageInode = some ⟨g.dev, i⟩ ∧
      Sealed g tr i c ∧ StageProved g tr v i c ∧ v.issued = some id ∧ g.host.Reads c id) :
    Supported g tr v where
  proper := by
    have proper := h.proper
    refine ⟨start.version.symm.trans proper.version, ?_, ?_, ?_, ?_, progress,
      fun live => absurd live unverified⟩
    · rw [← start.old]
      exact proper.oldBounded
    · rw [← start.oldInode]
      exact proper.oldDev
    · rw [issued, ← start.old]
      exact proper.issued
    · rw [stage, ← start.oldInode]
      exact proper.stage
  old := by
    rw [← start.old, ← start.oldInode]
    exact h.old
  committable := committable
  live no := absurd no unverified

theorem Journal.fields_of_staged (h : j.progress = .staged) :
    j.issued.isSome = true ∧ j.stageInode.isSome = true ∧ j.rollbackExpected = false ∧
      j.commitPossible = false :=
  ⟨congrArg Progress.issued h, congrArg Progress.stage h, congrArg Progress.rollback h,
    congrArg Progress.commit h⟩

theorem Journal.fields_of_rolledBack (h : j.progress = .rolledBack) :
    j.issued.isSome = true ∧ j.stageInode.isSome = true ∧ j.rollbackExpected = true ∧
      j.commitPossible = false :=
  ⟨congrArg Progress.issued h, congrArg Progress.stage h, congrArg Progress.rollback h,
    congrArg Progress.commit h⟩

/-- The names of a transaction with a stage and a rollback, before its commit. -/
theorem At.snug_uncommitted {o p : Progress} {q : Phase}
    (h : At g x (some k) (some j.oldInode.ino) o w j) (progress : v.progress = p)
    (named : v.phase = q) (phase : q ∉ .liveVerified :: .recoveredOld :: committedPhases)
    (late : p ≠ .initial ∧ p ≠ .staging) (old : v.oldInode = j.oldInode) :
    Snug g v w.disk.dir.visible := by
  refine Snug.of_uncommitted progress named phase (fun no => absurd no late.1) ?_ (fun _ => ?_) fun _ => ?_
  · rintro (no | no)
    · exact absurd no late.1
    · exact absurd no late.2
  · rw [h.stage]
    simp
  · rw [h.rollback, old]

theorem Proved.retain (h : Proved g x (some j.oldInode.ino) .staged k c w j) :
    Prog.Holds (phase x .rollbackDurable fun j => { j with rollbackExpected := true })
      (fun _ t => Proved g x (some j.oldInode.ino) .rolledBack k c t
        { j with phase := .rollbackDurable, rollbackExpected := true })
      (fun _ => Ready g j.start) (Ready g j.start) w := by
  obtain ⟨issued, staged, unlinked, uncommitted⟩ := Journal.fields_of_staged h.progress
  have below : j.Below { j with phase := .rollbackDurable, rollbackExpected := true } :=
    ⟨⟨rfl, rfl, rfl, rfl, rfl, rfl⟩, Or.inr rfl, Or.inr rfl, fun _ => rfl, id⟩
  have progress : Journal.progress { j with phase := .rollbackDurable, rollbackExpected := true } =
      .rolledBack := by
    simp [Journal.progress, Progress.rolledBack, issued, staged, uncommitted]
  refine h.advance rfl below (by decide) (by decide) progress rfl rfl ?_
  refine h.toMine.writable h.journals (h.ok.supported.further below.start rfl rfl ?_ (fun no => by cases no) ?_)
    below (fun ns image => (h.fits ns image).congr rfl rfl rfl fun live => absurd live h.unverified)
    fun _ => h.toAt.snug_uncommitted (q := .rollbackDurable) progress rfl (by decide) (by decide) rfl
  · rw [progress]
    exact List.mem_singleton.mpr rfl
  · intro possible
    rw [show j.commitPossible = true from possible] at uncommitted
    cases uncommitted

theorem retainRollback_keeps (checked : Checked) (h : Proved g x none .staged k c w j) :
    Prog.Holds (retainRollback x checked)
      (fun _ t => ∃ v, Proved g x (some v.oldInode.ino) .rolledBack k c t v ∧
        v.start = j.start) (fun _ => Ready g j.start) (Ready g j.start) w := by
  have quiet (s t : World) (q : Quiet s t) (h : Proved g x none .staged k c s j) :
      Proved g x none .staged k c t j := h.steady q.toSteady
  have stop (t : World) (h : Proved g x none .staged k c t j) : Ready g j.start t := h.ready
  refine Prog.holds_bind_of ((reads_stopped x).keeps quiet stop h) fun _ t ⟨ht, _⟩ => ?_
  refine Prog.holds_bind_of ((reads_same x .canonical _).keeps quiet stop ht) fun _ t ⟨ht, _⟩ => ?_
  refine Prog.holds_bind_of ((reads_collect x .canonical).keeps quiet stop ht) fun _ t ⟨ht, _⟩ => ?_
  refine Prog.holds_bind_of ((reads_lift _).keeps quiet stop ht) fun _ t ⟨ht, _⟩ => ?_
  refine Prog.holds_bind_of ((reads_demand _ _).keeps quiet stop ht) fun _ t ⟨ht, _⟩ => ?_
  refine Prog.holds_bind_of ((reads_same x .canonical _).keeps quiet stop ht) fun _ t ⟨ht, _⟩ => ?_
  refine Prog.holds_bind_of (syncFile_keeps x (L := fun t => Proved g x none .staged k c t j) quiet
    stop stop ht fun t i ht seen => ht.fsynced (t.disk.dir.visible_lt seen)) fun _ t ht => ?_
  -- the link, which becomes durable before the journal relies on it
  have quiet' (s t : World) (q : Quiet s t)
      (h : Unsettled g x (some k) (some j.oldInode.ino) .staged s j ∧ Sealed g s.trace k c ∧
        StageProved g s.trace j k c) :
      Unsettled g x (some k) (some j.oldInode.ino) .staged t j ∧ Sealed g t.trace k c ∧
        StageProved g t.trace j k c :=
    ⟨h.1.steady q.toSteady, h.2.1.mono q.toSteady.suffix, h.2.2.mono q.toSteady.suffix⟩
  refine Prog.holds_bind_of (linkRollback_keeps x
    (L := fun t => Unsettled g x (some k) (some j.oldInode.ino) .staged t j ∧ Sealed g t.trace k c ∧
      StageProved g t.trace j k c) quiet stop (fun t h => h.1.ready) ht
    fun t i ht seen _ => ⟨ht.toAt.linked seen, ht.sealed.mono (List.suffix_cons _ _),
      ht.proved.mono (List.suffix_cons _ _)⟩) fun _ t linked => ?_
  refine Prog.holds_bind_of ((reads_status x .rollback).keeps quiet' (fun t h => h.1.ready) linked)
    fun _ t ⟨linked, _⟩ => ?_
  refine Prog.holds_bind_of ((reads_demand _ _).keeps quiet' (fun t h => h.1.ready) linked)
    fun _ t ⟨linked, _⟩ => ?_
  refine Prog.holds_bind_of (syncDirectory_keeps x
    (L := fun t => Proved g x (some j.oldInode.ino) .staged k c t j) quiet' (fun t h => h.1.ready)
    (fun t h => h.ready) linked fun t h => ⟨h.1.settled, ht.number,
      h.2.1.mono (List.suffix_cons _ _), h.2.2.mono (List.suffix_cons _ _), ht.reads⟩)
    fun _ t ht => ?_
  exact Prog.holds_bind_of ht.retain fun _ t ht =>
    ⟨{ j with phase := .rollbackDurable, rollbackExpected := true }, ht, rfl⟩

/-! ## The stage takes the canonical name -/

/-- The stage of this transaction is the canonical store, with its proved
content; the old one is the rollback. -/
structure Installed (g : Setting) (x : Session) (k : Nat) (c : Content) (w : World) (j : Journal) :
    Prop extends At g x none (some j.oldInode.ino) .committable w j where
  canonical : w.disk.dir.visible .canonical = some k
  number : j.stageInode = some ⟨g.dev, k⟩
  sealed : Sealed g w.trace k c
  reads : ∃ id, j.issued = some id ∧ g.host.Reads c id

theorem Installed.steady (h : Installed g x k c w j) (s : Steady w t) : Installed g x k c t j :=
  ⟨h.toAt.steady s, by rw [s.disk]; exact h.canonical, h.number, h.sealed.mono s.suffix, h.reads⟩

theorem Installed.rephase {ph : Phase} (h : Installed g x k c w j) (unverified : ph ≠ .liveVerified)
    (active : ph ≠ .recoveredOld) (allowed : Progress.committable ∈ allowedProgress ph) :
    Prog.Holds (phase x ph) (fun _ t => Installed g x k c t { j with phase := ph })
      (fun _ => Ready g j.start) (Ready g j.start) w := by
  refine (h.toAt.rephase unverified active allowed fun _ => ⟨k, h.number, h.canonical⟩).mono
    (fun _ t ⟨at_, scribed⟩ => ?_) (fun _ _ e => e) fun _ e => e
  refine ⟨at_, ?_, h.number, h.sealed.mono scribed.suffix, h.reads⟩
  rw [scribed.names .canonical (by decide) (by decide)]
  exact h.canonical

theorem Installed.content (h : Installed g x k c w j) : (w.disk.files k).content = c :=
  (h.inv.synced k c h.sealed).2.1

/-- From here on the stage may be the canonical store. -/
theorem Proved.permit (h : Proved g x (some j.oldInode.ino) .rolledBack k c w j) :
    Prog.Holds (phase x .commitPossible fun j => { j with commitPossible := true })
      (fun _ t => Proved g x (some j.oldInode.ino) .committable k c t
        { j with phase := .commitPossible, commitPossible := true })
      (fun _ => Ready g j.start) (Ready g j.start) w := by
  obtain ⟨issued, staged, linked, uncommitted⟩ := Journal.fields_of_rolledBack h.progress
  have below : j.Below { j with phase := .commitPossible, commitPossible := true } :=
    ⟨⟨rfl, rfl, rfl, rfl, rfl, rfl⟩, Or.inr rfl, Or.inr rfl, id, fun _ => rfl⟩
  have progress : Journal.progress { j with phase := .commitPossible, commitPossible := true } =
      .committable := by
    simp [Journal.progress, Progress.committable, issued, staged, linked]
  refine h.advance rfl below (by decide) (by decide) progress rfl rfl ?_
  refine h.toMine.writable h.journals (h.ok.supported.further below.start rfl rfl ?_ (fun no => by cases no) ?_)
    below (fun ns image => ?_) fun _ => h.toAt.snug_uncommitted (q := .commitPossible) progress rfl (by decide) (by decide) rfl
  · rw [progress]
    exact List.mem_singleton.mpr rfl
  · intro _
    obtain ⟨id, named, reads⟩ := h.reads
    exact ⟨k, c, id, h.number, h.sealed, h.proved.congr rfl rfl rfl, named, reads⟩
  · have old := h.fits ns image
    refine ⟨Or.inl ?_, old.rollback, old.stage⟩
    rw [h.image image]
    exact h.toAt.canonical rfl

/-- While the stage has its name, the canonical store is the old one. -/
theorem At.canonical_of_stage {r : Option Nat} {p : Progress} (h : At g x (some k) r p w j) :
    w.disk.dir.visible .canonical = some j.oldInode.ino := by
  rcases (h.fits _ w.disk.dir.image_visible).canonical with old | ⟨_, _, none, _⟩
  · exact old
  · rw [h.stage] at none
    cases none

theorem JournalOk.reads_old (h : JournalOk g w.trace j) (inv : Inv g w) :
    g.host.Reads (w.disk.files j.oldInode.ino).content j.old := by
  obtain ⟨c, genuine, reads⟩ := h.supported.old
  rw [(inv.synced _ c genuine.1).2.1]
  exact reads

theorem Proved.committed (h : Proved g x (some j.oldInode.ino) .committable k c w j)
    (owner : (w.disk.files k).uid = abc ∧ (w.disk.files k).gid = abc)
    (small : (w.disk.files k).size ≤ maxStore) :
    Unsettled g x none (some j.oldInode.ino) .committable (w.renamed .stage .canonical k) j ∧
      (w.renamed .stage .canonical k).disk.dir.visible .canonical = some k := by
  obtain ⟨l, here, sealed⟩ := h.durable.journal
  obtain ⟨_, _, _, possible⟩ := Journal.fields_of_committable h.progress
  obtain ⟨id, issued, reads⟩ := h.reads
  have suffix : w.trace <:+ (w.renamed .stage .canonical k).trace := List.suffix_cons _ _
  have content := (h.inv.synced k c h.sealed).2.1
  have old := h.toAt.canonical_of_stage
  have logged : Inv g (w.log (.renamed .stage .canonical k)) := by
    refine h.inv.log (e := .renamed .stage .canonical k)
      ⟨rfl, j, id, c, h.memory, h.ok.wrote, issued, h.number, content, h.proved, reads, old,
        h.ok.reads_old h.inv⟩ (fun _ _ no => nomatch no) (fun _ no => nomatch no)
      (fun _ _ no => nomatch no) fun ⟨_, no⟩ => nomatch no
  have genuine : Genuine g (w.renamed .stage .canonical k).trace k c :=
    ⟨h.sealed.mono suffix, Or.inr ⟨[], _, w.trace, j, rfl, rfl, h.ok.wrote, h.number, h.proved⟩⟩
  have distinct : w.disk.dir.visible .canonical ≠ some k := by
    rw [old]
    intro eq
    exact ((h.fits _ w.disk.dir.image_visible).stage k h.stage).1 (Option.some.inj eq).symm
  have dir : (w.renamed .stage .canonical k).disk.dir = w.disk.dir.push (.move .stage .canonical k)
      (Dir.move_below (w.disk.dir.visible_lt h.stage)) :=
    w.disk.dir.rename_of_visible h.stage distinct
  have visible : (w.renamed .stage .canonical k).disk.dir.visible =
      (Change.move .stage .canonical k).apply w.disk.dir.visible := by rw [dir, Dir.visible_push]
  have images {ns : Names Name} (image : (w.renamed .stage .canonical k).disk.dir.Image ns) :
      ns = w.disk.dir.visible ∨ (Change.move .stage .canonical k).apply w.disk.dir.visible = ns := by
    rw [dir] at image
    rcases (w.disk.dir.image_push _ _ ns).mp image with from_ | ⟨earlier, from_, rfl⟩
    · exact Or.inl (h.image from_)
    · rw [h.image from_]
      exact Or.inr rfl
  have inv : Inv g (w.renamed .stage .canonical k) := by
    refine (logged.touch k).commit h.stage h.durable.only here (sealed.mono suffix) h.progress h.active
      h.number h.rollback ?_ ?_ genuine
    · simpa [World.log, Disk.touch, Disk.modify] using owner
    · simpa [World.log, Disk.touch, Disk.modify] using small
  have fits := h.fits _ w.disk.dir.image_visible
  have held : Held g (w.renamed .stage .canonical k) j := by
    refine h.toHeld.move inv suffix rfl (fun a ha => ?_) (fun ns image => ?_) (fun ns image => ?_) ?_ ?_
      (fun before _ => ?_) fun free old => ⟨free, Or.inr old⟩
    · have ha : a ∈ recentWrites (⟨.renamed .stage .canonical k, w.disk, w.service, w.process⟩ ::
        w.trace) := ha
      exact recentWrites_cons (by rintro _ ⟨⟩) ha
    · rcases images image with rfl | rfl
      · exact fits
      · exact fits.commit possible h.number h.rollback
    · rcases images image with rfl | rfl
      · exact ⟨_, w.disk.dir.image_visible, rfl⟩
      · exact ⟨_, w.disk.dir.image_visible, by simp [Change.apply]⟩
    · rw [visible]
      simp [Change.apply]
    · rw [visible]
      simp [Change.apply]
    · rw [visible]
      exact before.commit h.active h.progress h.number (fits.stage k h.stage).1
  refine ⟨⟨h.toMine.of_held held (fun a ha => by simpa using wrote_cons.mp ha) rfl
    (by rw [visible]; simp [Change.apply]), ?_, ?_, h.digest,
    h.progress, ⟨l, ?_, sealed.mono suffix⟩, ?_⟩, ?_⟩
  all_goals rw [visible]
  · simp [Change.apply]
  · simpa [Change.apply] using h.rollback
  · simpa [Change.apply] using here
  · simpa [Change.apply] using h.durable.temporary
  · simp [Change.apply]

theorem commitStage_keeps (request : CertificateImportRequest) (rollback stage validated : Stat)
    (h : Proved g x (some j.oldInode.ino) .rolledBack k c w j) :
    Prog.Holds (commitStage x request rollback stage validated)
      (fun _ t => ∃ v, Installed g x k c t v ∧ v.start = j.start)
      (fun _ => Ready g j.start) (Ready g j.start) w := by
  refine Prog.holds_bind_of h.permit fun _ t ht => ?_
  generalize next : { j with phase := .commitPossible, commitPossible := true } = v at ht
  have old : v.oldInode = j.oldInode := by rw [← next]
  have start : j.start = v.start := by rw [← next]; rfl
  rw [← old] at ht
  rw [start]
  have quiet (s t : World) (q : Quiet s t)
      (h : Proved g x (some v.oldInode.ino) .committable k c s v) :
      Proved g x (some v.oldInode.ino) .committable k c t v := h.steady q.toSteady
  have stop (t : World) (h : Proved g x (some v.oldInode.ino) .committable k c t v) :
      Ready g v.start t := h.ready
  refine Prog.holds_bind_of ((reads_stopped x).keeps quiet stop ht) fun _ t ⟨ht, _⟩ => ?_
  refine Prog.holds_bind_of ((reads_same x .canonical _).keeps quiet stop ht) fun _ t ⟨ht, _⟩ => ?_
  refine Prog.holds_bind_of ((reads_same x .stage _).keeps quiet stop ht) fun _ t ⟨ht, _⟩ => ?_
  refine Prog.holds_bind_of (replace_keeps x
    (L := fun t => (Unsettled g x none (some v.oldInode.ino) .committable t v ∧
      t.disk.dir.visible .canonical = some k) ∧ Sealed g t.trace k c) quiet stop
    (fun t h => h.1.1.ready) ht fun t i s ht seen found safe => ?_) fun _ t committed => ?_
  · obtain rfl : k = i := Option.some.inj (ht.stage.symm.trans seen)
    obtain ⟨seen', eq⟩ := Disk.visible_of_stat found
    have owner := Stat.owner_of_safe safe
    have small := Stat.size_of_safe safe
    rw [eq, ← Option.some.inj (ht.stage.symm.trans seen')] at owner small
    exact ⟨ht.committed owner small, ht.sealed.mono (List.suffix_cons _ _)⟩
  refine Prog.holds_bind_of (syncDirectory_keeps x
    (K := fun t => (Unsettled g x none (some v.oldInode.ino) .committable t v ∧
      t.disk.dir.visible .canonical = some k) ∧ Sealed g t.trace k c)
    (L := fun t => Installed g x k c t v)
    (fun s t q h => ⟨⟨h.1.1.steady q.toSteady, by rw [q.disk]; exact h.1.2⟩,
      h.2.mono q.toSteady.suffix⟩) (fun t h => h.1.1.ready) (fun t h => h.ready) committed
    fun t h => ⟨h.1.1.settled, h.1.2, ht.number, h.2.mono (List.suffix_cons _ _), ht.reads⟩)
    fun _ t ht => ?_
  refine Prog.holds_bind_of (ht.rephase (by decide) (by decide) (by decide)) fun _ t ht => ?_
  have quiet (s t : World) (q : Quiet s t) (h : Installed g x k c s { v with phase := .committed }) :
      Installed g x k c t { v with phase := .committed } := h.steady q.toSteady
  have stop (t : World) (h : Installed g x k c t { v with phase := .committed }) :
      Ready g v.start t := h.ready
  refine Prog.holds_bind_of ((reads_status x .canonical).keeps quiet stop ht) fun _ t ⟨ht, _⟩ => ?_
  refine Prog.holds_bind_of ((reads_demand _ _).keeps quiet stop ht) fun _ t ⟨ht, _⟩ => ?_
  refine Prog.holds_bind_of ((reads_collect x .canonical).keeps quiet stop ht) fun _ t ⟨ht, _⟩ => ?_
  refine Prog.holds_bind_of ((reads_clock x).keeps quiet stop ht) fun _ t ⟨ht, _⟩ => ?_
  refine Prog.holds_bind_of ((reads_lift _).keeps quiet stop ht) fun _ t ⟨ht, _⟩ => ?_
  exact (ht.rephase (by decide) (by decide) (by decide)).mono (fun _ t ht => ⟨_, ht, rfl⟩) (fun _ _ e => e)
    fun _ e => e

end

end CertRenewer
