import CertRenewer.Locking

/-!
# An installation keeps the invariant

The transaction's own steps, from its first journal to the pending one. At
every point of it the journal in memory may be written, so that the handler of
a failure can record it.
-/

namespace CertRenewer

open Crash

/-! ## Statuses -/

section
variable {d : Disk} {n : Name} {s : Stat}

theorem Disk.visible_of_stat (h : d.stat n = some s) :
    d.dir.visible n = some s.ino ∧ s = d.statOf s.ino := by
  obtain ⟨i, seen, rfl⟩ := Option.map_eq_some_iff.mp h
  exact ⟨seen, rfl⟩

theorem Stat.dev_of_safe {dev : Nat} (h : s.safe n dev = true) : s.dev = dev := by
  simp only [Stat.safe, Bool.and_eq_true, beq_iff_eq] at h
  exact h.1.1.2

theorem Stat.owner_of_safe {dev : Nat} (h : s.safe n dev = true) : s.uid = n.owner ∧ s.gid = n.owner := by
  simp only [Stat.safe, Bool.and_eq_true, beq_iff_eq] at h
  exact ⟨h.1.1.1.1.2, h.1.1.1.2⟩

/-- The identity the journal records of a safe file. -/
theorem Stat.size_of_safe {dev : Nat} (h : s.safe n dev = true) : s.size ≤ maxStore := by
  simp only [Stat.safe, Bool.and_eq_true, decide_eq_true_eq] at h
  exact h.1.2

theorem Stat.fileId_of_safe {dev : Nat} (h : s.safe n dev = true) : s.fileId = ⟨dev, s.ino⟩ := by
  rw [Stat.fileId, Stat.dev_of_safe h]

end

section
variable {g : Setting} {w t : World} {j v : Journal}

/-- The transaction in memory is this process's own. -/
structure Mine (g : Setting) (w : World) (j : Journal) : Prop extends Held g w j where
  above : ∀ a, Wrote w.trace a → a.transaction = j.transaction → a.Below j
  locked : w.process.locked = true
  unverified : j.phase ≠ .liveVerified
  active : j.phase ≠ .recoveredOld
  written : w.disk.dir.visible .journal ≠ none

/-- And its journal is on disk, with nothing pending. -/
structure Owned (g : Setting) (w : World) (j : Journal) : Prop extends Mine g w j where
  durable : Durable g w j

/-- Where a transaction that began with `s` can stop. -/
structure Stops (g : Setting) (s : Journal) (w : World) (j : Journal) : Prop extends Held g w j where
  unverified : j.phase ≠ .liveVerified
  active : j.phase ≠ .recoveredOld
  start : j.start = s
  written : w.disk.dir.visible .journal ≠ none

def Ready (g : Setting) (s : Journal) (w : World) : Prop := ∃ j, Stops g s w j

theorem Mine.ready (h : Mine g w j) : Ready g j.start w :=
  ⟨j, h.toHeld, h.unverified, h.active, rfl, h.written⟩

theorem Mine.steady (h : Mine g w j) (s : Steady w t) : Mine g t j where
  toHeld := h.toHeld.steady s
  above a ha := h.above a (s.wrote.mp ha)
  locked := s.locked.trans h.locked
  unverified := h.unverified
  active := h.active
  written := by rw [s.disk]; exact h.written

theorem Durable.steady (h : Durable g w j) (s : Steady w t) : Durable g t j where
  toHeld := h.toHeld.steady s
  only := by rw [s.disk]; exact h.only
  journal := by
    obtain ⟨i, seen, sealed⟩ := h.journal
    exact ⟨i, by rw [s.disk]; exact seen, s.sealed.mpr sealed⟩
  temporary := by rw [s.disk]; exact h.temporary

theorem Owned.steady (h : Owned g w j) (s : Steady w t) : Owned g t j :=
  ⟨h.toMine.steady s, h.durable.steady s⟩

/-- What an owner may write next. -/
theorem Mine.writable (h : Mine g w j)
    (journals : ∀ ns, w.disk.dir.Image ns → ns .journal = w.disk.dir.visible .journal)
    (supported : Supported g w.trace v) (below : j.Below v)
    (fits : ∀ ns, w.disk.dir.Image ns → Fits g v ns)
    (snug : Snug g j w.disk.dir.visible → Snug g v w.disk.dir.visible) :
    Writable g (w.remember v) v := by
  refine h.toHeld.writable supported below fits
    (fun a ha eq => ((h.above a ha eq).trans below).agree) (fun _ ns image k a hk ha => ?_) snug
    (h.calm h.unverified)
  rw [journals ns image] at hk
  exact (h.disk k a hk ha).start.oldInode

theorem Owned.journals (h : Owned g w j) (ns : Names Name) (image : w.disk.dir.Image ns) :
    ns .journal = w.disk.dir.visible .journal := by rw [h.durable.only ns image]

theorem phase_owned (x : Session) {p : Phase} {f : Journal → Journal} (h : Mine g w j)
    (next : v = { f j with phase := p }) (below : j.Below v) (unverified : p ≠ .liveVerified)
    (active : p ≠ .recoveredOld) (write : Writable g (w.remember v) v) :
    Prog.Holds (phase x p f) (fun _ t => Owned g t v ∧ Scribed g (w.remember v) v t)
      (fun _ => Ready g j.start) (Ready g j.start) w := by
  have live : v.phase ≠ .liveVerified := by rw [next]; exact unverified
  have active : v.phase ≠ .recoveredOld := by rw [next]; exact active
  have stops (t : World) (ht : Partial g (w.remember v) v t) : Ready g j.start t := by
    refine ⟨v, ht.held, live, active, below.start.start_eq.symm, ?_⟩
    rcases ht.journal with same | there
    · rw [same]
      exact h.written
    · exact there
  refine (phase_keeps x h.memory next write).mono (fun _ t ⟨durable, scribed⟩ => ?_)
    (fun _ t ht => stops t ht) fun t ht => stops t ht
  refine ⟨⟨⟨durable.toHeld, fun a ha eq => ?_, ?_, live, active, durable.there⟩, durable⟩, scribed⟩
  · rcases scribed.wrote a ha with rfl | old
    · exact Journal.Below.refl a
    · exact (h.above a old (eq.trans below.start.transaction.symm)).trans below
  · rw [scribed.process]
    exact h.locked

/-! ## The beginning -/

/-- The transaction's stage and rollback are these files, and it got this far. -/
structure At (g : Setting) (x : Session) (s r : Option Nat) (p : Progress) (w : World) (j : Journal) :
    Prop extends Owned g w j where
  stage : w.disk.dir.visible .stage = s
  rollback : w.disk.dir.visible .rollback = r
  digest : j.policyDigest = x.policy.digest
  progress : j.progress = p

theorem At.steady {x : Session} {s r : Option Nat} {p : Progress} (h : At g x s r p w j)
    (k : Steady w t) : At g x s r p t j where
  toOwned := h.toOwned.steady k
  stage := by rw [k.disk]; exact h.stage
  rollback := by rw [k.disk]; exact h.rollback
  digest := h.digest
  progress := h.progress

/-- A new phase, with whatever it adds to the journal. -/
theorem At.advance {x : Session} {s r : Option Nat} {p q : Progress} {ph : Phase}
    {f : Journal → Journal} (h : At g x s r p w j) (next : v = { f j with phase := ph })
    (below : j.Below v) (unverified : ph ≠ .liveVerified) (active : ph ≠ .recoveredOld)
    (progress : v.progress = q) (write : Writable g (w.remember v) v) :
    Prog.Holds (phase x ph f) (fun _ t => At g x s r q t v ∧ Scribed g (w.remember v) v t)
      (fun _ => Ready g j.start) (Ready g j.start) w := by
  refine (phase_owned x h.toMine next below unverified active write).mono
    (fun _ t ⟨owned, scribed⟩ => ⟨⟨owned, ?_, ?_, ?_, progress⟩, scribed⟩) (fun _ _ e => e) fun _ e => e
  · rw [scribed.names .stage (by decide) (by decide)]
    exact h.stage
  · rw [scribed.names .rollback (by decide) (by decide)]
    exact h.rollback
  · rw [← below.start.policyDigest]
    exact h.digest

theorem Journal.below_rephase (j : Journal) (p : Phase) : j.Below { j with phase := p } :=
  ⟨⟨rfl, rfl, rfl, rfl, rfl, rfl⟩, Or.inr rfl, Or.inr rfl, id, id⟩

/-- A new phase, and nothing else. -/
theorem At.rephase {x : Session} {s r : Option Nat} {p : Progress} {ph : Phase}
    (h : At g x s r p w j) (unverified : ph ≠ .liveVerified) (active : ph ≠ .recoveredOld)
    (allowed : p ∈ allowedProgress ph)
    (committed : ph ∈ committedPhases →
      ∃ i, j.stageInode = some ⟨g.dev, i⟩ ∧ w.disk.dir.visible .canonical = some i) :
    Prog.Holds (phase x ph) (fun _ t => At g x s r p t { j with phase := ph } ∧
      Scribed g (w.remember { j with phase := ph }) { j with phase := ph } t)
      (fun _ => Ready g j.start) (Ready g j.start) w :=
  h.advance (f := id) rfl (j.below_rephase ph) unverified active h.progress
    (h.toHeld.rephased h.unverified (by rw [h.progress]; exact allowed)
      (fun no => absurd no unverified) (fun no => absurd no unverified) fun old =>
        old.rephase h.active h.unverified active fun which => which.elim committed fun no =>
          absurd no unverified)

/-- Nothing of the transaction is on disk but its journal. -/
structure Opened (g : Setting) (x : Session) (p : Progress) (w : World) (j : Journal) :
    Prop extends At g x none none p w j where
  unimported : ¬ ImportedIn w.trace j.transaction

theorem Opened.steady {x : Session} {p : Progress} (h : Opened g x p w j) (s : Steady w t) :
    Opened g x p t j :=
  ⟨h.toAt.steady s, fun no => h.unimported ((s.importedIn _).mp no)⟩

/-- The lock is held, a transaction number was drawn, and the disk is as it was
found. -/
structure Drawn (g : Setting) (d : Disk) (u : Nat) (w : World) : Prop extends Entered g w where
  disk : w.disk = d
  number : w.uuids = u + 1
  wrote : ∀ a, Wrote w.trace a → a.transaction < u
  imported : ∀ k, ImportedIn w.trace k → k < u

theorem Drawn.quiet {d : Disk} {u : Nat} (h : Drawn g d u w) (q : Quiet w t) : Drawn g d u t where
  toEntered := h.toEntered.quiet q
  disk := q.disk.trans h.disk
  number := q.uuids.trans h.number
  wrote a ha := h.wrote a (q.toSteady.wrote.mp ha)
  imported k hk := h.imported k ((q.toSteady.importedIn k).mp hk)

/-- The first value of a transaction, on a vacant disk. -/
theorem Drawn.writable {d : Disk} {u i : Nat} {c : Content} (h : Drawn g d u w)
    (vacant : Vacant d i c) (start : v = v.start) (version : v.version = 2)
    (transaction : v.transaction = u) (oldInode : v.oldInode = ⟨g.dev, i⟩)
    (bounded : v.old.bounded = true) (reads : g.host.Reads c v.old) :
    Writable g (w.remember v) v := by
  have unissued : v.issued = none := by rw [start]; rfl
  have unstaged : v.stageInode = none := by rw [start]; rfl
  have uncommitted : v.commitPossible = false := by rw [start]; rfl
  have quiescing : v.phase = .quiescing := by rw [start]; rfl
  have free : w.disk.dir.visible .journal = none := by rw [h.disk]; exact vacant.journal
  have seen : w.disk.dir.visible .canonical = some i := by rw [h.disk]; exact vacant.canonical
  have old : v.oldInode.ino = i := by rw [oldInode]
  obtain ⟨k, b, hk, genuine⟩ := (h.inv.images _ w.disk.dir.image_visible).canonical
  obtain rfl : i = k := Option.some.inj (seen.symm.trans hk)
  obtain rfl : b = c := by
    rw [← (h.inv.synced i b genuine.1).2.1, h.disk]
    exact vacant.content
  have proper : v.Proper g := by
    refine ⟨version, bounded, by rw [oldInode], ?_, ?_, ?_, ?_⟩
    · intro id hid
      rw [unissued] at hid
      cases hid
    · intro f hf
      rw [unstaged] at hf
      cases hf
    · rw [quiescing, start]
      exact List.mem_singleton.mpr rfl
    · intro live
      rw [quiescing] at live
      cases live
  refine ⟨h.inv.remember proper, rfl, ⟨proper, ⟨b, by rw [old]; exact genuine, reads⟩, ?_, ?_⟩,
    Or.inr ⟨start, b, by rw [old]; exact genuine.1, ?_⟩, ?_, ?_, ?_, ?_, ?_, ?_, h.lock, ?_, ?_,
    h.fresh⟩
  · intro possible
    rw [uncommitted] at possible
    cases possible
  · intro live
    rw [quiescing] at live
    cases live
  · rw [old]
    change Vacant w.disk i b
    rw [h.disk]
    exact vacant
  · intro ns image
    obtain ⟨canonical, stage, rollback⟩ := h.inv.idle free ns image
    refine ⟨Or.inl (by rw [canonical, seen, old]), Or.inl rollback, fun k hk => ?_⟩
    rw [stage] at hk
    cases hk
  · intro a ha eq
    have := h.wrote a ha
    omega
  · have := h.number
    change v.transaction < w.uuids
    omega
  · intro a ha
    have ha : a ∈ recentWrites w.trace := ha
    rw [h.recent] at ha
    cases ha
  · intro k a hk
    have hk : w.disk.dir.visible .journal = some k := hk
    rw [free] at hk
    cases hk
  · intro issued
    rw [unissued] at issued
    cases issued
  · intro _ _
    change Snug g v w.disk.dir.visible
    rw [h.disk]
    refine Snug.of_uncommitted (p := .initial) (by rw [start]; rfl) quiescing (by decide)
      (fun _ => vacant.stage) (fun _ => vacant.rollback) (fun no => ?_) fun no => ?_
    · exact absurd no (by decide)
    · exact absurd no (by decide)
  · intro k a hk
    have hk : w.disk.dir.visible .journal = some k := hk
    rw [free] at hk
    cases hk

/-- `v` is the first journal of a transaction that begins at `w`, over the
canonical store that is there. -/
structure First (g : Setting) (w : World) (v : Journal) : Prop where
  start : v = v.start
  transaction : v.transaction = w.uuids
  old : ∃ i, w.disk.dir.visible .canonical = some i ∧ v.oldInode = ⟨g.dev, i⟩ ∧
    g.host.Reads (w.disk.files i).content v.old

/-- Where the beginning of a transaction can stop: at the disk it found, or in
the write of its first journal. -/
structure Begins (g : Setting) (w t : World) : Prop where
  inv : Inv g t
  reached : t.disk = w.disk ∨ ∃ s v, s.disk = w.disk ∧
    (∀ n ∈ transactionNames, w.disk.dir.visible n = none) ∧ First g w v ∧ Partial g s v t

theorem begin_keeps (x : Session) (host : x.host = g.host) (expected : PublicKeystoreState)
    (h : Entered g w) :
    Prog.Holds (begin_ x expected) (fun _ t => ∃ j, Opened g x .initial t j ∧ First g w j)
      (fun _ => Begins g w) (Begins g w) w := by
  generalize number : w.uuids = u
  have stable (s t : World) (q : Quiet s t) (h : Entered g s ∧ s.disk = w.disk ∧ s.uuids = u) :
      Entered g t ∧ t.disk = w.disk ∧ t.uuids = u :=
    ⟨h.1.quiet q, q.disk.trans h.2.1, q.uuids.trans h.2.2⟩
  have stop (t : World) (h : Entered g t ∧ t.disk = w.disk ∧ t.uuids = u) : Begins g w t :=
    ⟨h.1.inv, Or.inl h.2.1⟩
  refine Prog.holds_bind_of ((reads_noTransaction x).keeps stable stop ⟨h, rfl, number⟩)
    fun _ t ⟨ht, free⟩ => ?_
  simp only [World.view_disk, ht.2.1] at free
  refine Prog.holds_bind_of ((reads_status x .canonical).keeps stable stop ht)
    fun identity t ⟨ht, found, safe⟩ => ?_
  simp only [World.view_disk, ht.2.1] at found safe
  refine Prog.holds_bind_of ((reads_collect x .canonical).keeps stable stop ht)
    fun before t ⟨ht, collected⟩ => ?_
  simp only [World.view_disk, ht.2.1] at collected
  refine Prog.holds_bind_of ((reads_same x .canonical identity).keeps stable stop ht)
    fun _ t ⟨ht, _⟩ => ?_
  refine Prog.holds_bind_of ((reads_lift _).keeps stable stop ht) fun _ t ⟨ht, _⟩ => ?_
  refine Prog.holds_bind_of ((reads_demand _ _).keeps stable stop ht) fun _ t ⟨ht, _⟩ => ?_
  refine Prog.holds_bind_of ((reads_demand _ _).keeps stable stop ht) fun _ t ⟨ht, _⟩ => ?_
  rw [Prog.holds_bind, Prog.holds_read, Prog.holds_bind, Prog.holds_update]
  have drawn : Drawn g w.disk u { t with uuids := t.uuids + 1 } := by
    rw [← ht.2.2]
    refine ⟨⟨{ ht.1.inv with wrote := fun a ha => ?_, imported := fun k hk => ?_ }, ht.1.locked,
      ht.1.journal, ht.1.recent, ht.1.lock, ht.1.fresh⟩, ht.2.1, rfl, ht.1.inv.wrote, ht.1.inv.imported⟩
    · exact Nat.lt_succ_of_lt (ht.1.inv.wrote a ha)
    · exact Nat.lt_succ_of_lt (ht.1.inv.imported k hk)
  rw [ht.2.2] at drawn ⊢
  have stable (s t : World) (q : Quiet s t) (h : Drawn g w.disk u s) : Drawn g w.disk u t := h.quiet q
  have stop (t : World) (h : Drawn g w.disk u t) : Begins g w t := ⟨h.inv, Or.inl h.disk⟩
  refine Prog.holds_bind_of ((reads_running x).keeps stable stop drawn) fun resume t ⟨ht, _⟩ => ?_
  refine Prog.holds_bind_of ((reads_lift _).keeps stable stop ht) fun old t ⟨ht, public_⟩ => ?_
  rw [Prog.holds_bind]
  obtain ⟨seen, _⟩ := Disk.visible_of_stat found
  obtain ⟨i, hi, read⟩ := collected
  obtain rfl : identity.ino = i := Option.some.inj (seen.symm.trans hi)
  rw [host] at read public_
  have dev : identity.fileId = ⟨g.dev, identity.ino⟩ := by
    rw [Stat.fileId_of_safe safe, ← ht.disk, ht.inv.dev]
  have reads : g.host.Reads (w.disk.files identity.ino).content old := ⟨before, read, public_⟩
  have write := ht.writable (v := ⟨2, x.policy.digest, u, .quiescing, resume, old, none,
      identity.fileId, none, false, false⟩) (c := (w.disk.files identity.ino).content)
    ⟨free.1, free.2.1, free.2.2.1, free.2.2.2, seen, rfl⟩ rfl rfl rfl dev
    (publicId_bounded public_) reads
  have vacant : ∀ n ∈ transactionNames, w.disk.dir.visible n = none := by
    simp [transactionNames, free]
  have first : First g w ⟨2, x.policy.digest, u, .quiescing, resume, old, none, identity.fileId, none,
      false, false⟩ := ⟨rfl, number.symm, identity.ino, seen, dev, reads⟩
  refine Prog.holds_bind_of ((phase_keeps x (p := .quiescing) (f := id) rfl rfl write).mono
    (fun _ t ht => ht) (fun _ s hs => ⟨hs.held.inv, Or.inr ⟨_, _, ?_, vacant, first, hs⟩⟩)
    fun s hs => ⟨hs.held.inv, Or.inr ⟨_, _, ?_, vacant, first, hs⟩⟩) fun _ t' ⟨durable, scribed⟩ => ?_
  · exact ht.disk
  · exact ht.disk
  refine ⟨⟨2, x.policy.digest, u, .quiescing, resume, old, none, identity.fileId, none, false, false⟩,
    ⟨⟨⟨⟨durable.toHeld, fun a ha eq => ?_, ?_, (fun no => nomatch no), (fun no => nomatch no),
      durable.there⟩, durable⟩, ?_, ?_, rfl, rfl⟩, ?_⟩, first⟩
  · rcases scribed.wrote a ha with rfl | old
    · exact Journal.Below.refl _
    · have := ht.wrote a old
      have eq : a.transaction = u := eq
      omega
  · rw [scribed.process]
    exact ht.locked
  · rw [scribed.names .stage (by decide) (by decide)]
    change t.disk.dir.visible .stage = none
    rw [ht.disk]
    exact free.2.2.1
  · rw [scribed.names .rollback (by decide) (by decide)]
    change t.disk.dir.visible .rollback = none
    rw [ht.disk]
    exact free.2.2.2
  · intro no
    have := ht.imported u (scribed.imported u no)
    omega

theorem quiesce_keeps (x : Session) (identity : Stat) (before : PublicKeystoreState)
    (h : Opened g x .initial w j) :
    Prog.Holds (quiesce x identity before)
      (fun _ t => Opened g x .initial t { j with phase := .quiesced }) (fun _ => Ready g j.start) (Ready g j.start) w := by
  have steady (s t : World) (k : Steady s t) (h : Opened g x .initial s j) :
      Opened g x .initial t j := h.steady k
  have quiet (s t : World) (q : Quiet s t) (h : Opened g x .initial s j) :
      Opened g x .initial t j := h.steady q.toSteady
  have stop (t : World) (h : Opened g x .initial t j) : Ready g j.start t := h.ready
  refine Prog.holds_bind_of (Steadies.keeps (steadies_process fun _ => ⟨rfl, rfl⟩) steady stop h)
    fun _ t ht => ?_
  refine Prog.holds_bind_of (Steadies.keeps (steadies_stop x) steady stop ht) fun _ t ht => ?_
  refine Prog.holds_bind_of ((reads_same x .canonical identity).keeps quiet stop ht)
    fun _ t ⟨ht, _⟩ => ?_
  refine Prog.holds_bind_of ((reads_collect x .canonical).keeps quiet stop ht)
    fun current t ⟨ht, _⟩ => ?_
  refine Prog.holds_bind_of ((reads_lift _).keeps quiet stop ht) fun _ t ⟨ht, _⟩ => ?_
  refine Prog.holds_bind_of ((reads_demand _ _).keeps quiet stop ht) fun _ t ⟨ht, _⟩ => ?_
  refine (ht.toAt.rephase (by decide) (by decide) (by decide) (fun no => absurd no (by decide))).mono (fun _ u ⟨at_, scribed⟩ => ⟨at_, fun no => ?_⟩)
    (fun _ _ e => e) fun _ e => e
  exact ht.unimported (scribed.imported _ no)

/-! ## The checks before staging -/

/-- What `checkImport` proved of the request. -/
structure Admissible (g : Setting) (x : Session) (request : CertificateImportRequest) (j : Journal)
    (c : Checked) : Prop where
  prepared : ∃ now, prepareCertificateImport g.host.lib request now = .ok c.plan
  policy : OwnPolicy x.policy request
  issued : c.issued = ⟨c.plan.issued.spkiSha256, c.plan.certificateChainDer.map g.host.lib.sha256⟩
  spki : c.issued.spki = j.old.spki

theorem reads_checkImport (x : Session) (host : x.host = g.host) (request : CertificateImportRequest)
    (expected : PublicKeystoreState) :
    Reads (checkImport x request expected) fun c v =>
      ∃ j, v.process.journal = some j ∧ Admissible g x request j c := by
  refine reads_then reads_assertLocked fun _ => reads_then (reads_view View.process) fun p => ?_
  refine reads_then (reads_demand _ _) fun _ => reads_then (reads_clock x) fun now => ?_
  refine reads_then (reads_lift _) fun plan => reads_then (reads_lift _) fun csrInfo => ?_
  refine reads_then (reads_demand _ _) fun _ => reads_then (reads_stopped x) fun _ => ?_
  refine reads_then (reads_collect x .canonical) fun current => reads_then (reads_lift _) fun one => ?_
  refine reads_then (reads_demand _ _) fun _ => reads_then (reads_lift _) fun two => ?_
  refine reads_then (reads_demand _ _) fun _ => reads_then (reads_status x .canonical) fun old => ?_
  refine reads_then reads_getJournal fun j => reads_then (reads_lift _) fun id => ?_
  refine reads_then (reads_demand _ _) fun _ => (reads_pure _).mono ?_
  rintro _ v rfl ⟨_, named⟩ identity held _ _ _ fresh before _ _ matches_ _ prepared _ _ _ _
  subst fresh
  rw [host] at identity before prepared
  obtain ⟨i, inspected, spki, _⟩ := publicId_spec identity
  obtain ⟨i', current', first, _⟩ := samePublic_spec before
  obtain ⟨i'', request', issued, _⟩ := prepare_issued prepared
  cases inspected.symm.trans current'
  cases first.symm.trans request'
  obtain ⟨_, _, subject, dns, ip, ca, lifetime, hash, oid, _⟩ := matches_
  refine ⟨j, held, ⟨now, prepared⟩, ⟨subject, dns, ip, ca, lifetime, hash, oid⟩, by rw [host], ?_⟩
  rw [← named]
  exact issued.trans spki.symm

/-! ## Staging -/

theorem Journal.fields_of_initial (h : j.progress = .initial) :
    j.issued = none ∧ j.stageInode = none ∧ j.rollbackExpected = false ∧ j.commitPossible = false :=
  ⟨by simpa using show j.issued.isSome = false from congrArg Progress.issued h,
    by simpa using show j.stageInode.isSome = false from congrArg Progress.stage h,
    congrArg Progress.rollback h, congrArg Progress.commit h⟩

/-- The issued identity is journalled before anything is staged. -/
theorem Opened.issue {x : Session} {request : CertificateImportRequest} {c : Checked}
    (h : Opened g x .initial w j) (checked : Admissible g x request j c) :
    Prog.Holds (phase x .staging fun j => { j with issued := some c.issued })
      (fun _ t => Opened g x .staging t { j with phase := .staging, issued := some c.issued })
      (fun _ => Ready g j.start) (Ready g j.start) w := by
  obtain ⟨unissued, unstaged, unlinked, uncommitted⟩ := Journal.fields_of_initial h.progress
  have proper := h.ok.supported.proper
  obtain ⟨now, prepared⟩ := checked.prepared
  obtain ⟨_, _, _, two⟩ := prepare_issued prepared
  have below : j.Below { j with phase := .staging, issued := some c.issued } :=
    ⟨⟨rfl, rfl, rfl, rfl, rfl, rfl⟩, Or.inl unissued, Or.inr rfl, id, id⟩
  have progress : Journal.progress { j with phase := .staging, issued := some c.issued } = .staging := by
    simp [Journal.progress, Progress.staging, unstaged, unlinked, uncommitted]
  have supported : Supported g w.trace { j with phase := .staging, issued := some c.issued } := by
    refine ⟨⟨proper.version, proper.oldBounded, proper.oldDev, ?_, proper.stage, ?_, ?_⟩,
      h.ok.supported.old, ?_, ?_⟩
    · intro id hid
      obtain rfl : c.issued = id := Option.some.inj hid
      refine ⟨checked.spki, ?_⟩
      rw [checked.issued]
      simpa using two
    · rw [progress]
      exact List.mem_cons_self
    · intro no
      cases no
    · intro possible
      rw [show j.commitPossible = true from possible] at uncommitted
      cases uncommitted
    · intro no
      cases no
  have write := h.writable h.journals supported below
    (fun ns image => (h.fits ns image).congr rfl rfl rfl fun live => absurd live h.unverified)
    fun old => Snug.of_uncommitted (q := .staging) progress rfl (by decide) (fun no => absurd no (by decide))
      (fun _ => h.rollback) (fun no => absurd no (by decide)) fun no => absurd no (by decide)
  exact (h.toAt.advance rfl below (by decide) (by decide) progress write).mono
    (fun _ t ⟨at_, scribed⟩ => ⟨at_, fun no => h.unimported (scribed.imported _ no)⟩)
    (fun _ _ e => e) fun _ e => e

theorem Mine.of_held (h : Mine g w j) (held : Held g t j)
    (wrote : ∀ a, Wrote t.trace a → Wrote w.trace a)
    (locked : t.process.locked = w.process.locked)
    (record : t.disk.dir.visible .journal = w.disk.dir.visible .journal) : Mine g t j :=
  ⟨held, fun a ha => h.above a (wrote a ha), locked.trans h.locked, h.unverified, h.active,
    by rw [record]; exact h.written⟩

/-- A stage was created and is being filled. It may not be on the disk yet. -/
structure Copied (g : Setting) (x : Session) (k : Nat) (w : World) (j : Journal) :
    Prop extends Mine g w j where
  seen : w.disk.dir.visible .stage = some k
  unsealed : ∀ c, ¬ Sealed g w.trace k c
  stages : ∀ ns, w.disk.dir.Image ns → ∀ i, ns .stage = some i → i = k
  journals : ∀ ns, w.disk.dir.Image ns → ns .journal = w.disk.dir.visible .journal
  rollback : w.disk.dir.visible .rollback = none
  unimported : ¬ ImportedIn w.trace j.transaction
  digest : j.policyDigest = x.policy.digest
  progress : j.progress = .staging

theorem Copied.quiet {x : Session} {k : Nat} (h : Copied g x k w j) (q : Quiet w t) :
    Copied g x k t j where
  toMine := h.toMine.steady q.toSteady
  seen := by rw [q.disk]; exact h.seen
  unsealed c hs := h.unsealed c (q.toSteady.sealed.mp hs)
  stages := by rw [q.disk]; exact h.stages
  journals := by rw [q.disk]; exact h.journals
  rollback := by rw [q.disk]; exact h.rollback
  unimported no := h.unimported ((q.toSteady.importedIn _).mp no)
  digest := h.digest
  progress := h.progress

theorem Copied.amend {x : Session} {k : Nat} {f : Inode → Inode} (h : Copied g x k w j)
    (healthy : ∀ file, Healthy g.dev .stage file → Healthy g.dev .stage (f file)) :
    Copied g x k (w.amend k f) j where
  toMine := h.toMine.of_held (h.toHeld.amend (h.inv.amend rfl h.seen h.unsealed (healthy _)
    fun no => nomatch no)) (fun _ ha => ha) rfl rfl
  seen := h.seen
  unsealed := h.unsealed
  stages := h.stages
  journals := h.journals
  rollback := h.rollback
  unimported := h.unimported
  digest := h.digest
  progress := h.progress

theorem Journal.fields_of_staging (h : j.progress = .staging) :
    j.stageInode = none ∧ j.rollbackExpected = false ∧ j.commitPossible = false :=
  ⟨by simpa using show j.stageInode.isSome = false from congrArg Progress.stage h,
    congrArg Progress.rollback h, congrArg Progress.commit h⟩

theorem Opened.copied {x : Session} (h : Opened g x .staging w j) :
    Copied g x w.disk.dir.next (w.born .stage) j := by
  obtain ⟨unstaged, _⟩ := Journal.fields_of_staging h.progress
  obtain ⟨i, seen, sealed⟩ := h.durable.journal
  have inv : Inv g (w.born .stage) := by
    refine h.inv.born (Or.inl rfl) (fun _ ns image => ⟨i, j, ?_, sealed, unstaged, h.progress⟩)
      (fun no => nomatch no) fun no => nomatch no
    rw [h.durable.only ns image]
    exact seen
  have images {ns : Names Name} (image : (w.born .stage).disk.dir.Image ns) :
      ns = w.disk.dir.visible ∨
        Function.update w.disk.dir.visible .stage (some w.disk.dir.next) = ns := by
    rcases (w.disk.dir.image_create .stage ns).mp image with old | ⟨earlier, old, rfl⟩
    · exact Or.inl (h.durable.only ns old)
    · rw [h.durable.only earlier old]
      exact Or.inr rfl
  have visible : (w.born .stage).disk.dir.visible =
      Function.update w.disk.dir.visible .stage (some w.disk.dir.next) := by
    simp [World.born, Disk.create]
  have suffix : w.trace <:+ (w.born .stage).trace := List.suffix_cons _ _
  have fits := h.fits _ w.disk.dir.image_visible
  have held : Held g (w.born .stage) j := by
    refine h.toHeld.move inv suffix rfl (fun a ha => ?_) (fun ns image => ?_) (fun ns image => ?_) ?_ ?_
      (fun old _ => ?_) fun free old => ⟨free, Or.inr old⟩
    · have ha : a ∈ recentWrites (⟨.created .stage w.disk.dir.next, w.disk, w.service, w.process⟩ ::
        w.trace) := ha
      exact recentWrites_cons (by rintro _ ⟨⟩) ha
    · rcases images image with rfl | rfl
      · exact fits
      · exact fits.create_stage unstaged (w.disk.dir.fresh _ w.disk.dir.image_visible)
    · rcases images image with rfl | rfl
      · exact ⟨_, w.disk.dir.image_visible, rfl⟩
      · exact ⟨_, w.disk.dir.image_visible, by simp⟩
    · rw [visible]
      simp
    · rw [visible]
      simp
    · rw [visible]
      exact old.create_stage (by rw [h.progress]; decide)
  refine ⟨h.toMine.of_held held (fun a ha => by simpa using wrote_cons.mp ha) rfl
    (by rw [visible]; simp), ?_, ?_, ?_, ?_, ?_, ?_, h.digest, h.progress⟩
  · rw [visible]
    simp
  · intro c hs
    rcases sealed_cons.mp hs with old | ⟨⟨_, no⟩, _⟩
    · have := (h.inv.synced _ c old).1
      omega
    · cases no
  · intro ns image i hi
    rcases images image with rfl | rfl
    · rw [h.stage] at hi
      cases hi
    · simpa using hi.symm
  · intro ns image
    rw [visible]
    rcases images image with rfl | rfl
    · simp
    · rfl
  · rw [visible]
    simpa using h.rollback
  · intro no
    exact h.unimported (by simpa using importedIn_cons.mp no)

theorem copyStage_keeps (x : Session) (h : Opened g x .staging w j) :
    Prog.Holds (copyStage x) (fun _ t => ∃ k, Copied g x k t j) (fun _ => Ready g j.start) (Ready g j.start) w := by
  have quiet (s t : World) (q : Quiet s t) (h : Opened g x .staging s j) :
      Opened g x .staging t j := h.steady q.toSteady
  have quiet' (k : Nat) (s t : World) (q : Quiet s t) (h : Copied g x k s j) : Copied g x k t j :=
    h.quiet q
  have stop' (k : Nat) (t : World) (h : Copied g x k t j) : Ready g j.start t := h.ready
  refine Prog.holds_bind_of ((reads_opened x .canonical).keeps quiet (fun t h => h.ready) h)
    fun source t ⟨ht, _⟩ => ?_
  refine Prog.holds_bind_of (create_keeps x (L := fun k t => Copied g x k t j) quiet
    (fun t h => h.ready) quiet' stop' ht (fun t ht _ => ht.copied)
    (fun k t h => h.amend fun file hf =>
      ⟨hf.regular, hf.mode, hf.device, hf.outside, hf.size, fun no => absurd rfl no⟩)
    (fun k t h => h.amend fun file hf =>
      ⟨hf.regular, rfl, hf.device, hf.outside, hf.size, hf.owner⟩)) fun k t ⟨ht, _⟩ => ?_
  refine Prog.holds_bind_of ((reads_status x .canonical).keeps (quiet' k) (stop' k) ht)
    fun before t ⟨ht, _⟩ => ?_
  refine Prog.holds_bind_of ((reads_demand _ _).keeps (quiet' k) (stop' k) ht) fun _ t ⟨ht, _⟩ => ?_
  rw [Prog.holds_bind, Prog.holds_read]
  refine Prog.holds_bind_of (write_keeps x (K := fun t => Copied g x k t j)
    (L := fun t => Copied g x k t j) (quiet' k) (stop' k) (stop' k) ht
    (fun t bytes h => h.amend fun file hf => ⟨hf.regular, hf.mode, hf.device, hf.outside,
      fun no => absurd rfl no, hf.owner⟩)
    fun t h => h.amend fun file hf => ⟨hf.regular, hf.mode, hf.device, hf.outside,
      fun no => absurd rfl no, hf.owner⟩) fun _ t ht => ?_
  refine Prog.holds_bind_of ((reads_same x .canonical before).keeps (quiet' k) (stop' k) ht)
    fun _ t ⟨ht, _⟩ => ?_
  exact ((reads_demand _ _).keeps (quiet' k) (stop' k) ht).mono (fun _ t h => ⟨k, h.1⟩)
    (fun _ _ e => e) fun _ e => e

end

end CertRenewer
