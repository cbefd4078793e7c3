import CertRenewer.Reliable

/-!
# Recovery ends

From a disk whose names and contents fit its journal, a recovery in which
nothing fails returns, with an outcome the disk alone decides, and leaves what
that outcome promises.
-/

namespace CertRenewer

open Crash

/-- The stores of a journal: which file each name may denote, and what it reads
back as. -/
structure Matches (x : Session) (j : Journal) (d : Disk) : Prop where
  canonical : ∃ i, d.dir.visible .canonical = some i ∧
    ((j.oldInode = ⟨d.dev, i⟩ ∧ x.host.Reads (d.files i).content j.old) ∨
      (j.stageInode = some ⟨d.dev, i⟩ ∧ j.oldInode ≠ ⟨d.dev, i⟩ ∧ j.commitPossible = true ∧
        (∃ id, j.issued = some id ∧ x.host.Reads (d.files i).content id) ∧
        (d.dir.visible .rollback ≠ none ∨ j.phase = .liveVerified)))
  rollback : ∀ i, d.dir.visible .rollback = some i →
    j.oldInode = ⟨d.dev, i⟩ ∧ x.host.Reads (d.files i).content j.old
  stage : ∀ i, d.dir.visible .stage = some i → ∀ f, j.stageInode = some f → f = ⟨d.dev, i⟩

/-- The journal on a disk, with the stores it goes with. -/
structure Recoverable (x : Session) (j : Journal) (d : Disk) : Prop extends Matches x j d where
  sane : Sane d
  record : ∃ l, d.dir.visible .journal = some l ∧ (d.files l).content = .journal j
  valid : j.validate = .ok ()
  policy : j.policyDigest = x.policy.digest

theorem Journal.validate_rephase {j : Journal} {p : Phase} (valid : j.validate = .ok ())
    (other : p ≠ .liveVerified) : { j with phase := p }.validate = .ok () := by
  obtain ⟨version, old, issued, consistent, _⟩ := Journal.validate_eq_ok.mp valid
  exact Journal.validate_eq_ok.mpr ⟨version, old, issued, consistent, fun no => other no.1⟩

section
variable {x : Session} {s : Scene} {d : Disk} {j : Journal} {n : Name} {i : Nat}

theorem Sane.fileId (h : Sane d) (seen : d.dir.visible n = some i) :
    (d.statOf i).fileId = ⟨d.dev, i⟩ := by
  simp [Disk.statOf, Stat.fileId, (h.sound n i seen).device]

/-- The canonical store of a journal reads back. -/
theorem Matches.reads (h : Matches x j d) (seen : d.dir.visible .canonical = some i) :
    ∃ id, x.host.Reads (d.files i).content id := by
  obtain ⟨l, there, which⟩ := h.canonical
  obtain rfl : i = l := Option.some.inj (seen.symm.trans there)
  rcases which with ⟨_, reads⟩ | ⟨_, _, _, ⟨id, _, reads⟩, _⟩
  · exact ⟨j.old, reads⟩
  · exact ⟨id, reads⟩

/-- Another disk with the same stores. -/
theorem Matches.carry {d' : Disk} {j' : Journal} (h : Matches x j d) (kept : ∀ i < d.dir.next,
      (d'.files i).content = (d.files i).content) (dev : d'.dev = d.dev)
    (names : ∀ n, n.isStore = true → d'.dir.visible n = d.dir.visible n)
    (journal : j' = { j with phase := j'.phase })
    (phase : j'.phase = .liveVerified ∨ j.phase ≠ .liveVerified) : Matches x j' d' := by
  have same {n : Name} {i : Nat} (store : n.isStore = true) (seen : d'.dir.visible n = some i) :
      d.dir.visible n = some i ∧ (d'.files i).content = (d.files i).content := by
    rw [names n store] at seen
    exact ⟨seen, kept i (d.dir.visible_lt seen)⟩
  rw [journal]
  refine ⟨?_, fun i seen => ?_, fun i seen => ?_⟩
  · obtain ⟨i, seen, which⟩ := h.canonical
    refine ⟨i, (names _ rfl).trans seen, ?_⟩
    rw [dev, kept i (d.dir.visible_lt seen), names .rollback rfl]
    rcases which with old | ⟨stage, differs, possible, issued, retained⟩
    · exact Or.inl old
    · refine Or.inr ⟨stage, differs, possible, issued, ?_⟩
      rcases retained with there | live
      · exact Or.inl there
      · exact Or.inr (phase.resolve_right fun no => no live)
  · obtain ⟨seen, content⟩ := same rfl seen
    rw [dev, content]
    exact h.rollback i seen
  · rw [dev]
    exact h.stage i (same rfl seen).1

/-! ## The decision -/

section
variable (reliable : x.oracle.Reliable)
include reliable

theorem finds_loadJournal (ready : Recoverable x j s.disk) : Gives (loadJournal x) s fun a t =>
    j = a ∧ t = { s with process := { s.process with journal := some j } } := by
  obtain ⟨l, seen, content⟩ := ready.record
  refine finds_then (finds_readJournal reliable ready.sane seen content) ?_
  refine finds_then (finds_lift ready.valid) (gives_bind (gives_setProcess _) ?_)
  rintro _ _ rfl
  have current : Finds (requireCurrentPolicy x)
      { s with process := { s.process with journal := some j } } () :=
    finds_then (finds_getJournal rfl) (finds_demand _ ready.policy)
  exact finds_then current ((finds_pure j).mono fun _ _ h => ⟨h.1.symm, h.2⟩)

theorem finds_checkRollback (ready : Matches x j s.disk) (sane : Sane s.disk)
    (locked : s.process.locked = true) (seen : s.disk.dir.visible .canonical = some i)
    (missing : s.disk.dir.visible .rollback = none → j.oldInode = ⟨s.disk.dev, i⟩) :
    Gives (checkRollback x j (s.disk.statOf i)) s fun rollback t =>
      s = t ∧ rollback.isSome = (s.disk.dir.visible .rollback).isSome := by
  refine finds_then (finds_exists reliable .rollback) ?_
  cases there : s.disk.dir.visible .rollback with
  | some k =>
    obtain ⟨old, reads⟩ := ready.rollback k there
    have number : (s.disk.statOf k).fileId = j.oldInode := by rw [old, sane.fileId there]
    refine finds_then (finds_status reliable sane there) ?_
    refine finds_then (finds_status reliable sane there) (finds_then (finds_demand _ number) ?_)
    refine finds_then (finds_collectId reliable sane locked rfl there reads) ?_
    refine finds_then (finds_demand _ rfl) ((finds_pure _).mono ?_)
    rintro _ _ ⟨rfl, same⟩
    exact ⟨same.symm, rfl⟩
  | none =>
    have number : (s.disk.statOf i).fileId = j.oldInode := by rw [missing there, sane.fileId seen]
    refine finds_then (finds_demand _ fun no => no.2 number) ((finds_pure _).mono ?_)
    rintro _ _ ⟨rfl, same⟩
    exact ⟨same.symm, rfl⟩

theorem finds_observeCanonical (sane : Sane s.disk) (locked : s.process.locked = true)
    (seen : s.disk.dir.visible .canonical = some i) {id : PublicId}
    (reads : x.host.Reads (s.disk.files i).content id) :
    Finds (observeCanonical x (s.disk.statOf i)) s (some id) := by
  have look : Finds (Prog.handle (some <$> collectId x .canonical) (fun _ => pure none)) s (some id) :=
    gives_handle (finds_then (finds_collectId reliable sane locked rfl seen reads) (finds_pure _))
  exact finds_then look (finds_then (finds_same reliable sane seen) (finds_pure _))

/-- What the disk decides. -/
def decided (j : Journal) (d : Disk) : RecoveryOutcome :=
  if (d.dir.visible .canonical).map (FileId.mk d.dev) = some j.oldInode then .recoveredOld
  else .serviceResumedPendingLiveVerification

theorem finds_decideRecovery (ready : Matches x j s.disk) (sane : Sane s.disk)
    (active : j.phase ≠ .liveVerified) (locked : s.process.locked = true) :
    Finds (decideRecovery x j) s (decided j s.disk) := by
  obtain ⟨i, seen, which⟩ := ready.canonical
  have number := sane.fileId seen
  refine finds_then (finds_status reliable sane seen) ?_
  rcases which with ⟨old, reads⟩ | ⟨stage, differs, possible, ⟨id, issued, reads⟩, kept⟩
  · have outcome : decided j s.disk = .recoveredOld := by rw [decided, seen, old]; simp
    refine finds_then (finds_observeCanonical reliable sane locked seen reads) ?_
    refine gives_bind (finds_checkRollback reliable ready sane locked seen fun _ => old) ?_
    rintro rollback _ ⟨rfl, _⟩
    rw [if_pos ⟨rfl, number.trans old.symm⟩, outcome]
    exact finds_pure _
  · have kept := kept.resolve_right active
    have outcome : decided j s.disk = .serviceResumedPendingLiveVerification := by
      rw [decided, seen, Option.map_some, if_neg]
      exact fun same => differs (Option.some.inj same).symm
    refine finds_then (finds_observeCanonical reliable sane locked seen reads) ?_
    refine gives_bind (finds_checkRollback reliable ready sane locked seen fun no => absurd no kept) ?_
    rintro rollback _ ⟨rfl, there⟩
    rw [if_neg fun no => differs (no.2.symm.trans number), if_pos, outcome]
    · exact finds_pure _
    · refine ⟨possible, ?_, issued.symm, by rw [number, stage]⟩
      rw [there]
      exact Option.isSome_iff_ne_none.mpr kept

theorem finds_checkStage (ready : Matches x j s.disk) (sane : Sane s.disk) :
    Finds (checkStage x j) s () := by
  refine finds_then (finds_exists reliable .stage) ?_
  cases seen : s.disk.dir.visible .stage with
  | none => exact finds_pure ()
  | some i =>
    refine finds_then (finds_status reliable sane seen) (finds_demand _ ?_)
    rintro ⟨there, differs⟩
    obtain ⟨f, hf⟩ := Option.isSome_iff_exists.mp there
    rw [sane.fileId seen, hf, ready.stage i seen f hf] at differs
    exact differs rfl

/-! ## The end -/

/-- Nothing of a transaction is left, and the canonical store is what it was. -/
structure Cleared (d d' : Disk) : Prop where
  sane : Sane d'
  dev : d'.dev = d.dev
  next : d.dir.next ≤ d'.dir.next
  content : ∀ i < d.dir.next, (d'.files i).content = (d.files i).content
  canonical : d'.dir.visible .canonical = d.dir.visible .canonical
  gone : ∀ n ∈ transactionNames, d'.dir.visible n = none

theorem gives_cleanUp (sane : Sane s.disk) : Gives (cleanUp x) s fun _ t =>
    ∃ d, t = { s with disk := d } ∧ Cleared s.disk d := by
  refine gives_bind (gives_remove reliable sane (by decide)) ?_
  rintro _ _ ⟨d₁, rfl, h₁⟩
  refine gives_bind (gives_remove reliable (s := { s with disk := d₁ }) h₁.sane (by decide)) ?_
  rintro _ _ ⟨d₂, rfl, h₂⟩
  refine gives_bind (gives_remove reliable (s := { s with disk := d₂ }) h₂.sane (by decide)) ?_
  rintro _ _ ⟨d₃, rfl, h₃⟩
  refine gives_bind (gives_syncDirectory reliable) ?_
  rintro _ _ rfl
  have h₄ := h₃.sane.syncDirectory
  refine gives_bind (gives_remove reliable (s := { s with disk := { d₃ with dir := d₃.dir.sync } })
    h₄.sane (by decide)) ?_
  rintro _ _ ⟨d₅, rfl, h₅⟩
  refine (gives_syncDirectory reliable).mono ?_
  rintro _ _ rfl
  have h₆ := h₅.sane.syncDirectory
  have names (n : Name) : d₅.dir.sync.visible n =
      if n ∈ transactionNames then none else s.disk.dir.visible n := by
    rw [h₆.names, h₅.names, h₄.names, h₃.names, h₂.names, h₁.names]
    cases n <;> simp [transactionNames]
  have all := ((((h₁.trans h₂).trans h₃).trans h₄).trans h₅).trans h₆
  refine ⟨_, rfl, all.sane, all.dev, all.next, all.content, names .canonical, fun n hn => ?_⟩
  rw [names n, if_pos hn]

/-- The transaction waits for its live verification, with the stores it had. -/
structure Paused (j : Journal) (d d' : Disk) : Prop where
  sane : Sane d'
  dev : d'.dev = d.dev
  next : d.dir.next ≤ d'.dir.next
  content : ∀ i < d.dir.next, (d'.files i).content = (d.files i).content
  stores : ∀ n, n.isStore = true → d'.dir.visible n = d.dir.visible n
  journal : ∃ k, d'.dir.visible .journal = some k ∧
    (d'.files k).content = .journal { j with phase := .serviceResumedPendingLiveVerification }
  journalNew : d'.dir.visible .journalNew = none

def Ends (j : Journal) (d : Disk) : RecoveryOutcome → Disk → Prop
  | .serviceResumedPendingLiveVerification => Paused j d
  | _ => Cleared d

theorem gives_recoverTransaction (ready : Recoverable x j s.disk) (active : j.phase ≠ .liveVerified)
    (locked : s.process.locked = true) (memory : s.process.journal = some j)
    (idle : s.service.keytool = false) (startup : Bool) :
    Gives (recoverTransaction x j startup) s fun outcome t => outcome = decided j s.disk ∧
      t.held = s.held ∧ t.service = resumed j.resume startup ∧ t.process.locked = true ∧
      (t.process.expectStopped = true → t.service = ⟨false, false, false⟩) ∧
      Ends j s.disk outcome t.disk := by
  obtain ⟨i, seen, _⟩ := ready.canonical
  obtain ⟨id, reads⟩ := ready.toMatches.reads seen
  refine gives_bind (gives_setProcess _) ?_
  rintro _ _ rfl
  refine gives_bind (gives_stop reliable idle) ?_
  rintro _ _ rfl
  refine finds_then (finds_decideRecovery reliable ready.toMatches ready.sane active locked) ?_
  refine finds_then (finds_checkStage reliable ready.toMatches ready.sane) ?_
  refine finds_then (finds_stopped reliable rfl) ?_
  refine gives_bind (gives_resumeService reliable (s := { s with
    process := { s.process with expectStopped := true }, service := ⟨false, false, false⟩ })
    ready.sane locked memory rfl rfl seen reads startup) ?_
  rintro _ _ rfl
  have other : (decided j s.disk).journalPhase ≠ .liveVerified := by
    unfold decided
    split <;> simp [RecoveryOutcome.journalPhase]
  refine gives_bind (gives_phase reliable (s := { s with
    process := { s.process with expectStopped := !(resumed j.resume startup).up }
    service := resumed j.resume startup }) ready.sane memory (f := fun j => j)
    (Journal.validate_rephase ready.valid other)) ?_
  rintro _ t ⟨d, k, ht, written, content, _⟩
  obtain ⟨rfl, held, service, lock, expect⟩ : d = t.disk ∧ t.held = s.held ∧
      t.service = resumed j.resume startup ∧ t.process.locked = true ∧
      t.process.expectStopped = !(resumed j.resume startup).up := by
    subst ht
    exact ⟨rfl, rfl, rfl, locked, rfl⟩
  have calm : t.process.expectStopped = true → t.service = ⟨false, false, false⟩ := by
    rw [expect, service]
    unfold resumed
    split <;> simp
  by_cases old : decided j s.disk = .recoveredOld
  · rw [if_pos old, old]
    refine gives_bind (gives_cleanUp reliable written.sane) ?_
    rintro _ _ ⟨d', rfl, cleared⟩
    refine (finds_pure _).mono ?_
    rintro _ _ ⟨rfl, rfl⟩
    refine ⟨rfl, held, service, lock, calm, cleared.sane, cleared.dev.trans written.dev,
      Nat.le_trans written.next cleared.next, fun i hi => ?_, ?_, cleared.gone⟩
    · exact (cleared.content i (Nat.lt_of_lt_of_le hi written.next)).trans (written.content i hi)
    · rw [cleared.canonical, written.names]
      simp
  · have pending : decided j s.disk = .serviceResumedPendingLiveVerification := by
      unfold decided at old ⊢
      split at old
      · exact absurd rfl old
      · rename_i no
        rw [if_neg no]
    rw [if_neg old]
    rw [pending] at content ⊢
    refine (finds_pure _).mono ?_
    rintro _ _ ⟨rfl, rfl⟩
    refine ⟨rfl, held, service, lock, calm, written.sane, written.dev, written.next, written.content,
      fun n store => ?_, ⟨k, ?_, content⟩, ?_⟩
    · rw [written.names]
      cases n <;> first | rfl | cases store
    · rw [written.names]
      simp
    · rw [written.names]
      simp

/-! ## After a live verification -/

/-- What a verified transaction must show besides its stores. -/
structure Settled (j : Journal) (d : Disk) : Prop where
  canonical : (d.dir.visible .canonical).map (FileId.mk d.dev) = j.stageInode
  stage : d.dir.visible .stage = none
  journalNew : d.dir.visible .journalNew = none

theorem gives_establish (ready : Recoverable x j s.disk) (live : j.phase = .liveVerified)
    (memory : s.process.journal = some j) :
    Gives (establishLiveVerifiedDurability x) s fun _ t => ∃ d, t = { s with disk := d } ∧
      Leaves s.disk d s.disk.dir.visible := by
  obtain ⟨l, seen, content⟩ := ready.record
  refine finds_then (finds_getJournal memory) (finds_then (finds_demand _ live) ?_)
  refine finds_then (finds_status reliable ready.sane seen) ?_
  have synced : Gives (syncFile x .journal) s fun _ t => ∃ d, t = { s with disk := d } ∧
      d.dir = s.disk.dir ∧ d.dev = s.disk.dev ∧ Sane d ∧
      ∀ l, (d.files l).content = (s.disk.files l).content ∧ d.statOf l = s.disk.statOf l :=
    finds_then (finds_opened reliable ready.sane seen) (gives_fsyncFile reliable ready.sane)
  refine gives_bind synced ?_
  rintro _ _ ⟨d, rfl, dir, dev, sane, same_⟩
  have named : d.dir.visible .journal = some l := by rw [dir, seen]
  rw [← (same_ l).2]
  refine finds_then (finds_same reliable (s := { s with disk := d }) sane named) ?_
  refine gives_bind (gives_syncDirectory reliable) ?_
  rintro _ _ rfl
  have settled := sane.syncDirectory
  refine (finds_same reliable (s := { s with disk := { d with dir := d.dir.sync } }) settled.sane
    named).mono ?_
  rintro _ _ ⟨_, rfl⟩
  refine ⟨_, rfl, settled.sane, ?_, dev, ?_, fun i _ => (same_ i).1⟩
  · rw [settled.names, dir]
  · rw [← dir]
    exact settled.next

omit reliable in
theorem Recoverable.verified (ready : Recoverable x j d) (live : j.phase = .liveVerified)
    (settled : Settled j d) : ∃ i id, d.dir.visible .canonical = some i ∧ d.links i = 1 ∧
      j.stageInode = some ⟨d.dev, i⟩ ∧ j.issued = some id ∧ x.host.Reads (d.files i).content id := by
  obtain ⟨_, _, _, _, consistent⟩ := Journal.validate_eq_ok.mp ready.valid
  obtain ⟨i, seen, which⟩ := ready.canonical
  have stage : j.stageInode = some ⟨d.dev, i⟩ := by rw [← settled.canonical, seen, Option.map_some]
  have differs : j.oldInode ≠ ⟨d.dev, i⟩ := by
    intro same
    refine consistent ⟨live, ?_⟩
    rw [same, stage]
    simp
  rcases which with ⟨old, _⟩ | ⟨_, _, _, ⟨id, issued, reads⟩, _⟩
  · exact absurd old differs
  · refine ⟨i, id, seen, ready.sane.apart.links_one seen fun m hm => ?_, stage, issued, reads⟩
    rcases ready.sane.distinct m _ i hm seen with same | ⟨keeper, _⟩
    · exact same
    · rcases Name.of_keeper keeper with rfl | rfl
      · rfl
      · exact absurd (ready.rollback i hm).1 differs

theorem finds_validateLiveVerifiedFiles (ready : Recoverable x j s.disk)
    (live : j.phase = .liveVerified) (settled : Settled j s.disk)
    (locked : s.process.locked = true) (memory : s.process.journal = some j) :
    Finds (validateLiveVerifiedFiles x true) s () := by
  obtain ⟨i, id, seen, one, stage, issued, reads⟩ := ready.verified live settled
  have rest : Finds (do
      demand (!(← exists_ x .stage)) "unexpected pending stage"
      demand (!(← exists_ x .journalNew)) "unexpected pending journal replacement") s () := by
    refine finds_then (finds_exists reliable .stage) ?_
    refine finds_then (finds_demand _ (by simp [settled.stage])) ?_
    refine finds_then (finds_exists reliable .journalNew) ?_
    exact finds_demand _ (by simp [settled.journalNew])
  refine finds_then (finds_getJournal memory) (finds_then (finds_status reliable ready.sane seen) ?_)
  refine finds_then (finds_demand _ one) (finds_then (finds_demand _ ?_) ?_)
  · rw [ready.sane.fileId seen, stage]
  refine finds_then (finds_collectId reliable ready.sane locked rfl seen reads) ?_
  refine finds_then (finds_demand _ issued.symm) (finds_then (finds_exists reliable .rollback) ?_)
  cases there : s.disk.dir.visible .rollback with
  | none => exact finds_then (finds_demand _ rfl) rest
  | some k =>
    obtain ⟨old, reads⟩ := ready.rollback k there
    have alone : s.disk.links k = 1 := by
      refine ready.sane.apart.links_one there fun m hm => ?_
      rcases ready.sane.distinct m _ k hm there with same | ⟨keeper, _⟩
      · exact same
      · rcases Name.of_keeper keeper with rfl | rfl
        · obtain rfl : i = k := Option.some.inj (seen.symm.trans hm)
          obtain ⟨_, _, _, _, consistent⟩ := Journal.validate_eq_ok.mp ready.valid
          refine absurd ⟨live, ?_⟩ consistent
          rw [old, stage]
          simp
        · rfl
    refine finds_then (finds_status reliable ready.sane there) ?_
    refine finds_then (finds_demand _ alone) (finds_then (finds_demand _ ?_) ?_)
    · rw [ready.sane.fileId there, old]
    refine finds_then (finds_collectId reliable ready.sane locked rfl there reads) ?_
    exact finds_then (finds_demand _ rfl) rest

theorem gives_finish (sane : Sane s.disk) (live : j.phase = .liveVerified) (settled : Settled j s.disk)
    (memory : s.process.journal = some j) :
    Gives (finishLiveVerified x) s fun _ t => ∃ d, t = { s with disk := d } ∧ Cleared s.disk d := by
  refine finds_then (finds_getJournal memory) (finds_then (finds_demand _ live) ?_)
  refine gives_bind (gives_remove reliable sane (by decide)) ?_
  rintro _ _ ⟨d₁, rfl, h₁⟩
  refine gives_bind (gives_syncDirectory reliable) ?_
  rintro _ _ rfl
  have h₂ := h₁.sane.syncDirectory
  refine gives_bind (gives_remove reliable (s := { s with disk := { d₁ with dir := d₁.dir.sync } })
    h₂.sane (by decide)) ?_
  rintro _ _ ⟨d₃, rfl, h₃⟩
  refine (gives_syncDirectory reliable).mono ?_
  rintro _ _ rfl
  have h₄ := h₃.sane.syncDirectory
  have all := ((h₁.trans h₂).trans h₃).trans h₄
  refine ⟨_, rfl, all.sane, all.dev, all.next, all.content, ?_, fun n hn => ?_⟩
  · rw [all.names, h₃.names, h₂.names, h₁.names]
    simp
  · rw [all.names, h₃.names, h₂.names, h₁.names]
    simp only [transactionNames, List.mem_cons, List.not_mem_nil, or_false] at hn
    rcases hn with rfl | rfl | rfl | rfl
    · simp
    · simpa using settled.journalNew
    · simpa using settled.stage
    · simp

/-! ## Recovery -/

/-- The outcome a journal and its disk call for. -/
def expected (j : Journal) (d : Disk) : RecoveryOutcome :=
  if j.phase = .liveVerified then .renewalFinalized else decided j d

/-- The service after a recovery. A verified transaction is finalised beside it. -/
def serviceAfter (j : Journal) (startup : Bool) (v : Service) : Service :=
  if j.phase = .liveVerified then v else resumed j.resume startup

omit reliable in
theorem Recoverable.leaves {d' : Disk} {ns : Names Name} (ready : Recoverable x j d)
    (h : Leaves d d' ns) (same : ∀ n, n ≠ .lock → ns n = d.dir.visible n) : Recoverable x j d' where
  toMatches := ready.toMatches.carry h.content h.dev
    (fun n store => by rw [h.names, same n (by rintro rfl; cases store)]) rfl
    (by by_cases live : j.phase = .liveVerified <;> simp [live])
  sane := h.sane
  record := by
    obtain ⟨l, seen, content⟩ := ready.record
    refine ⟨l, by rw [h.names, same _ (by decide), seen], ?_⟩
    rw [h.content l (d.dir.visible_lt seen), content]
  valid := ready.valid
  policy := ready.policy

omit reliable in
theorem Settled.leaves {d' : Disk} {ns : Names Name} (settled : Settled j d)
    (h : Leaves d d' ns) (same : ∀ n, n ≠ .lock → ns n = d.dir.visible n) : Settled j d' where
  canonical := by rw [h.names, same _ (by decide), h.dev, settled.canonical]
  stage := by rw [h.names, same _ (by decide), settled.stage]
  journalNew := by rw [h.names, same _ (by decide), settled.journalNew]

omit reliable in
theorem Ends.after {d' e : Disk} {ns : Names Name} {outcome : RecoveryOutcome}
    (ends : Ends j d' outcome e) (h : Leaves d d' ns)
    (same : ∀ n, n ≠ .lock → ns n = d.dir.visible n) : Ends j d outcome e := by
  have content (rest : ∀ i < d'.dir.next, (e.files i).content = (d'.files i).content) (i : Nat)
      (hi : i < d.dir.next) : (e.files i).content = (d.files i).content :=
    (rest i (Nat.lt_of_lt_of_le hi h.next)).trans (h.content i hi)
  have cleared (ends : Cleared d' e) : Cleared d e :=
    ⟨ends.sane, ends.dev.trans h.dev, Nat.le_trans h.next ends.next, content ends.content,
      by rw [ends.canonical, h.names, same _ (by decide)], ends.gone⟩
  cases outcome with
  | serviceResumedPendingLiveVerification =>
    have ends : Paused j d' e := ends
    refine ⟨ends.sane, ends.dev.trans h.dev, Nat.le_trans h.next ends.next, content ends.content,
      fun n store => ?_, ends.journal, ends.journalNew⟩
    rw [ends.stores n store, h.names, same n (by rintro rfl; cases store)]
  | noActiveTransaction => exact cleared ends
  | recoveredOld => exact cleared ends
  | renewalFinalized => exact cleared ends

/-- A recovery in which nothing fails returns what its disk calls for. -/
theorem gives_recover (ready : Recoverable x j s.disk)
    (settled : j.phase = .liveVerified → Settled j s.disk) (free : s.held = false)
    (idle : s.service.keytool = false) (startup : Bool) :
    Gives (recover x startup) s fun outcome t => outcome = expected j s.disk ∧ t.held = false ∧
      t.service = serviceAfter j startup s.service ∧ Ends j s.disk outcome t.disk := by
  refine gives_ensure (S := fun outcome t => outcome = expected j s.disk ∧ t.held = false ∧
    t.service = serviceAfter j startup s.service ∧ t.process.locked = true ∧
    t.service.keytool = false ∧
    (t.process.expectStopped = true → t.service = ⟨false, false, false⟩) ∧
    Ends j s.disk outcome t.disk) (gives_handle ?_) ?_
  · refine gives_bind (gives_acquire reliable ready.sane free idle) ?_
    rintro _ _ ⟨d, l, rfl, h⟩
    have same (n : Name) (other : n ≠ .lock) :
        Function.update s.disk.dir.visible .lock (some l) n = s.disk.dir.visible n := by simp [other]
    have ready' := ready.leaves h same
    obtain ⟨i, seen, _⟩ := ready'.record
    refine finds_then (finds_exists reliable .journal) ?_
    rw [if_pos (by simp [seen])]
    refine gives_bind (finds_loadJournal reliable (s := { s with
      disk := d, process := { s.process with locked := true, expectStopped := false } }) ready') ?_
    rintro _ _ ⟨rfl, rfl⟩
    by_cases live : j.phase = .liveVerified
    · rw [if_pos live]
      refine gives_bind (gives_establish reliable (s := { s with
        disk := d
        process := { s.process with locked := true, expectStopped := false, journal := some j } })
        ready' live rfl) ?_
      rintro _ _ ⟨d', rfl, h'⟩
      have ready'' := ready'.leaves h' fun _ _ => rfl
      have settled' := ((settled live).leaves h same).leaves h' fun _ _ => rfl
      refine finds_then (finds_validateLiveVerifiedFiles reliable (s := { s with
        disk := d'
        process := { s.process with locked := true, expectStopped := false, journal := some j } })
        ready'' live settled' rfl rfl) ?_
      refine gives_bind (gives_finish reliable (s := { s with
        disk := d'
        process := { s.process with locked := true, expectStopped := false, journal := some j } })
        ready''.sane live settled' rfl) ?_
      rintro _ _ ⟨e, rfl, cleared⟩
      refine (finds_pure _).mono ?_
      rintro _ _ ⟨rfl, rfl⟩
      have ends : Ends j d' .renewalFinalized e := cleared
      refine ⟨by rw [expected, if_pos live], free, by rw [serviceAfter, if_pos live], rfl, idle,
        (fun no => nomatch no), ?_⟩
      exact (ends.after h' fun _ _ => rfl).after h same
    · rw [if_neg live]
      refine (gives_recoverTransaction reliable (s := { s with
        disk := d
        process := { s.process with locked := true, expectStopped := false, journal := some j } })
        ready' live rfl rfl idle startup).mono ?_
      rintro outcome t ⟨rfl, held, service, locked, calm, ends⟩
      have decision : decided j d = decided j s.disk := by
        rw [decided, decided, h.names, same _ (by decide), h.dev]
      refine ⟨by rw [expected, if_neg live]; exact decision, held.trans free,
        by rw [serviceAfter, if_neg live]; exact service, locked, ?_, calm, ends.after h same⟩
      rw [service, resumed]
      split <;> rfl
  · rintro outcome t ⟨value, held, service, locked, idle, calm, ends⟩
    refine (gives_release reliable locked idle calm).mono ?_
    rintro _ _ rfl
    exact ⟨value, held, service, ends⟩

/-- Without a transaction there is nothing to do. -/
theorem gives_recover_idle (sane : Sane s.disk) (free : s.held = false)
    (idle : s.service.keytool = false) (gone : ∀ n ∈ transactionNames, s.disk.dir.visible n = none)
    (startup : Bool) :
    Gives (recover x startup) s fun outcome t => outcome = .noActiveTransaction ∧ t.held = false ∧
      t.service = s.service ∧ Cleared s.disk t.disk := by
  refine gives_ensure (S := fun outcome t => outcome = .noActiveTransaction ∧ t.held = false ∧
    t.service = s.service ∧ t.process.locked = true ∧ t.process.expectStopped = false ∧
    Cleared s.disk t.disk) (gives_handle ?_) ?_
  · refine gives_bind (gives_acquire reliable sane free idle) ?_
    rintro _ _ ⟨d, l, rfl, h⟩
    have absent (n : Name) (hn : n ∈ transactionNames) : d.dir.visible n = none := by
      have other : n ≠ .lock := by
        rintro rfl
        exact absurd hn (by decide)
      rw [h.names, Function.update_of_ne other, gone n hn]
    refine finds_then (finds_exists reliable .journal) ?_
    rw [if_neg (by simp [absent .journal (by decide)])]
    refine finds_then (finds_noTransaction reliable (absent _ (by decide)) (absent _ (by decide))
      (absent _ (by decide)) (absent _ (by decide))) ?_
    refine gives_bind (gives_syncDirectory reliable) ?_
    rintro _ _ rfl
    refine (finds_pure _).mono ?_
    rintro _ _ ⟨rfl, rfl⟩
    have all := h.trans h.sane.syncDirectory
    refine ⟨rfl, free, rfl, rfl, rfl, all.sane, all.dev, all.next, all.content, ?_, absent⟩
    rw [all.names, h.names]
    simp
  · rintro outcome t ⟨value, held, service, locked, calm, cleared⟩
    refine (gives_release reliable locked (by rw [service]; exact idle) fun no => ?_).mono ?_
    · rw [calm] at no
      cases no
    · rintro _ _ rfl
      exact ⟨value, held, service, cleared⟩

end

end

end CertRenewer
