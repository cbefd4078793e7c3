import CertRenewer.Startup

/-!
# Recovery from every reachable state

A recovery in which nothing fails ends as its disk decides, and a second one
changes nothing more. There are two exceptions, which recovery refuses: a
verified transaction whose later changes outlived earlier ones through a power
loss, and a stage that keytool left larger than any store may be.
-/

namespace CertRenewer

open Crash

section
variable {g : Setting} {x y : Session} {w t : World} {j : Journal} {l : Nat}

/-! ## Reachable states can be recovered -/

theorem Inv.sane (inv : Inv g w) (owned : ∀ i, w.disk.dir.visible .stage = some i →
    (w.disk.files i).uid = abc ∧ (w.disk.files i).gid = abc) (fits : StageFits w.disk) :
    Sane w.disk where
  distinct := inv.apart.distinct
  sound n i seen := by
    have healthy := inv.healthy _ w.disk.dir.image_visible n i seen
    refine ⟨healthy.regular, healthy.mode, ?_, healthy.device.trans inv.dev.symm, ?_, healthy.outside⟩
    · by_cases stage : n = .stage
      · subst stage
        exact owned i seen
      · exact healthy.owner stage
    · by_cases stage : n = .stage
      · subst stage
        exact fits i seen
      · have room : n.room ≤ maxStore := by cases n <;> decide
        exact Nat.le_trans (healthy.size stage) room

theorem Inv.recoverable (inv : Inv g w) (host : x.host = g.host)
    (owned : ∀ i, w.disk.dir.visible .stage = some i →
      (w.disk.files i).uid = abc ∧ (w.disk.files i).gid = abc)
    (small : StageFits w.disk) (record : w.disk.dir.visible .journal = some l) (content : (w.disk.files l).content = .journal j)
    (policy : j.policyDigest = x.policy.digest) : Recoverable x j w.disk := by
  obtain ⟨ok, fits⟩ := inv.journal_ok record content
  have proper := ok.supported.proper
  have dev : j.oldInode = ⟨w.disk.dev, j.oldInode.ino⟩ := by rw [inv.dev, ← proper.oldDev]
  have old : x.host.Reads (w.disk.files j.oldInode.ino).content j.old := by
    obtain ⟨c, genuine, reads⟩ := ok.supported.old
    rw [(inv.synced _ c genuine.1).2.1, host]
    exact reads
  refine ⟨⟨?_, fun i seen => ?_, fun i seen f hf => ?_⟩, inv.sane owned small, ⟨l, record, content⟩,
    proper.validate, policy⟩
  · rcases fits.canonical with seen | ⟨possible, ⟨i, stage, seen⟩, _, kept⟩
    · exact ⟨_, seen, Or.inl ⟨dev, old⟩⟩
    · obtain ⟨k, c, id, stage', sealed, _, issued, reads⟩ := ok.supported.committable possible
      obtain rfl : i = k := congrArg FileId.ino (Option.some.inj (stage.symm.trans stage'))
      refine ⟨i, seen, Or.inr ⟨by rw [stage, inv.dev], fun same => ?_, possible, ⟨id, issued, ?_⟩,
        kept.imp_left fun kept => by rw [kept]; simp⟩⟩
      · exact (proper.stage _ stage).2 (congrArg FileId.ino same).symm
      · rw [(inv.synced _ c sealed).2.1, host]
        exact reads
  · rcases fits.rollback with none | same
    · rw [none] at seen
      cases seen
    · obtain rfl : j.oldInode.ino = i := Option.some.inj (same.symm.trans seen)
      exact ⟨dev, old⟩
  · have number := (fits.stage i seen).2 f hf
    have device := (proper.stage f hf).1
    rw [inv.dev, ← number, ← device]

/-! ## What a recovery leaves -/

/-- The transaction is pending: the canonical store is the stage and nothing
else, the rollback is the old store, and the journal says so. -/
structure Awaiting (j : Journal) (d : Disk) : Prop where
  canonical : ∃ i, d.dir.visible .canonical = some i ∧ j.stageInode = some ⟨d.dev, i⟩ ∧ d.links i = 1
  rollback : d.fileId .rollback = some j.oldInode
  journal : ∃ k, d.dir.visible .journal = some k ∧
    (d.files k).content = .journal { j with phase := .serviceResumedPendingLiveVerification }
  stage : d.dir.visible .stage = none
  journalNew : d.dir.visible .journalNew = none

/-- What an outcome promises of the state it is returned in. -/
structure Delivers (j : Journal) (startup : Bool) (w : World) (outcome : RecoveryOutcome) (t : World) :
    Prop where
  cleared : outcome ≠ .serviceResumedPendingLiveVerification →
    ∀ n ∈ transactionNames, t.disk.dir.visible n = none
  awaiting : outcome = .serviceResumedPendingLiveVerification → Awaiting j t.disk
  canonical : t.disk.dir.visible .canonical = w.disk.dir.visible .canonical
  service : outcome ≠ .renewalFinalized → (t.service.up = true ↔ j.resume = true ∧ startup = false)
  beside : outcome = .renewalFinalized → t.service = w.service

/-- What a second recovery returns. -/
def RecoveryOutcome.again : RecoveryOutcome → RecoveryOutcome
  | .serviceResumedPendingLiveVerification => .serviceResumedPendingLiveVerification
  | _ => .noActiveTransaction

/-- A recovery returns what the journal and its disk call for, and another one
after it finds nothing more to do. -/
def Converges (x : Session) (startup : Bool) (j : Journal) (w : World) : Prop :=
  ∃ t, recover x startup w.fresh = (.ok (expected j w.disk), t) ∧
    Delivers j startup w (expected j w.disk) t ∧
    ∀ y : Session, y.oracle.Reliable → y.host = x.host → y.policy.digest = x.policy.digest →
      ∀ later, ∃ u, recover y later t.fresh = (.ok (expected j w.disk).again, u) ∧
        ∀ n, n.isStore = true → u.disk.dir.visible n = t.disk.dir.visible n

theorem Paused.awaiting {d d' : Disk} (paused : Paused j d d') (ready : Recoverable x j d)
    (active : j.phase ≠ .liveVerified) (pending : decided j d ≠ .recoveredOld)
    (unstaged : d.fileId .canonical = j.stageInode → d.dir.visible .stage = none) :
    Awaiting j d' := by
  obtain ⟨i, seen, ⟨old, _⟩ | ⟨stage, differs, _, _, kept⟩⟩ := ready.canonical
  · refine absurd ?_ pending
    rw [decided, seen, Option.map_some, old, if_pos rfl]
  · obtain ⟨k, there⟩ := Option.ne_none_iff_exists'.mp (kept.resolve_right active)
    have old := (ready.rollback k there).1
    have named : d'.dir.visible .canonical = some i := (paused.stores _ rfl).trans seen
    refine ⟨⟨i, named, by rw [paused.dev]; exact stage, ?_⟩, ?_, paused.journal, ?_, paused.journalNew⟩
    · refine paused.sane.apart.links_one named fun m hm => ?_
      rcases paused.sane.distinct m _ i hm named with same | ⟨keeper, _⟩
      · exact same
      · rcases Name.of_keeper keeper with rfl | rfl
        · rfl
        · rw [paused.stores _ rfl, there] at hm
          cases hm
          exact absurd old differs
    · rw [Disk.fileId, paused.stores _ rfl, there, Option.map_some, old, paused.dev]
    · rw [paused.stores _ rfl]
      exact unstaged (by rw [Disk.fileId, seen, Option.map_some, stage])

theorem Matches.host {d : Disk} (h : Matches x j d) (host : y.host = x.host) : Matches y j d := by
  refine ⟨?_, ?_, h.stage⟩
  · rw [host]
    exact h.canonical
  · rw [host]
    exact h.rollback

theorem decided_cases (j : Journal) (d : Disk) : decided j d = .recoveredOld ∨
    decided j d = .serviceResumedPendingLiveVerification := by
  unfold decided
  split <;> simp

theorem resumed_up (resume startup : Bool) :
    (resumed resume startup).up = true ↔ resume = true ∧ startup = false := by
  cases resume <;> cases startup <;> simp [resumed]

/-- After an end without a transaction, another recovery has nothing to do. -/
theorem Cleared.again {d : Disk} (cleared : Cleared d t.disk) (reliable : y.oracle.Reliable)
    (free : t.held = false) (idle : t.service.keytool = false) (later : Bool) :
    ∃ u, recover y later t.fresh = (.ok .noActiveTransaction, u) ∧
      ∀ n, n.isStore = true → u.disk.dir.visible n = t.disk.dir.visible n := by
  have run := gives_recover_idle reliable (s := t.fresh.scene) cleared.sane free idle cleared.gone later
    t.fresh rfl
  obtain ⟨_, returned, rfl, _, _, after⟩ := run.exists
  refine ⟨_, Prog.eq_of_fst returned, fun n store => ?_⟩
  have gone (n : Name) (hn : n ∈ transactionNames) :
      (recover y later t.fresh).2.disk.dir.visible n = t.disk.dir.visible n :=
    (after.gone n hn).trans (cleared.gone n hn).symm
  cases n with
  | canonical => exact after.canonical
  | stage => exact gone _ (by decide)
  | rollback => exact gone _ (by decide)
  | journal => cases store
  | journalNew => cases store
  | lock => cases store

/-- A pending transaction stays pending. -/
theorem Paused.again {d : Disk} (paused : Paused j d t.disk) (ready : Recoverable x j d)
    (active : j.phase ≠ .liveVerified) (pending : decided j d = .serviceResumedPendingLiveVerification)
    (reliable : y.oracle.Reliable) (host : y.host = x.host)
    (policy : y.policy.digest = x.policy.digest) (free : t.held = false)
    (idle : t.service.keytool = false) (later : Bool) :
    ∃ u, recover y later t.fresh = (.ok .serviceResumedPendingLiveVerification, u) ∧
      ∀ n, n.isStore = true → u.disk.dir.visible n = t.disk.dir.visible n := by
  have stores : Matches x { j with phase := .serviceResumedPendingLiveVerification } t.disk :=
    ready.toMatches.carry paused.content paused.dev paused.stores rfl (Or.inr active)
  have ready' : Recoverable y { j with phase := .serviceResumedPendingLiveVerification } t.disk :=
    ⟨stores.host host, paused.sane, paused.journal, Journal.validate_rephase ready.valid (by decide),
      ready.policy.trans policy.symm⟩
  have run := gives_recover reliable (s := t.fresh.scene) ready' (fun live => nomatch live) free idle later
    t.fresh rfl
  obtain ⟨_, returned, rfl, _, _, ends⟩ := run.exists
  have same : expected { j with phase := .serviceResumedPendingLiveVerification } t.fresh.scene.disk =
      .serviceResumedPendingLiveVerification := by
    have canonical := paused.stores .canonical rfl
    rw [decided] at pending
    change decided { j with phase := .serviceResumedPendingLiveVerification } t.disk = _
    rw [decided, canonical, paused.dev]
    exact pending
  rw [same] at returned ends
  have ends : Paused _ _ _ := ends
  exact ⟨_, Prog.eq_of_fst returned, ends.stores⟩

theorem Recoverable.converges (ready : Recoverable x j w.disk) (reliable : x.oracle.Reliable)
    (free : w.held = false) (idle : w.service.keytool = false)
    (settled : j.phase = .liveVerified → Settled j w.disk)
    (unstaged : w.disk.fileId .canonical = j.stageInode → w.disk.dir.visible .stage = none)
    (startup : Bool) : Converges x startup j w := by
  have run := gives_recover reliable (s := w.fresh.scene) ready settled free idle startup w.fresh rfl
  obtain ⟨_, returned, rfl, held, service, ends⟩ := run.exists
  have quiet : (recover x startup w.fresh).2.service.keytool = false := by
    have same : (recover x startup w.fresh).2.service = serviceAfter j startup w.service := service
    rw [same, serviceAfter]
    split
    · exact idle
    · rw [resumed]
      split <;> rfl
  have returned := Prog.eq_of_fst returned
  generalize (recover x startup w.fresh).2 = t at held service ends quiet returned
  refine ⟨t, returned, ?_⟩
  change t.service = serviceAfter j startup w.service at service
  change Ends j w.disk (expected j w.disk) t.disk at ends
  by_cases live : j.phase = .liveVerified
  · have out : expected j w.disk = .renewalFinalized := if_pos live
    rw [serviceAfter, if_pos live] at service
    rw [out] at ends ⊢
    have cleared : Cleared w.disk t.disk := ends
    refine ⟨⟨fun _ => cleared.gone, (fun no => by cases no), cleared.canonical, fun no => absurd rfl no,
      fun _ => service⟩, fun y certain _ _ later => cleared.again certain held quiet later⟩
  · have out : expected j w.disk = decided j w.disk := if_neg live
    rw [serviceAfter, if_neg live] at service
    have up : t.service.up = true ↔ j.resume = true ∧ startup = false := by
      rw [service]
      exact resumed_up _ _
    rcases decided_cases j w.disk with old | pending
    · rw [out, old] at ends ⊢
      have cleared : Cleared w.disk t.disk := ends
      exact ⟨⟨fun _ => cleared.gone, (fun no => by cases no), cleared.canonical, fun _ => up,
        fun no => by cases no⟩, fun y certain _ _ later => cleared.again certain held quiet later⟩
    · rw [out, pending] at ends ⊢
      have paused : Paused j w.disk t.disk := ends
      have awaiting := paused.awaiting ready live (by rw [pending]; decide) unstaged
      exact ⟨⟨fun no => absurd rfl no, fun _ => awaiting, paused.stores _ rfl, fun _ => up,
        fun no => by cases no⟩, fun y certain host policy later =>
          paused.again ready live pending certain host policy held quiet later⟩

/-! ## What recovery asks of the stage -/

theorem holds_of_always {α : Type} {P : Prop} {m : Exec α} (h : P) :
    Prog.Holds m (fun _ _ => P) (fun _ _ => True) (fun _ => True) w := by
  unfold Prog.Holds
  split <;> simp [h]

/-- What the body of a locked operation shows when it returns, the operation
shows. -/
theorem holds_locked_of {α : Type} {P : Prop} {body : Exec α}
    (h : Prog.Holds (do acquire x; body) (fun _ _ => P) (fun _ _ => True) (fun _ => True) w) :
    Prog.Holds (locked x body) (fun _ _ => P) (fun _ _ => True) (fun _ => True) w := by
  unfold locked mask
  rw [Prog.holds_ensure, Prog.holds_handle]
  exact h.mono (fun _ _ shown => holds_of_always shown)
    (fun _ _ _ => Prog.holds_raise _ |>.mpr (holds_of_always trivial)) fun _ _ => trivial

/-- The stage has the name and the size it had. -/
structure StageKept (w t : World) : Prop where
  name : t.disk.dir.visible .stage = w.disk.dir.visible .stage
  size : ∀ i, w.disk.dir.visible .stage = some i → (t.disk.files i).size = (w.disk.files i).size

theorem StageKept.trans {u : World} (h : StageKept w t) (k : StageKept t u) : StageKept w u :=
  ⟨k.name.trans h.name, fun i seen => (k.size i (h.name.trans seen)).trans (h.size i seen)⟩

theorem StageKept.fits (h : StageKept w t) (fits : StageFits t.disk) : StageFits w.disk := by
  intro i seen
  rw [← h.size i seen]
  exact fits i (h.name.trans seen)

theorem Locks.stageKept (h : Locks w t) : StageKept w t :=
  ⟨h.names _ (by decide), fun i seen => by rw [h.files i (w.disk.dir.visible_lt seen)]⟩

theorem stageKept_of_disk (same : t.disk = w.disk) : StageKept w t := by
  constructor <;> simp [same]

/-- A change of a file that is not one of its size. -/
theorem stageKept_modify {i : Nat} {f : Inode → Inode} (same : ∀ file, (f file).size = file.size)
    (name : t.disk.dir.visible .stage = w.disk.dir.visible .stage)
    (files : t.disk.files = (w.disk.modify i f).files) : StageKept w t := by
  refine ⟨name, fun k _ => ?_⟩
  rw [files]
  by_cases hk : k = i
  · subst hk
    simp [Disk.modify, same]
  · simp [Disk.modify, hk]

/-- A step that leaves the stage's name and size alone, whatever becomes of it. -/
abbrev Spares {α : Type} (m : Exec α) : Prop := Prog.Yields StageKept m fun _ _ => True

section
variable {α β : Type} {m : Exec α}

theorem Steadies.spares (h : Steadies m) : Spares m := fun w =>
  (h w).mono (fun _ _ s => ⟨stageKept_of_disk s.1.disk, trivial⟩) (fun _ _ s => stageKept_of_disk s.disk)
    fun _ s => stageKept_of_disk s.disk

theorem spares_bind {f : β → Exec α} {m : Exec β} (h : Spares m) (hf : ∀ b, Spares (f b)) :
    Spares (m >>= f) :=
  (Prog.yields_bind (R := StageKept) (fun _ _ _ h k => h.trans k) h hf fun _ _ _ _ _ t => t).mono
    fun _ _ _ => trivial

theorem spares_primitive (h : Spares m) : Spares (primitive x m) :=
  yields_primitive x (fun _ _ _ h k => StageKept.trans h k) (fun _ => stageKept_of_disk rfl)
    (fun _ _ t => t) h

theorem spares_update {f : World → World} (kept : ∀ w, StageKept w (f w)) : Spares (Prog.update f) :=
  fun w => ⟨kept w, trivial⟩

/-- The stage that a later step finds is the one there was. -/
theorem Spares.keeps (h : Spares m) (now : StageKept w t) :
    Prog.Holds m (fun _ u => StageKept w u) (fun _ _ => True) (fun _ => True) t :=
  (h t).mono (fun _ _ k => now.trans k.1) (fun _ _ _ => trivial) fun _ _ => trivial

end

theorem spares_syncDirectory : Spares (syncDirectory x) :=
  spares_primitive (spares_bind (spares_update fun _ => stageKept_of_disk rfl) fun _ =>
    spares_update fun _ => ⟨rfl, fun _ _ => rfl⟩)

theorem spares_fsyncFile (n : Name) (i : Nat) : Spares (fsyncFile x n i) :=
  spares_primitive (spares_bind (spares_update fun _ => stageKept_of_disk rfl) fun _ =>
    spares_update fun _ =>
      stageKept_modify (f := fun file => { file with stored := file.content }) (fun _ => rfl) rfl rfl)

theorem spares_renameEntry : Spares (renameEntry .rollback .canonical) := by
  refine spares_bind (reads_view View.disk).steady.spares fun d => ?_
  cases d.dir.visible .rollback with
  | none => exact (reads_raise _).steady.spares
  | some i =>
    refine spares_bind (spares_update fun _ => stageKept_of_disk rfl) fun _ => spares_update fun w => ?_
    refine stageKept_modify (f := fun file => { file with stamp := file.stamp + 1 }) (fun _ => rfl) ?_ rfl
    change (w.disk.dir.rename .rollback .canonical).visible .stage = _
    unfold Dir.rename
    split
    · split
      · rfl
      · simp [Change.apply]
    · rfl

theorem spares_loadJournal : Spares (loadJournal x) := by
  refine spares_bind (reads_readJournal x).steady.spares fun j => ?_
  refine spares_bind (reads_lift _).steady.spares fun _ => ?_
  refine spares_bind (spares_update fun _ => stageKept_of_disk rfl) fun _ => ?_
  refine spares_bind (spares_bind reads_getJournal.steady.spares fun _ => ?_) fun _ => ?_
  · exact (reads_demand _ _).steady.spares
  · exact (reads_pure j).steady.spares

theorem spares_establish : Spares (establishLiveVerifiedDurability x) := by
  refine spares_bind reads_getJournal.steady.spares fun _ => ?_
  refine spares_bind (reads_demand _ _).steady.spares fun _ => ?_
  refine spares_bind (reads_status x .journal).steady.spares fun info => ?_
  refine spares_bind (spares_bind (reads_opened x .journal).steady.spares fun i => spares_fsyncFile _ i)
    fun _ => ?_
  refine spares_bind (reads_same x .journal info).steady.spares fun _ => ?_
  exact spares_bind spares_syncDirectory fun _ => (reads_same x .journal info).steady.spares

theorem spares_restoreRollback (rollback canonical : Stat) :
    Spares (restoreRollback x j rollback canonical) := by
  refine spares_bind (reads_stopped x).steady.spares fun _ => ?_
  refine spares_bind (reads_same x .rollback rollback).steady.spares fun _ => ?_
  refine spares_bind (reads_same x .canonical canonical).steady.spares fun _ => ?_
  refine spares_bind (spares_bind (reads_demand _ _).steady.spares fun _ =>
    spares_bind (reads_status x .rollback).steady.spares fun _ => spares_primitive spares_renameEntry)
    fun _ => ?_
  refine spares_bind spares_syncDirectory fun _ => ?_
  refine spares_bind (reads_collectId x .canonical).steady.spares fun _ => ?_
  refine spares_bind (reads_demand _ _).steady.spares fun _ => ?_
  refine spares_bind (reads_status x .canonical).steady.spares fun _ => ?_
  exact (reads_demand _ _).steady.spares

theorem spares_decideRecovery : Spares (decideRecovery x j) := by
  refine spares_bind (reads_status x .canonical).steady.spares fun info => ?_
  refine spares_bind (reads_observeCanonical info).steady.spares fun canonical => ?_
  refine spares_bind (reads_checkRollback j info).steady.spares fun rollback => ?_
  split
  · exact (reads_pure _).steady.spares
  · split
    · exact (reads_pure _).steady.spares
    · cases rollback with
      | none => exact (reads_refuse _).steady.spares
      | some rollback =>
        refine spares_bind (reads_demand _ _).steady.spares fun _ => ?_
        exact spares_bind (spares_restoreRollback rollback info) fun _ => (reads_pure _).steady.spares

/-- A recovery that returns has found a stage it can take, or none, whatever
else failed. -/
theorem recover_finds_stage (startup : Bool) : Prog.Holds (recover x startup)
    (fun _ _ => StageFits w.disk) (fun _ _ => True) (fun _ => True) w := by
  refine holds_locked_of (Prog.holds_bind_of ((acquire_locks x).mono (fun _ _ h => h.1.stageKept)
    (fun _ _ _ => trivial) fun _ _ => trivial) fun _ t ht => ?_)
  -- what a look shows of the stage, it was before
  have shown {α β : Type} {m : Exec β} {f : β → Exec α} {S : β → View → Prop} {t : World}
      (ht : StageKept w t) (r : Reads m S) (fits : ∀ b v, S b v → StageFits v.disk) :
      Prog.Holds (m >>= f) (fun _ _ => StageFits w.disk) (fun _ _ => True) (fun _ => True) t :=
    Prog.holds_bind_of ((r t).mono (fun b _ q => ht.fits (fits b _ q.2)) (fun _ _ _ => trivial)
      fun _ _ => trivial) fun _ _ found => holds_of_always found
  refine Prog.holds_bind_of ((reads_exists x .journal).steady.spares.keeps ht) fun b t ht => ?_
  cases b with
  | false =>
    refine shown ht (reads_noTransaction x) fun _ v free i seen => ?_
    rw [free.2.2.1] at seen
    cases seen
  | true =>
    refine Prog.holds_bind_of (spares_loadJournal.keeps ht) fun j t ht => ?_
    split
    · refine Prog.holds_bind_of (spares_establish.keeps ht) fun _ t ht => ?_
      refine shown ht (reads_validateLiveVerifiedFiles true) fun _ v found i seen => ?_
      obtain ⟨_, _, files⟩ := found
      rw [files.stage] at seen
      cases seen
    · have expecting : Steadies (setProcess fun p => { p with expectStopped := true }) :=
        steadies_process fun _ => ⟨rfl, rfl⟩
      refine Prog.holds_bind_of (expecting.spares.keeps ht) fun _ t ht => ?_
      refine Prog.holds_bind_of ((steadies_stop x).spares.keeps ht) fun _ t ht => ?_
      refine Prog.holds_bind_of (spares_decideRecovery.keeps ht) fun _ t ht => ?_
      exact shown ht (reads_checkStage j) fun _ _ fits => fits

/-! ## What recovery asks of a verified transaction -/

/-- A step that returns, in front of one that may not. -/
theorem Gives.then {α β : Type} {m : Exec β} {f : β → Exec α} {R : β → Scene → Prop} {P : Prop}
    (h : Gives m w.scene R)
    (rest : ∀ b t, R b t.scene → Prog.Holds (f b) (fun _ _ => P) (fun _ _ => True) (fun _ => True) t) :
    Prog.Holds (m >>= f) (fun _ _ => P) (fun _ _ => True) (fun _ => True) w :=
  Prog.holds_bind_of ((h w rfl).mono (fun _ _ h => h) (fun _ _ _ => trivial) fun _ _ => trivial) rest

/-- A recovery of a verified transaction that returns has found it settled. -/
theorem Recoverable.shows_settled (ready : Recoverable x j w.disk) (reliable : x.oracle.Reliable)
    (free : w.held = false) (idle : w.service.keytool = false) (live : j.phase = .liveVerified)
    (startup : Bool) : Prog.Holds (recover x startup) (fun _ _ => Settled j w.disk) (fun _ _ => True)
      (fun _ => True) w := by
  refine holds_locked_of ?_
  refine (gives_acquire reliable ready.sane free idle).then ?_
  rintro _ t ⟨d, k, scene, h⟩
  have same (n : Name) (other : n ≠ .lock) :
      Function.update w.disk.dir.visible .lock (some k) n = w.disk.dir.visible n := by simp [other]
  have ready' := ready.leaves h same
  obtain ⟨i, seen, _⟩ := ready'.record
  refine (finds_exists reliable .journal).then ?_
  rintro _ t₁ ⟨rfl, scene₁⟩
  rw [scene] at scene₁
  rw [if_pos (by simp [scene, seen])]
  refine (finds_loadJournal reliable (j := j) (s := t₁.scene) (by rw [scene₁]; exact ready')).then ?_
  rintro _ t₂ ⟨rfl, scene₂⟩
  rw [scene₁] at scene₂
  rw [if_pos live]
  refine (gives_establish reliable (j := j) (s := t₂.scene) (by rw [scene₂]; exact ready') live
    (by rw [scene₂])).then ?_
  rintro _ t₃ ⟨d', scene₃, h'⟩
  rw [scene₂] at scene₃ h'
  -- what the files show after the barrier they showed before
  refine Prog.holds_bind_of (R := fun _ _ => Settled j w.disk) ?_ fun _ _ settled => holds_of_always settled
  refine (reads_validateLiveVerifiedFiles (x := x) true t₃).mono ?_ (fun _ _ _ => trivial) fun _ _ => trivial
  rintro _ u ⟨_, a, memory, files⟩
  have files : FilesVerified x a true t₃.disk := files
  obtain rfl : j = a := by
    have journal : t₃.process.journal = some j := congrArg (fun s => s.process.journal) scene₃
    exact Option.some.inj (journal.symm.trans memory)
  have disk : t₃.disk = d' := congrArg (fun s => s.disk) scene₃
  have names (n : Name) (other : n ≠ .lock) : t₃.disk.dir.visible n = w.disk.dir.visible n := by
    rw [disk, h'.names]
    change d.dir.visible n = _
    rw [h.names]
    exact same n other
  have dev : t₃.disk.dev = w.disk.dev := by
    rw [disk, h'.dev]
    exact h.dev
  obtain ⟨s, _, found, _, number, _⟩ := files.canonical
  obtain ⟨k, there, rfl⟩ := Option.map_eq_some_iff.mp found
  refine ⟨?_, (names _ (by decide)).symm.trans files.stage, (names _ (by decide)).symm.trans files.journalNew⟩
  rw [← names _ (by decide), there, Option.map_some, ← dev, ← number]
  have sound : Sane t₃.disk := by
    rw [disk]
    exact h'.sane
  rw [sound.fileId there]

/-! ## The condition -/

/-- What a verified journal must go with, for its recovery: no temporary
journal, and the stage as the canonical store. Only a power loss can leave
anything else. -/
def Verifiable (j : Journal) (d : Disk) : Prop :=
  j.phase = .liveVerified →
    d.dir.visible .journalNew = none ∧ d.fileId .canonical = j.stageInode

/-- A recovery in which nothing fails converges from every reachable state with a
journal of the executor's policy, exactly when a verified transaction is left
with its stage as the canonical store and no temporary journal, and keytool left
no stage that is too large. -/
theorem recovery_converges_iff (h : Reachable g w) (host : x.host = g.host)
    (reliable : x.oracle.Reliable) (free : w.held = false) (idle : w.service.keytool = false)
    (record : w.disk.dir.visible .journal = some l) (content : (w.disk.files l).content = .journal j)
    (policy : j.policyDigest = x.policy.digest)
    (owned : ∀ i, w.disk.dir.visible .stage = some i →
      (w.disk.files i).uid = abc ∧ (w.disk.files i).gid = abc) (startup : Bool) :
    Converges x startup j w ↔ Verifiable j w.disk ∧ StageFits w.disk := by
  have inv := h.inv
  obtain ⟨ok, fits⟩ := inv.journal_ok record content
  have ready (small : StageFits w.disk) : Recoverable x j w.disk :=
    inv.recoverable host owned small record content policy
  have unstaged (same : w.disk.fileId .canonical = j.stageInode) : w.disk.dir.visible .stage = none := by
    rcases fits.canonical with old | ⟨_, _, none, _⟩
    · rw [Disk.fileId, old, Option.map_some] at same
      exact absurd rfl (ok.supported.proper.stage _ same.symm).2
    · exact none
  constructor
  · rintro ⟨t, returned, _⟩
    have small : StageFits w.disk := (recover_finds_stage (w := w.fresh) startup).ok returned
    refine ⟨fun live => ?_, small⟩
    have settled := ((ready small).shows_settled (w := w.fresh) reliable free idle live startup).ok returned
    exact ⟨settled.journalNew, settled.canonical⟩
  · rintro ⟨verifiable, small⟩
    refine (ready small).converges reliable free idle (fun live => ?_) unstaged startup
    obtain ⟨temporary, canonical⟩ := verifiable live
    exact ⟨canonical, unstaged canonical, temporary⟩

/-- After an installation. -/
theorem installed_state_converges : Converges (Sample.session []) false Sample.pending Sample.installed :=
  (recovery_converges_iff (g := Sample.setting false) (l := 12) (Sample.reachable_installed false) rfl
    Sample.reliable (by decide +kernel) (by decide +kernel) (by decide +kernel) (by decide +kernel) rfl
    (fun i seen => by rw [Sample.names] at seen; cases seen) false).mpr
      ⟨(fun live => nomatch live), fun i seen => by rw [Sample.names] at seen; cases seen⟩

/-- A commit, a recovery and a verification, each killed before its last sync,
and a power loss that keeps all but the first of their changes. -/
def Sample.reordered : List Move :=
  [.operate (session [(265, .killAfter)]) (.install request),
    .operate (session [(350, .killAfter)]) (.recover false),
    .operate (session [(443, .killAfter)]) .verifyPending,
    .powerLoss [false, true, true, true, true] (fun _ => .other []) ⟨true, true, false⟩]

/-- The journal is live-verified and the canonical store is the old one:
recovery refuses. -/
theorem reordered_state_is_refused :
    ¬ ∀ g w, Reachable g w → ∀ x : Session, x.host = g.host → x.oracle.Reliable → w.held = false →
      w.service.keytool = false → ∀ l j, w.disk.dir.visible .journal = some l →
      (w.disk.files l).content = .journal j → j.policyDigest = x.policy.digest →
      (∀ i, w.disk.dir.visible .stage = some i →
        (w.disk.files i).uid = abc ∧ (w.disk.files i).gid = abc) →
      ∀ startup, Converges x startup j w := by
  intro every
  have reached : Reachable (Sample.setting false) (run Sample.reordered Sample.start) :=
    ⟨_, Sample.leads (by simp [Sample.reordered, Move.On, Sample.session])⟩
  have owned : ∀ i, (run Sample.reordered Sample.start).disk.dir.visible .stage = some i →
      ((run Sample.reordered Sample.start).disk.files i).uid = abc ∧
        ((run Sample.reordered Sample.start).disk.files i).gid = abc := by
    intro i seen
    have stage : (run Sample.reordered Sample.start).disk.dir.visible .stage = some 5 := by decide +kernel
    obtain rfl : 5 = i := Option.some.inj (stage.symm.trans seen)
    decide +kernel
  obtain ⟨t, returned, _⟩ := every _ _ reached (Sample.session []) rfl Sample.reliable (by decide +kernel)
    (by decide +kernel) 11 { Sample.pending with phase := .liveVerified } (by decide +kernel)
    (by decide +kernel) rfl owned false
  have refused : (recover (Sample.session []) false (run Sample.reordered Sample.start).fresh).1 ≠
      .ok .renewalFinalized := by decide +kernel
  refine refused ?_
  rw [returned]
  rfl

end

end CertRenewer
