import CertRenewer.Convergence

/-!
# The startup normaliser and the executor agree

The normaliser's table of states is written apart from the code that leaves
them and from the code that recovers them. Whatever the executor leaves while
the power holds is in the table, unless a recovery moved the rollback over
another store and was cut off, or keytool left a stage larger than any store;
and whatever is in the table is recovered.
-/

namespace CertRenewer

open Crash

/-! ## The table -/

section
variable {d : Disk} {j : Journal} {n : Name} {i : Nat} {temporary : Bool}

/-- A store the normaliser can trust, or none. -/
def Trusted (d : Disk) (n : Name) : Prop :=
  ∀ i, d.dir.visible n = some i → (d.files i).regular = true ∧ (d.files i).mode = 0o600 ∧
    (d.files i).uid = abc ∧ (d.files i).gid = abc ∧ (d.files i).dev = d.dev ∧
    (d.files i).size ≤ maxStore ∧ d.links i ∈ n.linkCounts

theorem transactionEntry_eq_ok {r : Option Stat} :
    transactionEntry d n = .ok r ↔ r = d.stat n ∧ Trusted d n := by
  unfold transactionEntry Trusted
  cases seen : d.dir.visible n with
  | none =>
    rw [show d.stat n = none by simp [Disk.stat, seen]]
    exact ⟨fun h => ⟨(Except.ok.inj h).symm, fun _ no => by cases no⟩, fun h => by rw [h.1]⟩
  | some i =>
    rw [Disk.stat_eq seen]
    simp only [bind_eq_ok, require_eq_ok, Except.ok.injEq, exists_const, Bool.and_eq_true, beq_iff_eq,
      decide_eq_true_eq, List.contains_iff_mem, and_assoc]
    constructor
    · rintro ⟨regular, mode, uid, gid, dev, size, links, rfl⟩
      refine ⟨rfl, fun l hl => ?_⟩
      cases hl
      exact ⟨regular, mode, uid, gid, dev, size, links⟩
    · rintro ⟨rfl, trusted⟩
      obtain ⟨regular, mode, uid, gid, dev, size, links⟩ := trusted i rfl
      exact ⟨regular, mode, uid, gid, dev, size, links, rfl⟩

/-- The files the stores' names denote. -/
def Disk.fileId (d : Disk) (n : Name) : Option FileId := (d.dir.visible n).map (FileId.mk d.dev)

theorem Trusted.fileId (h : Trusted d n) : (d.stat n).map Stat.fileId = d.fileId n := by
  unfold Disk.stat Disk.fileId
  cases seen : d.dir.visible n with
  | none => rfl
  | some i => simp [Disk.statOf, Stat.fileId, (h i seen).2.2.2.2.1]

/-- The rows of the table: what a journal allows the canonical store, the
rollback and the stage to be. -/
structure Tabled (j : Journal) (temporary : Bool) (c : FileId) (r t : Option FileId) : Prop where
  valid : j.validate = .ok ()
  progress : j.progress ∈ allowedProgress j.phase
  canonical : some c ∈ allowedCanonical j
  rollback : ∀ f, r = some f → f = j.oldInode
  stage : ∀ f, t = some f → j.stageInode = none ∨ some f = j.stageInode
  early : j.phase ∉ [.recoveredOld, .recoveryRequired] → j.progress = .initial → t = none ∧ r = none
  staging : j.phase ∉ [.recoveredOld, .recoveryRequired] → j.progress = .staging → r = none
  committed : j.phase ∈ committedPhases ∨ j.phase = .liveVerified → t = none
  staged : j.phase ≠ .recoveredOld → j.progress ≠ .staging → stageRequired j c = t.isSome
  required : rollbackRequired j = true → r ≠ none
  unlinked : r ≠ none → j.progress = .initial ∨ j.progress = .staging → j.phase = .recoveredOld
  known : temporary = true → j.phase ∈ journalNewPhases

/-- The checks in the order the normaliser makes them. -/
theorem tabled_iff {c : Stat} {r t : Option Stat} :
    Tabled j temporary c.fileId (r.map Stat.fileId) (t.map Stat.fileId) ↔
      j.validate = .ok () ∧ j.progress ∈ allowedProgress j.phase ∧
      some c.fileId ∈ allowedCanonical j ∧ (r.all fun s => s.fileId == j.oldInode) = true ∧
      (j.stageInode.isNone = true ∨ (t.all fun s => some s.fileId == j.stageInode) = true) ∧
      ¬(j.phase ∉ [.recoveredOld, .recoveryRequired] ∧ j.progress = .initial ∧
        (t.isSome = true ∨ r.isSome = true)) ∧
      ¬(j.phase ∉ [.recoveredOld, .recoveryRequired] ∧ j.progress = .staging ∧ r.isSome = true) ∧
      ¬((j.phase ∈ committedPhases ∨ j.phase = .liveVerified) ∧ t.isSome = true) ∧
      ¬(j.phase ≠ .recoveredOld ∧ j.progress ≠ .staging ∧ stageRequired j c.fileId ≠ t.isSome) ∧
      ¬(rollbackRequired j = true ∧ r.isNone = true) ∧
      ¬(r.isSome = true ∧ (j.progress = .initial ∨ j.progress = .staging) ∧ j.phase ≠ .recoveredOld) ∧
      ¬(temporary = true ∧ j.phase ∉ journalNewPhases) := by
  constructor
  · intro h
    refine ⟨h.valid, h.progress, h.canonical, ?_, ?_, ?_, ?_, ?_, ?_, ?_, ?_, ?_⟩
    · have rollback := h.rollback
      cases r <;> simp_all
    · have stage := h.stage
      cases t <;> simp_all
    · rintro ⟨phase, progress, there⟩
      have early := h.early phase progress
      simp_all
    · rintro ⟨phase, progress, there⟩
      have staging := h.staging phase progress
      simp_all
    · rintro ⟨phase, there⟩
      have committed := h.committed phase
      simp_all
    · rintro ⟨phase, progress, differs⟩
      have staged := h.staged phase progress
      simp_all
    · rintro ⟨required, gone⟩
      have kept := h.required required
      simp_all
    · rintro ⟨there, progress, phase⟩
      refine phase (h.unlinked ?_ progress)
      rw [Option.isSome_iff_ne_none] at there
      simpa using there
    · rintro ⟨there, phase⟩
      exact phase (h.known there)
  · rintro ⟨valid, progress, canonical, rollback, stage, early, staging, committed, staged, required, unlinked,
      known⟩
    refine ⟨valid, progress, canonical, ?_, ?_, fun phase initial => ?_, fun phase staged => ?_,
      fun phase => ?_, fun phase progress => ?_, fun needed gone => ?_, fun there progress => ?_,
      fun there => ?_⟩
    · cases r <;> simp_all
    · cases t <;> simp_all
    · have none := not_and.mp (not_and.mp early phase) initial
      cases r <;> cases t <;> simp_all
    · have none := not_and.mp (not_and.mp staging phase) staged
      cases r <;> simp_all
    · have none := not_and.mp committed phase
      cases t <;> simp_all
    · have same := not_and.mp (not_and.mp staged phase) progress
      simpa using same
    · refine required ⟨needed, ?_⟩
      cases r <;> simp_all
    · by_contra phase
      refine unlinked ⟨?_, progress, phase⟩
      cases r <;> simp_all
    · by_contra phase
      exact known ⟨there, phase⟩

theorem validateNormalizationTransaction_eq_ok :
    validateNormalizationTransaction d j temporary = .ok () ↔
      Trusted d .canonical ∧ Trusted d .rollback ∧ Trusted d .stage ∧
      ∃ c, d.fileId .canonical = some c ∧ Tabled j temporary c (d.fileId .rollback) (d.fileId .stage) := by
  simp only [validateNormalizationTransaction, bind_eq_ok, require_eq_ok, orFail_eq_ok,
    transactionEntry_eq_ok, exists_const]
  constructor
  · rintro ⟨⟨⟩, valid, progress, _, ⟨rfl, canonical⟩, c, seen, named, _, ⟨rfl, rollback⟩, old, _,
      ⟨rfl, stage⟩, rest⟩
    refine ⟨canonical, rollback, stage, c.fileId, ?_, ?_⟩
    · rw [← canonical.fileId, seen, Option.map_some]
    · rw [← rollback.fileId, ← stage.fileId]
      exact tabled_iff.mpr ⟨valid, progress, named, old, rest⟩
  · rintro ⟨canonical, rollback, stage, _, seen, tabled⟩
    rw [← canonical.fileId] at seen
    obtain ⟨c, found, rfl⟩ := Option.map_eq_some_iff.mp seen
    rw [← rollback.fileId, ← stage.fileId] at tabled
    obtain ⟨valid, progress, named, old, rest⟩ := tabled_iff.mp tabled
    exact ⟨(), valid, progress, _, ⟨rfl, canonical⟩, c, found, named, _, ⟨rfl, rollback⟩, old, _,
      ⟨rfl, stage⟩, rest⟩

/-! ## What is accepted is recovered -/

section
variable {c : FileId} {r t : Option FileId}

theorem Tabled.committable (h : Tabled j temporary c r t)
    (phase : j.phase ∈ committedPhases ∨ j.phase = .liveVerified ∨ j.phase = .commitPossible) :
    j.progress = .committable := by
  have progress := h.progress
  simp only [committedPhases, List.mem_cons, List.not_mem_nil, or_false] at phase
  rcases phase with (phase | phase | phase) | phase | phase <;> rw [phase] at progress <;>
    exact List.mem_singleton.mp progress

/-- The canonical store is the old one, or a committed stage with its rollback. -/
theorem Tabled.canonical_cases (h : Tabled j temporary c r t) : c = j.oldInode ∨
    (j.stageInode = some c ∧ j.progress = .committable ∧ (r ≠ none ∨ j.phase = .liveVerified)) := by
  have canonical := h.canonical
  unfold allowedCanonical at canonical
  split at canonical
  · rename_i phase
    have committable := h.committable (phase.imp_right Or.inl)
    refine Or.inr ⟨(List.mem_singleton.mp canonical).symm, committable, ?_⟩
    rcases phase with phase | live
    · refine Or.inl (h.required ?_)
      simp [rollbackRequired, phase]
    · exact Or.inr live
  · split at canonical
    · rename_i phase
      rcases List.mem_cons.mp canonical with old | stage
      · exact Or.inl (Option.some.inj old)
      · have committable : j.progress = .committable := by
          rcases phase with phase | ⟨_, committable⟩
          · exact h.committable (Or.inr (Or.inr phase))
          · exact committable
        refine Or.inr ⟨(List.mem_singleton.mp stage).symm, committable, Or.inl (h.required ?_)⟩
        rcases phase with phase | ⟨phase, _⟩ <;> simp [rollbackRequired, phase, committable]
    · exact Or.inl (Option.some.inj (List.mem_singleton.mp canonical))

end

theorem links_alone {m : Name} (one : d.links i = 1) (hn : d.dir.visible n = some i)
    (hm : d.dir.visible m = some i) : m = n := by
  have count : (Name.all.filter fun n => d.dir.visible n = some i).length ≤ 1 := by
    rw [← List.countP_eq_length_filter]
    unfold Disk.links at one
    omega
  have member (k : Name) (hk : d.dir.visible k = some i) :
      k ∈ Name.all.filter fun n => d.dir.visible n = some i := by
    refine List.mem_filter.mpr ⟨?_, by simpa using hk⟩
    cases k <;> decide
  match found : Name.all.filter fun n => d.dir.visible n = some i with
  | [] =>
    have none := member n hn
    rw [found] at none
    cases none
  | [k] =>
    have first := member n hn
    have second := member m hm
    rw [found, List.mem_singleton] at first second
    rw [first, second]
  | _ :: _ :: _ =>
    rw [found] at count
    simp at count

/-- A disk whose own files the executor trusts, whose files have no other names,
and whose stores hold what the journal says of their numbers. -/
structure Aligned (x : Session) (j : Journal) (d : Disk) : Prop where
  record : ∃ l, d.dir.visible .journal = some l ∧ (d.files l).content = .journal j
  policy : j.policyDigest = x.policy.digest
  differs : j.stageInode ≠ some j.oldInode
  own : ∀ n i, n.isStore = false → d.dir.visible n = some i → (d.statOf i).safe n d.dev = true
  links : ∀ n i, d.dir.visible n = some i → (d.files i).outside = 0
  old : ∀ n i, n.keeper = true → d.dir.visible n = some i → j.oldInode = ⟨d.dev, i⟩ →
    x.host.Reads (d.files i).content j.old
  issued : ∀ n i id, n.keeper = true → d.dir.visible n = some i → j.stageInode = some ⟨d.dev, i⟩ →
    j.issued = some id → x.host.Reads (d.files i).content id

theorem Aligned.sane {x : Session} (h : Aligned x j d) (canonical : Trusted d .canonical)
    (rollback : Trusted d .rollback) (stage : Trusted d .stage) : Sane d := by
  have own (n : Name) (i : Nat) (store : n.isStore = false) (seen : d.dir.visible n = some i) :
      (d.files i).Sound n d.dev ∧ d.links i ∈ n.linkCounts := by
    have safe := h.own n i store seen
    simp only [Stat.safe, Disk.statOf, Bool.and_eq_true, beq_iff_eq, List.contains_iff_mem] at safe
    obtain ⟨⟨⟨⟨⟨⟨regular, mode⟩, uid⟩, gid⟩, dev⟩, size⟩, links⟩ := safe
    exact ⟨⟨regular, mode, ⟨uid, gid⟩, dev, of_decide_eq_true size, h.links n i seen⟩, links⟩
  have trusted (n : Name) (i : Nat) (store : n.owner = abc) (ok : Trusted d n)
      (seen : d.dir.visible n = some i) : (d.files i).Sound n d.dev ∧ d.links i ∈ n.linkCounts := by
    obtain ⟨regular, mode, uid, gid, dev, size, links⟩ := ok i seen
    exact ⟨⟨regular, mode, ⟨uid.trans store.symm, gid.trans store.symm⟩, dev, size, h.links n i seen⟩, links⟩
  have all (n : Name) (i : Nat) (seen : d.dir.visible n = some i) :
      (d.files i).Sound n d.dev ∧ d.links i ∈ n.linkCounts := by
    cases n with
    | canonical => exact trusted _ i rfl canonical seen
    | stage => exact trusted _ i rfl stage seen
    | rollback => exact trusted _ i rfl rollback seen
    | journal => exact own _ i rfl seen
    | journalNew => exact own _ i rfl seen
    | lock => exact own _ i rfl seen
  refine ⟨fun n m i hn hm => ?_, fun n i seen => (all n i seen).1⟩
  have single (n : Name) (i : Nat) (seen : d.dir.visible n = some i) (other : n.keeper = false) :
      d.links i = 1 := by
    have links := (all n i seen).2
    cases n <;> first | exact List.mem_singleton.mp links | cases other
  by_cases kn : n.keeper = true
  · by_cases km : m.keeper = true
    · exact Or.inr ⟨kn, km⟩
    · exact Or.inl (links_alone (single m i hm (Bool.eq_false_iff.mpr km)) hm hn)
  · exact Or.inl (links_alone (single n i hn (Bool.eq_false_iff.mpr kn)) hn hm).symm

theorem Aligned.recoverable {x : Session} (h : Aligned x j d) (canonical : Trusted d .canonical)
    (rollback : Trusted d .rollback) (stage : Trusted d .stage) {c : FileId}
    (seen : d.fileId .canonical = some c)
    (tabled : Tabled j temporary c (d.fileId .rollback) (d.fileId .stage)) : Recoverable x j d where
  record := h.record
  sane := h.sane canonical rollback stage
  valid := tabled.valid
  policy := h.policy
  canonical := by
    obtain ⟨i, named, rfl⟩ := Option.map_eq_some_iff.mp seen
    refine ⟨i, named, ?_⟩
    rcases tabled.canonical_cases with old | ⟨stage, committable, kept⟩
    · exact Or.inl ⟨old.symm, h.old _ i rfl named old.symm⟩
    · obtain ⟨issued, _, _, possible⟩ := Journal.fields_of_committable committable
      obtain ⟨id, hid⟩ := Option.isSome_iff_exists.mp issued
      refine Or.inr ⟨stage, fun same => h.differs (stage.trans (congrArg some same.symm)), possible,
        ⟨id, hid, h.issued _ i id rfl named stage hid⟩, kept.imp_left fun there none => there ?_⟩
      rw [Disk.fileId, none, Option.map_none]
  rollback i named := by
    have old := tabled.rollback ⟨d.dev, i⟩ (by rw [Disk.fileId, named, Option.map_some])
    exact ⟨old.symm, h.old _ i rfl named old.symm⟩
  stage i named f hf := by
    rcases tabled.stage ⟨d.dev, i⟩ (by rw [Disk.fileId, named, Option.map_some]) with none | same
    · rw [none] at hf
      cases hf
    · rw [hf] at same
      exact (Option.some.inj same).symm

theorem Tabled.settled {c : FileId} (tabled : Tabled j (d.dir.visible .journalNew).isSome c
      (d.fileId .rollback) (d.fileId .stage)) (seen : d.fileId .canonical = some c)
    (live : j.phase = .liveVerified) : Settled j d where
  canonical := by
    have canonical := tabled.canonical
    rw [allowedCanonical, if_pos (Or.inr live), List.mem_singleton] at canonical
    exact seen.trans canonical
  stage := by simpa [Disk.fileId] using tabled.committed (Or.inr live)
  journalNew := by
    by_contra there
    have known := tabled.known (Option.isSome_iff_ne_none.mpr there)
    rw [live] at known
    exact absurd known (by decide)

/-- What the normaliser accepts, recovery brings to the end its journal has. -/
theorem Aligned.recovers {x : Session} {s : Scene} (reliable : x.oracle.Reliable)
    (aligned : Aligned x j s.disk) (free : s.held = false) (idle : s.service.keytool = false)
    (accepted : validateNormalizationTransaction s.disk j (s.disk.dir.visible .journalNew).isSome =
      .ok ()) :
    Gives (recover x true) s fun outcome _ => outcome = expected j s.disk := by
  obtain ⟨canonical, rollback, stage, c, seen, tabled⟩ :=
    validateNormalizationTransaction_eq_ok.mp accepted
  have ready := aligned.recoverable canonical rollback stage seen tabled
  exact (gives_recover reliable ready (fun live => tabled.settled seen live) free idle true).mono
    fun _ _ ends => ends.1

/-! ## What the executor leaves is accepted -/

/-- The container's init gave these files to the UniFi user. -/
def Disk.chown (d : Disk) (given : Nat → Bool) : Disk :=
  { d with files := fun i => if given i then { d.files i with uid := abc, gid := abc } else d.files i }

section
variable {g : Setting} {w : World} {given : Nat → Bool} {l : Nat}

theorem rollbackRequired_cases (progress : j.progress ∈ allowedProgress j.phase)
    (required : rollbackRequired j = true) : j.phase ≠ .recoveredOld ∧ j.phase ≠ .liveVerified ∧
      (j.progress = .rolledBack ∨ j.progress = .committable) := by
  unfold rollbackRequired at required
  cases phase : j.phase <;> rw [phase] at required progress <;>
    simp_all [committedPhases, allowedProgress]

/-- The names that go with a journal while the power holds are in the table. -/
theorem Snug.tabled {ns : Names Name} (proper : j.Proper g) (fits : Fits g j ns) (snug : Snug g j ns)
    (calm : j.phase = .liveVerified → temporary = false) :
    ∃ c, (ns .canonical).map (FileId.mk g.dev) = some c ∧
      Tabled j temporary c ((ns .rollback).map (FileId.mk g.dev)) ((ns .stage).map (FileId.mk g.dev)) := by
  have old : j.oldInode = ⟨g.dev, j.oldInode.ino⟩ := by rw [← proper.oldDev]
  have chain := progress_mem_chain proper.progress
  obtain ⟨i, seen, which⟩ : ∃ i, ns .canonical = some i ∧ ((i = j.oldInode.ino ∧
      ¬(j.phase ∈ committedPhases ∨ j.phase = .liveVerified)) ∨ (j.stageInode = some ⟨g.dev, i⟩ ∧
      j.progress = .committable ∧ ns .stage = none ∧ i ≠ j.oldInode.ino)) := by
    rcases fits.canonical with same | ⟨possible, ⟨i, stage, seen⟩, unstaged, _⟩
    · refine ⟨_, same, Or.inl ⟨rfl, fun committed => ?_⟩⟩
      obtain ⟨i, stage, seen⟩ := snug.committed committed
      exact (proper.stage _ stage).2 (Option.some.inj (seen.symm.trans same))
    · exact ⟨i, seen, Or.inr ⟨stage, committable_of_commit chain possible, unstaged,
        (proper.stage _ stage).2⟩⟩
  refine ⟨⟨g.dev, i⟩, by rw [seen, Option.map_some], proper.validate, proper.progress, ?_, ?_, ?_, ?_, ?_,
    ?_, ?_, ?_, ?_, ?_⟩
  · unfold allowedCanonical
    rcases which with ⟨rfl, uncommitted⟩ | ⟨stage, committable, _, differs⟩
    · rw [if_neg uncommitted, ← old]
      split <;> simp
    · have active : j.phase ≠ .recoveredOld := fun recovered =>
        differs (Option.some.inj (seen.symm.trans (snug.recovered recovered)))
      have progress := proper.progress
      rw [stage]
      split
      · simp
      · split
        · simp
        · rename_i uncommitted impossible
          rw [committable] at progress impossible
          cases phase : j.phase <;> rw [phase] at progress uncommitted impossible active <;>
            simp [allowedProgress, committedPhases, Progress.committable, Progress.initial,
              Progress.staging, Progress.staged, Progress.rolledBack] at progress uncommitted impossible active
  · intro f hf
    obtain ⟨k, there, rfl⟩ := Option.map_eq_some_iff.mp hf
    rcases fits.rollback with none | same
    · rw [none] at there
      cases there
    · rw [old, ← Option.some.inj (same.symm.trans there)]
  · intro f hf
    obtain ⟨k, there, rfl⟩ := Option.map_eq_some_iff.mp hf
    cases stage : j.stageInode with
    | none => exact Or.inl rfl
    | some f =>
      have number := (fits.stage k there).2 f stage
      have device := (proper.stage f stage).1
      refine Or.inr (congrArg some ?_)
      rw [← number, ← device]
  · intro phase initial
    have active : j.phase ≠ .recoveredOld := fun no => phase (by simp [no])
    rw [snug.early active initial, snug.unlinked active (Or.inl initial)]
    exact ⟨rfl, rfl⟩
  · intro phase staging
    rw [snug.unlinked (fun no => phase (by simp [no])) (Or.inr staging)]
    rfl
  · intro committed
    rcases which with ⟨_, uncommitted⟩ | ⟨_, _, unstaged, _⟩
    · exact absurd committed uncommitted
    · rw [unstaged, Option.map_none]
  · intro active unstaging
    have staged := snug.staged active
    have early := snug.early active
    simp only [Progress.chain, List.mem_cons, List.not_mem_nil, or_false] at chain
    rcases which with ⟨rfl, _⟩ | ⟨_, committable, unstaged, differs⟩
    · rcases chain with h | h | h | h | h
      · rw [early h]
        simp [stageRequired, h, Progress.initial, Progress.staged, Progress.rolledBack, Progress.committable]
      · exact absurd h unstaging
      · have there := staged (Or.inl h)
        simpa [stageRequired, h] using Option.isSome_iff_ne_none.mpr there
      · have there := staged (Or.inr (Or.inl h))
        simpa [stageRequired, h] using Option.isSome_iff_ne_none.mpr there
      · have there := staged (Or.inr (Or.inr ⟨h, seen⟩))
        simpa [stageRequired, h, ← old] using Option.isSome_iff_ne_none.mpr there
    · have other : (FileId.mk g.dev i == j.oldInode) = false := by
        rw [beq_eq_false_iff_ne, old]
        exact fun same => differs (congrArg FileId.ino same)
      simp [stageRequired, committable, unstaged, other, Progress.staged, Progress.rolledBack,
        Progress.committable]
  · intro required
    obtain ⟨active, unverified, progress⟩ := rollbackRequired_cases proper.progress required
    rw [snug.linked active unverified progress]
    simp
  · intro there progress
    by_contra active
    rw [snug.unlinked active progress] at there
    exact there rfl
  · intro there
    have unverified : j.phase ≠ .liveVerified := fun live => by
      rw [calm live] at there
      cases there
    cases phase : j.phase <;> first | decide | exact absurd phase unverified

theorem Inv.tabled (inv : Inv g w) (powered : g.powered = true) (unrestored : Unrestored w.trace)
    (record : w.disk.dir.visible .journal = some l) (content : (w.disk.files l).content = .journal j) :
    ∃ c, w.disk.fileId .canonical = some c ∧ Tabled j (w.disk.dir.visible .journalNew).isSome c
      (w.disk.fileId .rollback) (w.disk.fileId .stage) := by
  obtain ⟨ok, fits⟩ := inv.journal_ok record content
  have sealed := inv.sealed_of_content record content
  have tidy := inv.tidy powered
  have calm (live : j.phase = .liveVerified) : (w.disk.dir.visible .journalNew).isSome = false := by
    rw [tidy.calm l j record sealed live]
    rfl
  have tabled := (tidy.snug unrestored l j record sealed).tabled ok.supported.proper fits calm
  simpa only [Disk.fileId, inv.dev] using tabled

end

/-! ## Ownership is restored -/

/-- What `repairOwner` makes of a file. -/
def Inode.repaired (f : Inode) : Inode :=
  { f with uid := 0, gid := 0, mode := 0o600, stored := f.content }

def Disk.repair (d : Disk) (files : List Nat) : Disk :=
  { d with files := fun i => if i ∈ files then (d.files i).repaired else d.files i }

theorem Disk.repair_cons (d : Disk) (i : Nat) (files : List Nat) :
    (d.modify i Inode.repaired).repair files = d.repair (i :: files) := by
  unfold Disk.repair Disk.modify
  congr 1
  funext l
  by_cases same : l = i
  · subst same
    by_cases member : l ∈ files <;> simp [member, Inode.repaired]
  · simp [same]

theorem Disk.links_repair (d : Disk) (files : List Nat) (i : Nat) : (d.repair files).links i = d.links i := by
  have outside : ((d.repair files).files i).outside = (d.files i).outside := by
    unfold Disk.repair
    simp only
    split <;> rfl
  unfold Disk.links
  rw [outside]
  rfl

/-- An executor file that may be given back to root. -/
def AdminOk (d : Disk) (entry : AdminEntry) : Prop :=
  d.dir.visible entry.name = some entry.file ∧ entry.found = d.statOf entry.file ∧
    entry.found.adminSafe entry.name d.dev = true

section
variable {x : Session} (reliable : x.oracle.Reliable) {s : Scene}
include reliable

theorem gives_repairOwner (entry : AdminEntry) : Gives (repairOwner x entry) s fun _ t =>
    t = { s with disk := s.disk.modify entry.file Inode.repaired } := by
  refine gives_bind (gives_primitive reliable (gives_setDisk _)) ?_
  rintro _ _ rfl
  refine gives_bind (gives_primitive reliable (gives_setDisk _)) ?_
  rintro _ _ rfl
  refine (gives_primitive reliable (finds_then (finds_emit _) (gives_setDisk _))).mono ?_
  rintro _ _ rfl
  simp [Disk.modify, Inode.repaired]

theorem gives_repairs (entries : List AdminEntry) : Gives (entries.forM (repairOwner x)) s fun _ t =>
    t = { s with disk := s.disk.repair (entries.map AdminEntry.file) } := by
  induction entries generalizing s with
  | nil =>
    refine (finds_pure ()).mono ?_
    rintro _ _ ⟨_, rfl⟩
    simp [Disk.repair]
  | cons entry rest ih =>
    refine gives_bind (gives_repairOwner reliable entry) ?_
    rintro _ _ rfl
    refine ih.mono ?_
    rintro _ _ rfl
    rw [List.map_cons, ← Disk.repair_cons]

theorem finds_recheck {entry : AdminEntry} {files : List Nat} (ok : AdminOk s.disk entry) :
    Finds (recheckEntry x entry) { s with disk := s.disk.repair files } () := by
  obtain ⟨seen, found, safe⟩ := ok
  have seen' : (s.disk.repair files).dir.visible entry.name = some entry.file := seen
  refine gives_primitive reliable (finds_then (finds_read fun s => s.disk) ?_)
  simp only [Disk.stat_eq seen']
  refine Gives.mono (finds_demand _ ?_) fun _ _ h => ⟨trivial, h.2⟩
  rw [found] at safe ⊢
  simp only [Stat.adminSafe, Bool.and_eq_true, beq_iff_eq] at safe
  have links := s.disk.links_repair files entry.file
  obtain ⟨⟨⟨⟨⟨regular, mode⟩, _⟩, dev⟩, _⟩, nlink⟩ := safe
  refine ⟨?_, ?_, ?_, links.trans nlink⟩
  all_goals
    simp only [Disk.statOf, Stat.fileId, Disk.repair]
    split <;> first | rfl | exact regular | exact mode

theorem finds_rechecks {entries : List AdminEntry} {files : List Nat}
    (ok : ∀ entry ∈ entries, AdminOk s.disk entry) :
    Finds (entries.forM (recheckEntry x)) { s with disk := s.disk.repair files } () := by
  induction entries with
  | nil => exact finds_pure ()
  | cons entry rest ih =>
    refine finds_then (finds_recheck reliable (ok entry (by simp))) ?_
    exact ih fun e he => ok e (by simp [he])

theorem finds_pathExists (n : Name) : Finds (pathExists x n) s (s.disk.dir.visible n).isSome :=
  gives_primitive reliable (finds_read fun s => (s.disk.dir.visible n).isSome)

theorem finds_adminEntry (seen : s.disk.dir.visible n = some i)
    (safe : (s.disk.statOf i).adminSafe n s.disk.dev = true) :
    Finds (adminEntry x n) s ⟨n, i, s.disk.statOf i⟩ := by
  refine finds_then (finds_number reliable seen) (gives_primitive reliable ?_)
  refine finds_then (finds_read fun s => s.disk) ?_
  simp only [Disk.stat_eq seen]
  exact finds_then (finds_demand _ ⟨safe, rfl⟩) (finds_pure _)

theorem gives_adminEntryIfPresent (n : Name) (safe : ∀ i, s.disk.dir.visible n = some i →
      (s.disk.statOf i).adminSafe n s.disk.dev = true) :
    Gives (adminEntryIfPresent x n) s fun entries t => s = t ∧
      (∀ entry ∈ entries, AdminOk s.disk entry) ∧
      ((s.disk.dir.visible n = none ∧ entries = []) ∨
        ∃ i, s.disk.dir.visible n = some i ∧ entries = [⟨n, i, s.disk.statOf i⟩]) := by
  refine finds_then (finds_pathExists reliable n) ?_
  cases seen : s.disk.dir.visible n with
  | none =>
    refine (finds_pure []).mono ?_
    rintro _ _ ⟨rfl, same⟩
    exact ⟨same.symm, by simp, Or.inl ⟨rfl, rfl⟩⟩
  | some i =>
    refine finds_then (finds_adminEntry reliable seen (safe i seen)) ((finds_pure _).mono ?_)
    rintro _ _ ⟨rfl, same⟩
    refine ⟨same.symm, ?_, Or.inr ⟨i, rfl, rfl⟩⟩
    simp only [List.mem_singleton, forall_eq]
    exact ⟨seen, rfl, safe i seen⟩

end

/-- The executor's files are root's again, and nothing else changed. -/
structure Restored (d d' : Disk) : Prop where
  names : d'.dir.visible = d.dir.visible
  dev : d'.dev = d.dev
  root : ∀ n i, n.isStore = false → d.dir.visible n = some i →
    (d'.files i).uid = 0 ∧ (d'.files i).gid = 0 ∧ (d'.files i).mode = 0o600
  kept : ∀ i, (d'.files i).dev = (d.files i).dev ∧ (d'.files i).regular = (d.files i).regular ∧
    (d'.files i).size = (d.files i).size ∧ (d'.files i).outside = (d.files i).outside
  content : ∀ i, (d'.files i).content = (d.files i).content
  stores : ∀ n i, n.isStore = true → d.dir.visible n = some i → d'.files i = d.files i

/-- The repair itself, over all the executor's files. -/
theorem gives_repair {x : Session} (reliable : x.oracle.Reliable) {s : Scene} {prove : Exec Unit}
    (proved : Finds prove s ()) {entries : List AdminEntry}
    (apart : ∀ n m i, n.isStore = false → s.disk.dir.visible n = some i →
      s.disk.dir.visible m = some i → n = m)
    (ok : ∀ entry ∈ entries, AdminOk s.disk entry ∧ entry.name.isStore = false)
    (all : ∀ n i, n.isStore = false → s.disk.dir.visible n = some i →
      (⟨n, i, s.disk.statOf i⟩ : AdminEntry) ∈ entries) :
    Gives (do
      let repair := entries.filter fun entry => entry.found.uid = abc && entry.found.gid = abc
      if !repair.isEmpty then prove
      if !true then normalizeCleanCanonical x
      repair.forM (repairOwner x)
      entries.forM (recheckEntry x)
      syncDirectory x) s fun _ t => t.held = s.held ∧ t.service = s.service ∧ Restored s.disk t.disk := by
  have rest : Gives (do
      (entries.filter fun entry => entry.found.uid = abc && entry.found.gid = abc).forM (repairOwner x)
      entries.forM (recheckEntry x)
      syncDirectory x) s fun _ t => t.held = s.held ∧ t.service = s.service ∧ Restored s.disk t.disk := by
    refine gives_bind (gives_repairs reliable _) ?_
    rintro _ _ rfl
    refine finds_then (finds_rechecks reliable fun entry he => (ok entry he).1) ?_
    refine (gives_syncDirectory reliable).mono ?_
    rintro _ _ rfl
    refine ⟨rfl, rfl, rfl, rfl, fun n i own seen => ?_, fun i => ?_, fun i => ?_, fun n i store seen => ?_⟩
    · change ((s.disk.repair _).files i).uid = 0 ∧ ((s.disk.repair _).files i).gid = 0 ∧
        ((s.disk.repair _).files i).mode = 0o600
      simp only [Disk.repair]
      split
      · exact ⟨rfl, rfl, rfl⟩
      · rename_i kept
        have entry := all n i own seen
        have safe := (ok _ entry).1.2.2
        simp only [Stat.adminSafe, Bool.and_eq_true, Bool.or_eq_true, beq_iff_eq] at safe
        obtain ⟨⟨⟨⟨⟨_, mode⟩, root | given⟩, _⟩, _⟩, _⟩ := safe
        · exact ⟨root.1, root.2, mode⟩
        · refine absurd (List.mem_map.mpr ⟨_, List.mem_filter.mpr ⟨entry, ?_⟩, rfl⟩) kept
          simpa using given
    · change ((s.disk.repair _).files i).dev = _ ∧ ((s.disk.repair _).files i).regular = _ ∧
        ((s.disk.repair _).files i).size = _ ∧ ((s.disk.repair _).files i).outside = _
      simp only [Disk.repair]
      split <;> exact ⟨rfl, rfl, rfl, rfl⟩
    · change ((s.disk.repair _).files i).content = _
      simp only [Disk.repair]
      split <;> rfl
    · change (s.disk.repair _).files i = _
      simp only [Disk.repair]
      refine if_neg fun member => ?_
      obtain ⟨entry, he, rfl⟩ := List.mem_map.mp member
      obtain ⟨⟨named, _⟩, own⟩ := ok entry (List.mem_filter.mp he).1
      rw [apart _ _ _ own named seen, store] at own
      cases own
  have quiet : Gives (do
      if !true then normalizeCleanCanonical x
      (entries.filter fun entry => entry.found.uid = abc && entry.found.gid = abc).forM (repairOwner x)
      entries.forM (recheckEntry x)
      syncDirectory x) s fun _ t => t.held = s.held ∧ t.service = s.service ∧ Restored s.disk t.disk := rest
  dsimp only
  split
  · exact finds_then proved quiet
  · exact quiet

/-- Once the transaction is accepted, the normaliser gives the executor's files
back to root. -/
theorem gives_secureAfterLinuxserverInit {x : Session} (reliable : x.oracle.Reliable) {s : Scene}
    {l : Nat} (free : s.held = false) (lock : s.disk.dir.visible .lock ≠ none)
    (apart : ∀ n m i, n.isStore = false → s.disk.dir.visible n = some i →
      s.disk.dir.visible m = some i → n = m)
    (safe : ∀ n i, n.isStore = false → s.disk.dir.visible n = some i →
      (s.disk.statOf i).adminSafe n s.disk.dev = true)
    (record : s.disk.dir.visible .journal = some l) (content : (s.disk.files l).content = .journal j)
    (accepted : validateNormalizationTransaction s.disk j (s.disk.dir.visible .journalNew).isSome =
      .ok ()) :
    Gives (secureAfterLinuxserverInit x) s fun _ t => t.held = s.held ∧ t.service = s.service ∧
      Restored s.disk t.disk := by
  obtain ⟨k, locked⟩ := Option.ne_none_iff_exists'.mp lock
  have nothing : Finds (primitive x (pure ())) s () := gives_primitive reliable (finds_pure ())
  refine finds_then nothing (gives_handle (finds_then nothing ?_))
  have openLock_ : Finds (openLock x) s () := by
    refine finds_then (finds_pathExists reliable .lock) ?_
    rw [if_neg (by simp [locked])]
    exact finds_pure ()
  refine finds_then openLock_ ?_
  refine finds_then (finds_adminEntry reliable locked (safe _ k rfl locked)) ?_
  have unheld : Finds (primitive x do
      let w ← Prog.read id
      Prog.guard (!w.held) .os) s () := by
    refine gives_primitive reliable fun w hw => ?_
    have free : w.held = false := by rw [← free]; exact congrArg Scene.held hw
    rw [Prog.Returns, Prog.holds_bind, Prog.holds_read, Prog.holds_guard]
    exact ⟨fun _ => ⟨rfl, hw⟩, fun no => no (by simp [free])⟩
  refine finds_then unheld ?_
  have evidence : Finds (anyExists x transactionNames) s true := by
    refine finds_then (finds_pathExists reliable .journal) ?_
    rw [if_pos (by simp [record])]
    exact finds_pure true
  refine finds_then evidence ?_
  refine gives_bind (gives_adminEntryIfPresent reliable .journal fun i => safe _ i rfl) ?_
  rintro journal _ ⟨rfl, journalOk, which⟩
  refine gives_bind (gives_adminEntryIfPresent reliable .journalNew fun i => safe _ i rfl) ?_
  rintro journalNew _ ⟨rfl, newOk, which'⟩
  obtain rfl : journal = [⟨.journal, l, s.disk.statOf l⟩] := by
    rcases which with ⟨none, _⟩ | ⟨i, seen, entries⟩
    · rw [record] at none
      cases none
    · rw [Option.some.inj (record.symm.trans seen)]
      exact entries
  have temporary : (!journalNew.isEmpty) = (s.disk.dir.visible .journalNew).isSome := by
    rcases which' with ⟨none, rfl⟩ | ⟨i, seen, rfl⟩
    · rw [none]
      rfl
    · rw [seen]
      rfl
  have proved : Finds (proveTransaction x [⟨.journal, l, s.disk.statOf l⟩] journalNew) s () := by
    have read : Finds (readDescriptor x ⟨.journal, l, s.disk.statOf l⟩) s j := by
      refine finds_then (gives_primitive reliable (finds_read fun s => s.disk.files l)) ?_
      simp only [content]
      exact finds_pure j
    refine finds_then read (finds_then (finds_read fun s => s.disk) (finds_lift ?_))
    rw [temporary]
    exact accepted
  have lockOk : AdminOk s.disk ⟨.lock, k, s.disk.statOf k⟩ := ⟨locked, rfl, safe _ k rfl locked⟩
  have all : ∀ entry ∈ (⟨.lock, k, s.disk.statOf k⟩ : AdminEntry) ::
      ([⟨.journal, l, s.disk.statOf l⟩] ++ journalNew), AdminOk s.disk entry ∧ entry.name.isStore = false := by
    intro entry he
    rcases List.mem_cons.mp he with rfl | he
    · exact ⟨lockOk, rfl⟩
    rcases List.mem_append.mp he with he | he
    · refine ⟨journalOk entry he, ?_⟩
      rw [List.mem_singleton.mp he]
      rfl
    · refine ⟨newOk entry he, ?_⟩
      rcases which' with ⟨_, rfl⟩ | ⟨i, _, rfl⟩
      · cases he
      · rw [List.mem_singleton.mp he]
        rfl
  refine gives_repair reliable proved apart all fun n i own seen => ?_
  cases n with
  | lock =>
    rw [Option.some.inj (locked.symm.trans seen)]
    simp
  | journal =>
    rw [Option.some.inj (record.symm.trans seen)]
    simp
  | journalNew =>
    rcases which' with ⟨none, _⟩ | ⟨k, there, rfl⟩
    · rw [seen] at none
      cases none
    · rw [Option.some.inj (there.symm.trans seen)]
      simp
  | canonical => cases own
  | stage => cases own
  | rollback => cases own

/-! ## A whole startup -/

section
variable {d' : Disk} {given : Nat → Bool}

/-- Ownership apart, a file that was given away is what it was. -/
theorem Disk.chown_file (d : Disk) (given : Nat → Bool) (i : Nat) :
    (d.chown given).files i = { d.files i with
      uid := if given i then abc else (d.files i).uid
      gid := if given i then abc else (d.files i).gid } := by
  unfold Disk.chown
  simp only
  split <;> rfl

theorem Disk.links_chown (d : Disk) (given : Nat → Bool) (i : Nat) :
    (d.chown given).links i = d.links i := by
  unfold Disk.links
  rw [d.chown_file]
  rfl

/-- What may have been given away: the executor's own files, each of them still
as the normaliser wants it. -/
structure Away (d : Disk) (given : Nat → Bool) : Prop where
  lock : d.dir.visible .lock ≠ none
  stores : ∀ n i, n.isStore = true → d.dir.visible n = some i → given i = false
  own : ∀ n i, n.isStore = false → d.dir.visible n = some i →
    ((d.chown given).statOf i).adminSafe n d.dev = true

theorem Away.store (h : Away d given) (store : n.isStore = true) (seen : d.dir.visible n = some i) :
    (d.chown given).files i = d.files i := by
  simp [Disk.chown_file, h.stores n i store seen]

theorem Restored.links (h : Restored d d') (i : Nat) : d'.links i = d.links i := by
  unfold Disk.links
  rw [h.names, (h.kept i).2.2.2]

theorem Restored.fileId (h : Restored d d') (n : Name) : d'.fileId n = d.fileId n := by
  unfold Disk.fileId
  rw [h.names, h.dev]

/-- As if nothing had been given away. -/
theorem Restored.of_chown (h : Restored (d.chown given) d') (away : Away d given) : Restored d d' where
  names := h.names
  dev := h.dev
  root := h.root
  kept i := by
    have kept := h.kept i
    rw [Disk.chown_file] at kept
    exact kept
  content i := by
    rw [h.content, Disk.chown_file]
  stores n i store seen := by
    rw [h.stores n i store seen, away.store store seen]

theorem Restored.aligned {x : Session} (h : Restored d d') (aligned : Aligned x j d) : Aligned x j d' where
  record := by
    obtain ⟨l, seen, content⟩ := aligned.record
    exact ⟨l, by rw [h.names, seen], by rw [h.content, content]⟩
  policy := aligned.policy
  differs := aligned.differs
  own n i own seen := by
    rw [h.names] at seen
    have safe := aligned.own n i own seen
    obtain ⟨uid, gid, mode⟩ := h.root n i own seen
    obtain ⟨dev, regular, size, _⟩ := h.kept i
    have owner : n.owner = 0 := by simp [Name.owner, own]
    simp only [Stat.safe, Disk.statOf, Bool.and_eq_true, beq_iff_eq] at safe ⊢
    obtain ⟨⟨⟨⟨⟨⟨isRegular, _⟩, _⟩, _⟩, onDev⟩, small⟩, links⟩ := safe
    refine ⟨⟨⟨⟨⟨⟨regular.trans isRegular, mode⟩, uid.trans owner.symm⟩, gid.trans owner.symm⟩,
      (dev.trans onDev).trans h.dev.symm⟩, decide_eq_true (size.le.trans (of_decide_eq_true small))⟩, ?_⟩
    rw [h.links]
    exact links
  links n i seen := by
    rw [h.names] at seen
    rw [(h.kept i).2.2.2]
    exact aligned.links n i seen
  old n i keeper seen same := by
    rw [h.names] at seen
    rw [h.dev] at same
    rw [h.content]
    exact aligned.old n i keeper seen same
  issued n i id keeper seen same issued := by
    rw [h.names] at seen
    rw [h.dev] at same
    rw [h.content]
    exact aligned.issued n i id keeper seen same issued

theorem Restored.trusted (h : Restored d d') (store : n.isStore = true) (trusted : Trusted d n) :
    Trusted d' n := by
  intro i seen
  rw [h.names] at seen
  rw [h.stores n i store seen, h.links, h.dev]
  exact trusted i seen

theorem Restored.accepted (h : Restored d d')
    (accepted : validateNormalizationTransaction d j temporary = .ok ()) :
    validateNormalizationTransaction d' j temporary = .ok () := by
  obtain ⟨canonical, rollback, stage, c, seen, tabled⟩ :=
    validateNormalizationTransaction_eq_ok.mp accepted
  refine validateNormalizationTransaction_eq_ok.mpr ⟨h.trusted rfl canonical, h.trusted rfl rollback,
    h.trusted rfl stage, c, ?_, ?_⟩
  · rw [h.fileId, seen]
  · rw [h.fileId, h.fileId]
    exact tabled

theorem Away.trusted (h : Away d given) (store : n.isStore = true) (trusted : Trusted d n) :
    Trusted (d.chown given) n := by
  intro i seen
  have seen : d.dir.visible n = some i := seen
  rw [h.store store seen, Disk.links_chown]
  exact trusted i seen

theorem Away.accepted (h : Away d given)
    (accepted : validateNormalizationTransaction d j temporary = .ok ()) :
    validateNormalizationTransaction (d.chown given) j temporary = .ok () := by
  obtain ⟨canonical, rollback, stage, rest⟩ := validateNormalizationTransaction_eq_ok.mp accepted
  exact validateNormalizationTransaction_eq_ok.mpr
    ⟨h.trusted rfl canonical, h.trusted rfl rollback, h.trusted rfl stage, rest⟩

theorem Restored.expected (h : Restored d d') (j : Journal) :
    CertRenewer.expected j d' = CertRenewer.expected j d := by
  unfold CertRenewer.expected decided
  rw [h.names, h.dev]

/-- The files go back to root, and what the normaliser accepted is recovered. -/
theorem gives_recoverStartup {x : Session} {s : Scene} (reliable : x.oracle.Reliable)
    (aligned : Aligned x j d) (away : Away d given) (disk : s.disk = d.chown given) (free : s.held = false)
    (idle : s.service.keytool = false)
    (accepted : validateNormalizationTransaction d j (d.dir.visible .journalNew).isSome = .ok ()) :
    Gives (recoverStartup x) s fun outcome _ => outcome = expected j d := by
  obtain ⟨l, record, content⟩ := aligned.record
  obtain ⟨canonical, rollback, stage, _⟩ := validateNormalizationTransaction_eq_ok.mp accepted
  have sane := aligned.sane canonical rollback stage
  have apart (n m : Name) (i : Nat) (own : n.isStore = false) (hn : d.dir.visible n = some i)
      (hm : d.dir.visible m = some i) : n = m := by
    rcases sane.distinct n m i hn hm with same | ⟨keeper, _⟩
    · exact same
    · rcases Name.of_keeper keeper with rfl | rfl <;> cases own
  refine gives_bind (gives_secureAfterLinuxserverInit (j := j) (l := l) reliable free ?_ ?_ ?_ ?_ ?_ ?_) ?_
  all_goals rw [disk]
  · exact away.lock
  · exact apart
  · exact away.own
  · exact record
  · rw [Disk.chown_file]
    exact content
  · exact away.accepted accepted
  · rintro _ t ⟨held, service, restored⟩
    have restored := restored.of_chown away
    rw [← restored.expected]
    refine Aligned.recovers reliable (restored.aligned aligned) (held.trans free) ?_ ?_
    · rw [service]
      exact idle
    · rw [restored.names]
      exact restored.accepted accepted

/-- A state the normaliser accepts is recovered at startup, whichever of the
executor's files were given away before: a live-verified transaction is
finalised, one whose canonical store is the old one is undone, and one whose
canonical store is the stage waits for its verification. -/
theorem accepted_states_are_recovered {x : Session} {w : World}
    (reliable : x.oracle.Reliable) (free : w.held = false) (idle : w.service.keytool = false)
    (aligned : Aligned x j w.disk)
    (accepted : validateNormalizationTransaction w.disk j (w.disk.dir.visible .journalNew).isSome =
      .ok ()) :
    ∃ outcome, (recover x true w.fresh).1 = .ok outcome ∧
      (∀ given, Away w.disk given →
        (recoverStartup x { w.fresh with disk := w.disk.chown given }).1 = .ok outcome) ∧
      (j.phase = .liveVerified → outcome = .renewalFinalized) ∧
      (j.phase ≠ .liveVerified → w.disk.fileId .canonical = some j.oldInode →
        outcome = .recoveredOld) ∧
      (j.phase ≠ .liveVerified → w.disk.fileId .canonical = j.stageInode →
        outcome = .serviceResumedPendingLiveVerification) ∧
      (w.disk.fileId .canonical = some j.oldInode ∨ w.disk.fileId .canonical = j.stageInode) := by
  obtain ⟨_, _, _, c, seen, tabled⟩ := validateNormalizationTransaction_eq_ok.mp accepted
  have run := Aligned.recovers (s := w.fresh.scene) reliable aligned free idle accepted w.fresh rfl
  obtain ⟨outcome, returned, rfl⟩ := run.exists
  refine ⟨_, returned, fun given away => ?_, fun live => ?_, fun active old => ?_, fun active staged => ?_, ?_⟩
  · have run := gives_recoverStartup reliable aligned away rfl free idle accepted
      { w.fresh with disk := w.disk.chown given } rfl
    obtain ⟨_, returned, rfl⟩ := run.exists
    exact returned
  · rw [expected, if_pos live]
  · have old : (w.disk.dir.visible .canonical).map (FileId.mk w.disk.dev) = some j.oldInode := old
    rw [expected, if_neg active, decided]
    exact if_pos old
  · have staged : (w.disk.dir.visible .canonical).map (FileId.mk w.disk.dev) = j.stageInode := staged
    rw [expected, if_neg active, decided]
    refine if_neg fun old => aligned.differs (staged.symm.trans old)
  · rw [seen]
    rcases tabled.canonical_cases with rfl | ⟨stage, _, _⟩
    · exact Or.inl rfl
    · exact Or.inr stage.symm

end

section
variable {g : Setting} {w : World} {given : Nat → Bool} {l : Nat}

theorem Inv.apart (inv : Inv g w) : Apart w.disk where
  distinct := inv.dir.distinct _ w.disk.dir.image_visible
  outside n i seen := (inv.healthy _ w.disk.dir.image_visible n i seen).outside

theorem Inv.trusted (inv : Inv g w) (store : n.isStore = true)
    (owned : n = .stage → ∀ i, w.disk.dir.visible n = some i → given i = true)
    (fits : n = .stage → StageFits w.disk) : Trusted (w.disk.chown given) n := by
  intro i seen
  have seen : w.disk.dir.visible n = some i := seen
  have healthy := inv.healthy _ w.disk.dir.image_visible n i seen
  have room : n.room = maxStore := by cases n <;> first | rfl | cases store
  have owner : n.owner = abc := by simp [Name.owner, store]
  have mine : given i = true ∨ ((w.disk.files i).uid = abc ∧ (w.disk.files i).gid = abc) := by
    by_cases stage : n = .stage
    · exact Or.inl (owned stage i seen)
    · rw [← owner]
      exact Or.inr (healthy.owner stage)
  have small : (w.disk.files i).size ≤ maxStore := by
    by_cases stage : n = .stage
    · exact fits stage i (by rw [← stage]; exact seen)
    · rw [← room]
      exact healthy.size stage
  rw [Disk.chown_file, Disk.links_chown]
  refine ⟨healthy.regular, healthy.mode, ?_, ?_, healthy.device.trans inv.dev.symm, small,
    inv.apart.links seen⟩
  all_goals rcases mine with given | ⟨uid, gid⟩ <;> simp [*]

theorem Inv.adminSafe (inv : Inv g w) (own : n.isStore = false) (seen : w.disk.dir.visible n = some i) :
    ((w.disk.chown given).statOf i).adminSafe n (w.disk.chown given).dev = true := by
  have healthy := inv.healthy _ w.disk.dir.image_visible n i seen
  have room : n.room = if n = .lock then 0 else maxJournal := by cases n <;> first | rfl | cases own
  have owner : n.owner = 0 := by simp [Name.owner, own]
  have stage : n ≠ .stage := by
    rintro rfl
    cases own
  obtain ⟨uid, gid⟩ := healthy.owner stage
  have one : w.disk.links i = 1 := by
    have links := inv.apart.links seen
    cases n <;> first | exact List.mem_singleton.mp links | cases own
  have size := healthy.size stage
  rw [room] at size
  simp only [Stat.adminSafe, Disk.statOf, Disk.chown_file, Disk.links_chown, healthy.regular,
    healthy.mode, healthy.device, one, uid, gid, owner, Bool.and_eq_true, beq_iff_eq, decide_eq_true_eq,
    Bool.or_eq_true]
  refine ⟨⟨⟨⟨⟨trivial, trivial⟩, ?_⟩, inv.dev.symm⟩, size⟩, trivial⟩
  by_cases given : given i = true <;> simp [given]

/-- While the power holds, and unless a recovery moved the rollback over another
store or keytool left too large a stage, the normaliser accepts whatever the
executor leaves, whichever of its files were given away, and gives them back to
root. -/
theorem left_states_are_accepted (h : Reachable g w) (powered : g.powered = true)
    (unrestored : Unrestored w.trace) (fits : StageFits w.disk) (record : w.disk.dir.visible .journal = some l)
    (content : (w.disk.files l).content = .journal j)
    (owned : ∀ i, w.disk.dir.visible .stage = some i → given i = true) :
    validateNormalizationTransaction (w.disk.chown given) j (w.disk.dir.visible .journalNew).isSome =
      .ok () ∧
    ∀ x : Session, x.oracle.Reliable → ∀ service, ∃ t, secureAfterLinuxserverInit x
        { w.fresh with disk := w.disk.chown given, service := service, held := false } = (.ok (), t) ∧
      t.service = service ∧ Restored (w.disk.chown given) t.disk := by
  have inv := h.inv
  obtain ⟨c, seen, tabled⟩ := inv.tabled powered unrestored record content
  have accepted : validateNormalizationTransaction (w.disk.chown given) j
      (w.disk.dir.visible .journalNew).isSome = .ok () :=
    validateNormalizationTransaction_eq_ok.mpr
      ⟨inv.trusted rfl (fun no => nomatch no) (fun no => nomatch no),
        inv.trusted rfl (fun no => nomatch no) (fun no => nomatch no),
        inv.trusted rfl (fun _ => owned) (fun _ => fits), c, seen, tabled⟩
  refine ⟨accepted, fun x reliable service => ?_⟩
  have run := gives_secureAfterLinuxserverInit reliable
    (s := ⟨⟨w.disk.chown given, {}, service⟩, false⟩) rfl
    ((inv.tidy powered).lock (by rw [record]; simp)) (fun n m i own hn hm => ?_)
    (fun n i own there => inv.adminSafe own there) record
    (by rw [Disk.chown_file]; exact content) accepted
    { w.fresh with disk := w.disk.chown given, service := service, held := false } rfl
  · obtain ⟨_, returned, _, same, restored⟩ := run.exists
    exact ⟨_, Prog.eq_of_fst returned, same, restored⟩
  · have other : n.keeper = false := by cases n <;> first | rfl | cases own
    exact (inv.apart.alone hn other m hm).symm

end

/-! ## After an installation -/

/-- The journal the sample's installation leaves. -/
def Sample.pending : Journal where
  version := 2
  policyDigest := 0
  transaction := 0
  phase := .serviceResumedPendingLiveVerification
  resume := true
  old := ⟨1, [1, 2]⟩
  issued := some ⟨1, [3, 2]⟩
  oldInode := ⟨0, 0⟩
  stageInode := some ⟨0, 5⟩
  rollbackExpected := true
  commitPossible := true

theorem Sample.names (n : Name) : installed.disk.dir.visible n = match n with
    | .canonical => some 5
    | .rollback => some 0
    | .journal => some 12
    | .lock => some 1
    | _ => none := by
  have all : ∀ n ∈ Name.all, installed.disk.dir.visible n = match n with
    | .canonical => some 5
    | .rollback => some 0
    | .journal => some 12
    | .lock => some 1
    | _ => none := by decide +kernel
  exact all n (by cases n <;> decide)

theorem Sample.reliable : (session []).oracle.Reliable := fun _ => ⟨rfl, rfl⟩

theorem Sample.reads_old : host.Reads (.store [1]) pending.old :=
  ⟨⟨"", [[1], [2, 2]]⟩, by decide +kernel, by decide +kernel⟩

theorem Sample.reads_issued : host.Reads (.store [3, 3, 3]) ⟨1, [3, 2]⟩ :=
  ⟨⟨"", [[3, 3, 3], [2, 2]]⟩, by decide +kernel, by decide +kernel⟩

theorem Sample.aligned : Aligned (session []) pending installed.disk where
  record := ⟨12, by decide +kernel, by decide +kernel⟩
  policy := rfl
  differs := by decide
  own n i other seen := by
    rw [names] at seen
    cases n <;> cases other <;> cases seen <;> decide +kernel
  links n i seen := by
    rw [names] at seen
    cases n <;> cases seen <;> decide +kernel
  old n i keeper seen same := by
    rw [names] at seen
    have zero : i = 0 := (congrArg FileId.ino same).symm
    have content : (installed.disk.files 0).content = .store [1] := by decide +kernel
    rw [zero, content]
    exact reads_old
  issued n i id keeper seen same issued := by
    have five : i = 5 := by simpa [pending] using (congrArg (Option.map FileId.ino) same).symm
    have content : (installed.disk.files 5).content = .store [3, 3, 3] := by decide +kernel
    cases issued
    rw [five, content]
    exact reads_issued

/-- The lock and the journal belong to the UniFi user. -/
theorem Sample.away : Away installed.disk fun i => i == 1 || i == 12 where
  lock := by decide +kernel
  stores n i store seen := by
    rw [names] at seen
    cases n <;> cases store <;> cases seen <;> rfl
  own n i own seen := by
    rw [names] at seen
    cases n <;> cases own <;> cases seen <;> decide +kernel

/-- A restart after an installation waits for its verification. -/
theorem installed_state_is_recovered :
    (recover (Sample.session []) true Sample.installed.fresh).1 =
      .ok .serviceResumedPendingLiveVerification ∧
    (recoverStartup (Sample.session [])
      { Sample.installed.fresh with disk := Sample.installed.disk.chown fun i => i == 1 || i == 12 }).1 =
      .ok .serviceResumedPendingLiveVerification := by
  obtain ⟨outcome, returned, started, _, _, pending, _⟩ := accepted_states_are_recovered Sample.reliable
    (by decide +kernel) (by decide +kernel) Sample.aligned (by decide +kernel)
  rw [returned, started _ Sample.away, pending (by decide) (by decide +kernel)]
  exact ⟨rfl, rfl⟩

def Event.restores : Event → Bool
  | .renamed .rollback .canonical _ => true
  | _ => false

/-- After an installation, with every file given away. -/
theorem installed_state_is_accepted :
    validateNormalizationTransaction (Sample.installed.disk.chown fun _ => true) Sample.pending false =
      .ok () := by
  have unrestored : Unrestored Sample.installed.trace := by
    have none : ∀ e ∈ Sample.installed.trace, e.event.restores = false := by decide +kernel
    intro e he i moved
    have no := none e he
    rw [moved] at no
    cases no
  have fits : StageFits Sample.installed.disk := by
    intro i seen
    rw [Sample.names] at seen
    cases seen
  have temporary : (Sample.installed.disk.dir.visible .journalNew).isSome = false := by decide +kernel
  rw [← temporary]
  exact (left_states_are_accepted (l := 12) (Sample.reachable_installed true) rfl unrestored fits
    (by decide +kernel) (by decide +kernel) fun _ _ => rfl).1

/-- keytool fails once, while a recovery looks at the canonical store, and the
process is killed right after it moved the rollback back. -/
def Sample.undone : List Move :=
  [.operate (session []) (.install request),
    .operate (session [(392, .refuse), (416, .kill)]) (.recover false)]

/-- The normaliser then refuses what the executor left. -/
theorem restored_state_is_refused :
    ¬ ∀ g w, Reachable g w → g.powered = true → ∀ l j, w.disk.dir.visible .journal = some l →
      (w.disk.files l).content = .journal j →
      ∀ given, (∀ i, w.disk.dir.visible .stage = some i → given i = true) →
      validateNormalizationTransaction (w.disk.chown given) j
        (w.disk.dir.visible .journalNew).isSome = .ok () := by
  intro every
  have reached : Reachable (Sample.setting true) (run Sample.undone Sample.start) :=
    ⟨_, Sample.leads (by simp [Sample.undone, Move.On, Move.Powered, Sample.session])⟩
  have accepted := every _ _ reached rfl 12 Sample.pending (by decide +kernel) (by decide +kernel)
    (fun _ => true) fun _ _ => rfl
  exact absurd accepted (by decide +kernel)

end

end CertRenewer
