import CertRenewer.Authority

/-!
# What is journalled

Every value handed to the journal's writer, in every run. A value moves on from
what the operation wrote before it and from what is on disk. It need not move on
from a value another operation failed to write: recovery goes by the disk.
-/

namespace CertRenewer

open Crash

/-! ## The chain -/

/-- How far along the chain a transaction is. -/
def Progress.rank (p : Progress) : Nat := Progress.chain.idxOf p

/-- Every flag of `a` is a flag of `b`. -/
def Progress.Within (a b : Progress) : Prop :=
  (a.issued = true → b.issued = true) ∧ (a.stage = true → b.stage = true) ∧
    (a.rollback = true → b.rollback = true) ∧ (a.commit = true → b.commit = true)

instance (a b : Progress) : Decidable (a.Within b) := by
  unfold Progress.Within
  infer_instance

theorem Progress.Within.rank_le {a b : Progress} (h : a.Within b) (ha : a ∈ chain) (hb : b ∈ chain) :
    a.rank ≤ b.rank := by
  have table : ∀ a ∈ chain, ∀ b ∈ chain, a.Within b → a.rank ≤ b.rank := by decide
  exact table a ha b hb h

theorem Journal.Below.within {a b : Journal} (h : a.Below b) : a.progress.Within b.progress := by
  refine ⟨fun some_ => ?_, fun some_ => ?_, h.rollbackExpected, h.commitPossible⟩
  · rcases h.issued with none | same
    · simp [Journal.progress, none] at some_
    · simpa [Journal.progress, same] using some_
  · rcases h.stageInode with none | same
    · simp [Journal.progress, none] at some_
    · simpa [Journal.progress, same] using some_

/-- `b` comes after `a` in one transaction: what was fixed stays, what was set
stays, and the progress is as far along the chain or further. -/
structure Journal.Follows (b a : Journal) : Prop where
  below : a.Below b
  rank : a.progress.rank ≤ b.progress.rank

section
variable {g : Setting} {w : World} {a b j : Journal}

theorem Journal.Proper.follows (ha : a.Proper g) (hb : b.Proper g) (h : a.Below b) : b.Follows a :=
  ⟨h, h.within.rank_le (progress_mem_chain ha.progress) (progress_mem_chain hb.progress)⟩

/-! ## One value -/

/-- What is true of each value on its own. -/
structure Journal.Recordable (j : Journal) : Prop where
  valid : j.validate = .ok ()
  progress : j.progress ∈ allowedProgress j.phase
  issued : ∀ id, j.issued = some id → id.spki = j.old.spki ∧ id.chain.length = 2
  stage : j.stageInode ≠ some j.oldInode
  verifiable : j.phase = .serviceResumedPendingLiveVerification → j.resume = true →
    { j with phase := .liveVerified }.validate = .ok ()

theorem Journal.Proper.recordable (h : j.Proper g) : j.Recordable where
  valid := h.validate
  progress := h.progress
  issued := h.issued
  stage same := (h.stage _ same).2 rfl
  verifiable pending resume := by
    have progress := h.progress
    rw [pending] at progress
    have live : Journal.Proper g { j with phase := .liveVerified } :=
      { h with progress := progress, resume := fun _ => resume }
    exact live.validate

/-! ## All values of a run -/

/-- The values handed to the writer, newest first. -/
def written (tr : List Entry) : List Journal :=
  tr.filterMap fun e => match e.event with
    | .journalWrite v => some v
    | _ => none

/-- A value handed to the writer at `e`, after `older`. -/
structure Advances (e : Entry) (older : List Entry) (v : Journal) : Prop where
  value : v.Recordable
  start : ∀ a ∈ written older, a.transaction = v.transaction → a.Agree v
  operation : ∀ a ∈ recentWrites older, v.Follows a
  disk : ∀ i a, e.disk.dir.visible .journal = some i → (e.disk.files i).content = .journal a →
    v.Follows a

theorem mem_written {tr : List Entry} : a ∈ written tr ↔ Wrote tr a := by
  simp only [written, List.mem_filterMap, Wrote]
  constructor
  · rintro ⟨e, he, seen⟩
    refine ⟨e, he, ?_⟩
    split at seen
    · rename_i v event
      rw [event, Option.some.inj seen]
    · cases seen
  · rintro ⟨e, he, event⟩
    exact ⟨e, he, by rw [event]⟩

theorem recentWrites_subset {tr : List Entry} (h : a ∈ recentWrites tr) : Wrote tr a := by
  induction tr with
  | nil => cases h
  | cons e older ih =>
    have rest (h : a ∈ recentWrites older) : Wrote (e :: older) a :=
      (ih h).mono (List.suffix_cons _ _)
    unfold recentWrites at h
    split at h
    · cases h
    · rename_i v event
      rcases List.mem_cons.mp h with rfl | h
      · exact ⟨e, by simp, event⟩
      · exact rest h
    · exact rest h

theorem TraceOk.older {newer older : List Entry} {e : Entry} (h : TraceOk g (newer ++ e :: older)) :
    TraceOk g older := by
  induction newer with
  | nil => exact h.2
  | cons _ _ ih => exact ih h.2

/-- A journal is proper when it is handed over, so it was when it was older. -/
theorem TraceOk.wrote_proper {tr : List Entry} (h : TraceOk g tr) (wrote : Wrote tr a) : a.Proper g := by
  obtain ⟨e, he, event⟩ := wrote
  obtain ⟨newer, older, rfl⟩ := List.append_of_mem he
  obtain ⟨ok, memory⟩ := h.entry
  rw [EventOk, event] at ok
  exact memory a ok.memory

/-- Every value ever handed to the journal's writer passes its check, has a
progress its phase allows, and moves on within its operation and from the disk;
two values of one transaction never disagree on a field both have set. The
journal in memory passes the check throughout, and a pending one that may be
resumed passes it as live-verified. -/
theorem journals_move_forward (h : Reachable g w) :
    (∀ newer e older v, w.trace = newer ++ e :: older → e.event = .journalWrite v →
      Advances e older v) ∧
    (∀ e ∈ w.trace, ∀ j, e.process.journal = some j → j.Recordable) ∧
    (∀ j, w.process.journal = some j → j.Recordable) ∧
    ∀ l j, w.disk.dir.visible .journal = some l → (w.disk.files l).content = .journal j →
      j.Recordable := by
  have inv := h.inv
  refine ⟨fun newer e older v split event => ?_, fun e he j memory => ?_, fun j memory => ?_,
    fun l j record value => ?_⟩
  · have ok := inv.trace
    rw [split] at ok
    obtain ⟨entry, memory⟩ := ok.entry
    rw [EventOk, event] at entry
    have entry : Journalled e older v := entry
    have proper := memory v entry.memory
    have before : TraceOk g older := ok.older
    refine ⟨proper.recordable, fun a ha => entry.agree a (mem_written.mp ha), fun a ha => ?_,
      fun i a seen content => ?_⟩
    · exact (before.wrote_proper (recentWrites_subset ha)).follows proper (entry.recent a ha)
    · obtain ⟨wrote, below⟩ := entry.disk i a seen content
      exact (before.wrote_proper wrote).follows proper below
  · obtain ⟨newer, older, split⟩ := List.append_of_mem he
    have ok := inv.trace
    rw [split] at ok
    exact (ok.entry.2 j memory).recordable
  · exact (inv.memory j memory).recordable
  · exact (inv.journal_ok record value).1.supported.proper.recordable

/-- The journal after an installation. -/
theorem sample_journal_is_recordable :
    (⟨2, 0, 0, .serviceResumedPendingLiveVerification, true, ⟨1, [1, 2]⟩, some ⟨1, [3, 2]⟩, ⟨0, 0⟩,
      some ⟨0, 5⟩, true, true⟩ : Journal).Recordable :=
  (journals_move_forward (Sample.reachable_installed false)).2.2.2 12 _ (by decide +kernel)
    (by decide +kernel)

/-- The commit's journal and the failure's both fail to be written, and a
recovery goes on from what is on disk. -/
def Sample.forgetful : List Move :=
  [.operate (session [(240, .refuse), (241, .refuse)]) (.install request),
    .operate (session []) (.recover false)]

/-- A commit that was never journalled on disk is taken back: the values of one
transaction do not all move up the chain. -/
theorem unwritten_progress_is_forgotten :
    ¬ ∀ g w, Reachable g w → (written w.trace).Pairwise fun later earlier =>
      earlier.transaction = later.transaction → earlier.commitPossible = true →
        later.commitPossible = true := by
  intro every
  have reached : Reachable (Sample.setting true) (run Sample.forgetful Sample.start) :=
    ⟨_, Sample.leads (by simp [Sample.forgetful, Move.On, Move.Powered, Sample.session])⟩
  exact absurd (every _ _ reached) (by decide +kernel)

end

end CertRenewer
