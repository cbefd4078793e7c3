import CertRenewer.Reachable

/-!
# Crash safety

What every state of every run promises of the canonical keystore, of its
rollback, and of a transaction that is journalled or reported as verified live.
-/

namespace CertRenewer

open Crash

section
variable {g : Setting} {x : Session} {w t : World} {j : Journal} {i : Nat}

theorem TraceOk.entry {newer older : List Entry} {e : Entry} (h : TraceOk g (newer ++ e :: older)) :
    EventOk g e older ∧ ∀ j, e.process.journal = some j → j.Proper g := by
  induction newer with
  | nil => exact h.1
  | cons _ _ ih => exact ih h.2

/-- What the journal on disk rests on. -/
theorem Inv.journal_ok (inv : Inv g w) (seen : w.disk.dir.visible .journal = some i)
    (content : (w.disk.files i).content = .journal j) :
    JournalOk g w.trace j ∧ Fits g j w.disk.dir.visible := by
  have sealed := inv.sealed_of_content seen content
  obtain ⟨a, hs, ok, fits⟩ := inv.visible_journal seen
  obtain rfl : j = a := inv.unique_journal hs sealed
  exact ⟨ok, fits _ w.disk.dir.image_visible⟩

/-! ## The canonical keystore -/

/-- The file is the old store of the transaction of `j`, as it was when the
transaction began. -/
def Unchanged (tr : List Entry) (j : Journal) (i : Nat) (c : Content) : Prop :=
  j.oldInode.ino = i ∧ ∃ e ∈ tr, e.event = .journalWrite j.start ∧
    e.disk.dir.visible .canonical = some i ∧ (e.disk.files i).content = c

theorem JournalOk.unchanged (ok : JournalOk g w.trace j) (inv : Inv g w) :
    Unchanged w.trace j j.oldInode.ino (w.disk.files j.oldInode.ino).content := by
  obtain ⟨c, sealed, e, he, event, vacant⟩ := ok.begun
  refine ⟨rfl, e, he, event, vacant.canonical, ?_⟩
  rw [(inv.synced _ c sealed).2.1]
  exact vacant.content

/-- The canonical name denotes a complete keystore in every reachable state: the
one there was at the start, or one that was proved and synced as a stage before
it took the name. While a journal is there, it is the old store of the journal's
transaction, unchanged, or its proved stage. -/
theorem canonical_is_old_or_proved (h : Reachable g w) :
    ∃ i c, w.disk.dir.visible .canonical = some i ∧ (w.disk.files i).content = c ∧
      (w.disk.files i).stored = c ∧
      ((i = g.file ∧ c = g.content) ∨ Committed g w.trace i c) ∧
      ∀ l j, w.disk.dir.visible .journal = some l → (w.disk.files l).content = .journal j →
        Unchanged w.trace j i c ∨
          (j.stageInode = some ⟨g.dev, i⟩ ∧ StageProved g w.trace j i c) := by
  have inv := h.inv
  obtain ⟨i, c, seen, sealed, origin⟩ := (inv.images _ w.disk.dir.image_visible).canonical
  obtain ⟨_, content, stored⟩ := inv.synced i c sealed
  refine ⟨i, c, seen, content, stored, origin, fun l j record value => ?_⟩
  obtain ⟨ok, fits⟩ := inv.journal_ok record value
  rcases fits.canonical with old | ⟨possible, ⟨k, stage, named⟩, _⟩
  · obtain rfl : i = j.oldInode.ino := Option.some.inj (seen.symm.trans old)
    rw [← content]
    exact Or.inl (ok.unchanged inv)
  · obtain rfl : i = k := Option.some.inj (seen.symm.trans named)
    obtain ⟨k, b, _, stage', sealed', proved, _⟩ := ok.supported.committable possible
    have same : (⟨g.dev, i⟩ : FileId) = ⟨g.dev, k⟩ := Option.some.inj (stage.symm.trans stage')
    cases same
    obtain rfl : b = c := inv.unique sealed' sealed
    exact Or.inr ⟨stage, proved⟩

/-- The issued keystore, after an installation. -/
theorem canonical_is_proved_after_installation :
    Committed (Sample.setting false) Sample.installed.trace 5 (.store [3, 3, 3]) := by
  obtain ⟨i, c, seen, content, _, origin, _⟩ :=
    canonical_is_old_or_proved (Sample.reachable_installed false)
  obtain rfl : 5 = i := by
    have here : Sample.installed.disk.dir.visible .canonical = some 5 := by decide +kernel
    exact Option.some.inj (here.symm.trans seen)
  obtain rfl : .store [3, 3, 3] = c := by
    rw [← content]
    decide +kernel
  exact origin.resolve_left fun start => absurd start.1 (by decide)

/-! ## The rollback -/

/-- The old store is never lost: while the canonical name is not on it and the
journal is not live-verified, the rollback is the old store, unchanged; and the
rollback's name goes only back to the canonical one, or from under an old store
that is canonical, reads back and is durably journalled as recovered, or after a
live-verified journal of its transaction was synced and then the directory. -/
theorem rollback_is_retained (h : Reachable g w) :
    (∀ l j, w.disk.dir.visible .journal = some l → (w.disk.files l).content = .journal j →
      w.disk.dir.visible .canonical ≠ some j.oldInode.ino → j.phase = .liveVerified ∨
        (w.disk.dir.visible .rollback = some j.oldInode.ino ∧
          Unchanged w.trace j j.oldInode.ino (w.disk.files j.oldInode.ino).content)) ∧
    ∀ newer e older, w.trace = newer ++ e :: older →
      (∀ target k, e.event = .renamed .rollback target k → target = .canonical) ∧
      (e.event = .unlinked .rollback → Released g e older) := by
  have inv := h.inv
  refine ⟨fun l j record value moved => ?_, fun newer e older split => ?_⟩
  · obtain ⟨ok, fits⟩ := inv.journal_ok record value
    rcases fits.canonical with old | ⟨_, _, _, kept | live⟩
    · exact absurd old moved
    · exact Or.inr ⟨kept, ok.unchanged inv⟩
    · exact Or.inl live
  · have ok := inv.trace
    rw [split] at ok
    have entry := ok.entry.1
    refine ⟨fun target k event => ?_, fun event => ?_⟩
    · simpa [EventOk, event] using entry
    · simpa [EventOk, event] using entry

/-- The old keystore, after an installation. -/
theorem rollback_is_retained_after_installation :
    Sample.installed.disk.dir.visible .canonical ≠ some 0 ∧
      Sample.installed.disk.dir.visible .rollback = some 0 ∧
      (Sample.installed.disk.files 0).content = .store [1] := by
  have moved : Sample.installed.disk.dir.visible .canonical ≠ some 0 := by decide +kernel
  have kept := (rollback_is_retained (Sample.reachable_installed false)).1 12
    ⟨2, 0, 0, .serviceResumedPendingLiveVerification, true, ⟨1, [1, 2]⟩, some ⟨1, [3, 2]⟩, ⟨0, 0⟩,
      some ⟨0, 5⟩, true, true⟩ (by decide +kernel) (by decide +kernel) moved
  exact ⟨moved, (kept.resolve_left fun no => nomatch no).1, by decide +kernel⟩

/-! ## Finalisation -/

/-- A transaction is journalled as verified live, or finalised by a verification
or a recovery, only after the endpoint was observed for it with exactly the leaf
of the canonical store, while it was pending. -/
theorem finalized_only_when_observed (h : Reachable g w) :
    (∀ l j, w.disk.dir.visible .journal = some l → (w.disk.files l).content = .journal j →
      j.phase = .liveVerified → Observed g w.trace j) ∧
    ∀ x : Session, x.host = g.host → ∀ m, (m = verifyPending x ∨ ∃ startup, m = recover x startup) →
      ∀ t, m w.fresh = (.ok .renewalFinalized, t) →
      ∃ l j, w.disk.dir.visible .journal = some l ∧ (w.disk.files l).content = .journal j ∧
        Observed g t.trace j := by
  have inv := h.inv
  refine ⟨fun l j record value live => ?_, fun x host m which t run => ?_⟩
  · exact (inv.journal_ok record value).1.supported.live live
  · rcases which with rfl | ⟨startup, rfl⟩
    · exact ((verifyPending_keeps host inv.fresh rfl).ok run).2 rfl
    · exact ((recover_keeps startup inv.fresh rfl).ok run).2 rfl

/-- The endpoint, after an installation and its verification. -/
theorem finalized_after_installation : ∃ j,
    Observed (Sample.setting false) (verifyPending (Sample.session []) Sample.installed.fresh).2.trace j := by
  have final : (verifyPending (Sample.session []) Sample.installed.fresh).1 = .ok .renewalFinalized := by
    decide +kernel
  obtain ⟨_, j, _, _, observed⟩ :=
    (finalized_only_when_observed (Sample.reachable_installed false)).2 (Sample.session []) rfl _
      (Or.inl rfl) _ (Prog.eq_of_fst final)
  exact ⟨j, observed⟩

end

end CertRenewer
