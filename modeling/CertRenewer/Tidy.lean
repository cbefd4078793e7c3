import CertRenewer.Founding

/-!
# Changes while the power holds

Without a power loss the names are always as seen, and a journal's phase and
progress say more about them. This goes along with the rest of the invariant,
change by change.
-/

namespace CertRenewer

open Crash

section
variable {g : Setting} {j : Journal} {ns ns' : Names Name} {k : Nat}

/-! ## A journal's names -/

theorem Snug.of_eq (h : Snug g j ns) (canonical : ns' .canonical = ns .canonical)
    (stage : ns' .stage = ns .stage) (rollback : ns' .rollback = ns .rollback) : Snug g j ns' where
  committed := by rw [canonical]; exact h.committed
  recovered := by rw [canonical]; exact h.recovered
  early := by rw [stage]; exact h.early
  unlinked := by rw [rollback]; exact h.unlinked
  staged := by rw [canonical, stage]; exact h.staged
  linked := by rw [rollback]; exact h.linked

theorem Snug.create_stage (h : Snug g j ns) (progress : j.progress ≠ .initial) :
    Snug g j (Function.update ns .stage (some k)) where
  committed := by simpa using h.committed
  recovered := by simpa using h.recovered
  early _ no := absurd no progress
  unlinked := by simpa using h.unlinked
  staged := by simp
  linked := by simpa using h.linked

/-- After a recovery only the canonical store matters. -/
theorem Snug.of_recovered (phase : j.phase = .recoveredOld)
    (canonical : ns .canonical = some j.oldInode.ino) : Snug g j ns where
  committed no := by
    rw [phase] at no
    exact absurd no (by decide)
  recovered _ := canonical
  early no := absurd phase no
  unlinked no := absurd phase no
  staged no := absurd phase no
  linked no := absurd phase no

theorem Snug.unlink_live (h : Snug g j ns) (phase : j.phase = .liveVerified) :
    Snug g j (Function.update ns .rollback none) where
  committed := by simpa using h.committed
  recovered := by simpa using h.recovered
  early := by simpa using h.early
  unlinked _ _ := by simp
  staged := by simpa using h.staged
  linked _ no := absurd phase no

theorem Snug.link (h : Snug g j ns) (progress : j.progress ≠ .initial ∧ j.progress ≠ .staging) :
    Snug g j (Function.update ns .rollback (some j.oldInode.ino)) where
  committed := by simpa using h.committed
  recovered := by simpa using h.recovered
  early := by simpa using h.early
  unlinked _ no := by
    rcases no with no | no
    · exact absurd no progress.1
    · exact absurd no progress.2
  staged := by simpa using h.staged
  linked := by simp

theorem Snug.commit (h : Snug g j ns) (active : j.phase ≠ .recoveredOld)
    (progress : j.progress = .committable) (stage : j.stageInode = some ⟨g.dev, k⟩)
    (differs : k ≠ j.oldInode.ino) : Snug g j ((Change.move .stage .canonical k).apply ns) where
  committed _ := ⟨k, stage, by simp [Change.apply]⟩
  recovered no := absurd no active
  early _ no := by
    rw [progress] at no
    cases no
  unlinked _ no := by
    rw [progress] at no
    rcases no with no | no <;> cases no
  staged _ no := by
    rw [progress] at no
    rcases no with no | no | ⟨_, old⟩
    · cases no
    · cases no
    · simp [Change.apply, differs] at old
  linked := by simpa [Change.apply] using h.linked

/-- Before the commit only the stage and the rollback matter. -/
theorem Snug.of_uncommitted {p : Progress} {q : Phase} (progress : j.progress = p)
    (named : j.phase = q) (phase : q ∉ .liveVerified :: .recoveredOld :: committedPhases)
    (early : p = .initial → ns .stage = none)
    (unlinked : p = .initial ∨ p = .staging → ns .rollback = none)
    (staged : p = .staged ∨ p = .rolledBack ∨ p = .committable → ns .stage ≠ none)
    (linked : p = .rolledBack ∨ p = .committable → ns .rollback = some j.oldInode.ino) :
    Snug g j ns := by
  subst progress named
  simp only [List.mem_cons, not_or] at phase
  refine ⟨?_, fun no => absurd no phase.2.1, fun _ => early, fun _ => unlinked, fun _ which => ?_,
    fun _ _ => linked⟩
  · rintro (no | no)
    · exact absurd no phase.2.2
    · exact absurd no phase.1
  · rcases which with h | h | ⟨h, _⟩
    · exact staged (Or.inl h)
    · exact staged (Or.inr (Or.inl h))
    · exact staged (Or.inr (Or.inr h))

/-- A new phase of a transaction that is neither recovered nor verified yet. -/
theorem Snug.rephase (h : Snug g j ns) {p : Phase} (active : j.phase ≠ .recoveredOld)
    (unverified : j.phase ≠ .liveVerified) (other : p ≠ .recoveredOld)
    (committed : p ∈ committedPhases ∨ p = .liveVerified →
      ∃ i, j.stageInode = some ⟨g.dev, i⟩ ∧ ns .canonical = some i) :
    Snug g { j with phase := p } ns where
  committed := committed
  recovered no := absurd no other
  early _ := h.early active
  unlinked _ := h.unlinked active
  staged _ := h.staged active
  linked _ _ := h.linked active unverified

end

/-! ## What is seen -/

section
variable {g : Setting} {w t : World} {d : Disk} {tr tr' : List Entry} {i : Nat} {c : Content}
  {j : Journal}

theorem Unrestored.of_suffix (h : Unrestored tr') (ext : tr <:+ tr') : Unrestored tr :=
  fun e he => h e (ext.subset he)

/-- A longer trace, which promises no more of the visible journal. -/
theorem Tidy.extend (h : Tidy g d tr) (ext : tr <:+ tr')
    (sealed : ∀ i j, d.dir.visible .journal = some i → Sealed g tr' i (.journal j) →
      Sealed g tr i (.journal j)) : Tidy g d tr' where
  lock := h.lock
  pair k a i j hk ha hi hj := h.pair k a i j hk ha hi (sealed i j hi hj)
  calm i j hi hj := h.calm i j hi (sealed i j hi hj)
  snug clean i j hi hj := h.snug (clean.of_suffix ext) i j hi (sealed i j hi hj)

/-- A changed file. A temporary journal may get a value of the journal's own
transaction only. -/
theorem Tidy.modify {f : Inode → Inode} (h : Tidy g d tr) (i : Nat)
    (paired : d.dir.visible .journalNew = some i → ∀ a, (f (d.files i)).content = .journal a →
      (d.files i).content = .journal a ∨ ∀ l j, d.dir.visible .journal = some l →
        Sealed g tr l (.journal j) → a.transaction = j.transaction) :
    Tidy g (d.modify i f) tr where
  lock := h.lock
  pair k a l j hk ha hl hj := by
    by_cases same : k = i
    · subst same
      rcases paired hk a (by simpa [Disk.modify] using ha) with old | mine
      · exact h.pair k a l j hk old hl hj
      · exact mine l j hl hj
    · exact h.pair k a l j hk (by simpa [Disk.modify, same] using ha) hl hj
  calm := h.calm
  snug := h.snug

/-- Other names, with the same lock. -/
theorem Tidy.redirect (h : Tidy g d tr) {dir : Dir Name}
    (lock : dir.visible .lock = d.dir.visible .lock)
    (journal : dir.visible .journal = d.dir.visible .journal ∨ dir.visible .journal = none)
    (temporary : ∀ k, dir.visible .journalNew = some k → d.dir.visible .journalNew = some k)
    (snug : Unrestored tr → ∀ i j, d.dir.visible .journal = some i → Sealed g tr i (.journal j) →
      Snug g j d.dir.visible → Snug g j dir.visible) : Tidy g { d with dir := dir } tr := by
  have seen {i : Nat} (hi : dir.visible .journal = some i) : d.dir.visible .journal = some i := by
    rcases journal with same | none
    · exact same.symm.trans hi
    · rw [none] at hi
      cases hi
  refine ⟨fun some_ => ?_, fun k a i j hk ha hi hj => ?_, fun i j hi hj live => ?_,
    fun clean i j hi hj => ?_⟩
  · obtain ⟨i, hi⟩ := Option.ne_none_iff_exists'.mp some_
    change dir.visible .lock ≠ none
    rw [lock]
    exact h.lock (by rw [seen hi]; simp)
  · exact h.pair k a i j (temporary k hk) ha (seen hi) hj
  · have free := h.calm i j (seen hi) hj live
    refine Option.eq_none_iff_forall_ne_some.mpr fun k hk => ?_
    rw [temporary k hk] at free
    cases free
  · exact snug clean i j (seen hi) hj (h.snug clean i j (seen hi) hj)

theorem Inv.steady (h : Inv g w) (k : Steady w t) : Inv g t := by
  refine ⟨h.toCore.steady k, fun powered => ?_, h.budding.steady k⟩
  rw [k.disk]
  exact (h.tidy powered).extend k.suffix fun _ _ _ hs => k.sealed.mp hs

theorem Inv.log {e : Event} (h : Inv g w)
    (ok : EventOk g ⟨e, w.disk, w.service, w.process⟩ w.trace)
    (unsynced : ∀ n i, e ≠ .syncedFile n i)
    (write : ∀ v, e = .journalWrite v → v.transaction < w.uuids ∧
      ∀ a, Wrote w.trace a → a.transaction = v.transaction → a.Agree v)
    (imported : ∀ n reply, e = .keytool n (.importcert reply) → ∀ j, w.process.journal = some j →
      j.transaction < w.uuids)
    (fresh : (∃ k, e = .created .journalNew k) → w.disk.dir.visible .journal = none →
      Unjournalled w.trace) : Inv g (w.log e) := by
  refine ⟨h.toCore.log ok unsynced write imported, fun powered => ?_, h.budding.log h.toCore fresh⟩
  refine (h.tidy powered).extend (List.suffix_cons _ _) fun i j _ hs => ?_
  rcases sealed_cons.mp hs with old | ⟨⟨n, hn⟩, _⟩
  · exact old
  · exact absurd hn (unsynced n i)

theorem Inv.modify {f : Inode → Inode} (h : Inv g w) (i : Nat)
    (kept : ∀ c, Sealed g w.trace i c →
      (f (w.disk.files i)).content = c ∧ (f (w.disk.files i)).stored = c)
    (healthy : ∀ ns, w.disk.dir.Image ns → ∀ n, ns n = some i →
      Healthy g.dev n (f (w.disk.files i)))
    (paired : w.disk.dir.visible .journalNew = some i → ∀ a,
      (f (w.disk.files i)).content = .journal a → (w.disk.files i).content = .journal a ∨
        ∀ l j, w.disk.dir.visible .journal = some l → Sealed g w.trace l (.journal j) →
          a.transaction = j.transaction) :
    Inv g { w with disk := w.disk.modify i f } :=
  ⟨h.toCore.modify i kept healthy, fun powered => (h.tidy powered).modify i paired, h.budding⟩

theorem Inv.touch (h : Inv g w) (i : Nat) : Inv g { w with disk := w.disk.touch i } :=
  ⟨h.toCore.touch i, fun powered => (h.tidy powered).modify
    (f := fun file => { file with stamp := file.stamp + 1 }) i (fun _ _ same => Or.inl same), h.budding⟩

theorem Inv.fsync (h : Inv g w) {n : Name} (below : i < w.disk.dir.next) :
    Inv g { w.log (.syncedFile n i) with
      disk := w.disk.modify i fun file => { file with stored := file.content } } := by
  refine ⟨h.toCore.fsync below, fun powered => ?_,
    h.budding.extend rfl (by rintro ⟨⟨_, no⟩, _⟩; cases no)⟩
  refine ((h.tidy powered).modify (f := fun file => { file with stored := file.content }) i
    fun _ _ same => Or.inl same).extend (List.suffix_cons _ _) fun l j hl hs => ?_
  obtain ⟨b, hb, _⟩ := h.visible_journal hl
  rcases sealed_cons.mp hs with old | ⟨⟨m, hm⟩, content⟩
  · exact old
  · have content : (w.disk.files l).content = .journal j := content
    rw [(h.synced l _ hb).2.1] at content
    rw [← content]
    exact hb

/-! ## Names -/

theorem Inv.create (h : Inv g w) {n : Name} (kind : n = .stage ∨ n = .journalNew ∨ n = .lock)
    (stage : n = .stage → ∀ ns, w.disk.dir.Image ns → ∃ i j, ns .journal = some i ∧
      Sealed g w.trace i (.journal j) ∧ j.stageInode = none ∧ j.progress = .staging)
    (calm : n = .journalNew → ∀ i j, w.disk.dir.visible .journal = some i →
      Sealed g w.trace i (.journal j) → j.phase ≠ .liveVerified)
    (begun : n = .journalNew → w.disk.dir.visible .journal = none → Unpublished w.trace ∧
      ∃ i c, w.disk.dir.visible .canonical = some i ∧ Sealed g w.trace i c ∧ Founded i c w.trace) :
    Inv g { w with disk := w.disk.create n } := by
  refine ⟨h.toCore.create kind fun hn ns image => ?_, fun powered => ?_, ?_⟩
  · obtain ⟨i, j, hi, hs, none, _⟩ := stage hn ns image
    exact ⟨i, j, hi, hs, none⟩
  rotate_left
  · exact h.budding.create h.toCore kind begun
  have tidy := h.tidy powered
  have visible : (w.disk.create n).dir.visible =
      Function.update w.disk.dir.visible n (some w.disk.dir.next) := by simp [Disk.create]
  have journal : (w.disk.create n).dir.visible .journal = w.disk.dir.visible .journal := by
    rw [visible]
    rcases kind with rfl | rfl | rfl <;> simp
  refine ⟨fun some_ => ?_, fun k a i j hk ha hi hj => ?_, fun i j hi hj live => ?_,
    fun clean i j hi hj => ?_⟩
  · rw [journal] at some_
    rw [visible]
    by_cases hn : n = .lock
    · simp [hn]
    · simpa [Ne.symm hn] using tidy.lock some_
  · rw [journal] at hi
    rw [visible] at hk
    rcases update_eq_some hk with ⟨_, rfl⟩ | ⟨_, hk⟩
    · simp [Disk.create] at ha
    · have ne : k ≠ w.disk.dir.next := by
        have := w.disk.dir.visible_lt hk
        omega
      exact tidy.pair k a i j hk (by simpa [Disk.create, ne] using ha) hi hj
  · rw [journal] at hi
    have hn : n ≠ .journalNew := fun hn => calm hn i j hi hj live
    rw [visible]
    simpa [Ne.symm hn] using tidy.calm i j hi hj live
  · rw [journal] at hi
    have old := tidy.snug clean i j hi hj
    rw [visible]
    rcases kind with rfl | rfl | rfl
    · obtain ⟨l, b, hl, hb, _, progress⟩ := stage rfl _ w.disk.dir.image_visible
      obtain rfl : i = l := Option.some.inj (hi.symm.trans hl)
      obtain rfl : b = j := h.unique_journal hj hb
      exact old.create_stage (by rw [progress]; decide)
    · exact old.of_eq (by simp) (by simp) (by simp)
    · exact old.of_eq (by simp) (by simp) (by simp)

theorem Inv.unlink (h : Inv g w) {n : Name} (kind : n ≠ .canonical ∧ n ≠ .lock)
    (rollback : n = .rollback → ∀ ns, w.disk.dir.Image ns → ∀ k a,
      ns .journal = some k ∨ w.disk.dir.visible .journal = some k →
      Sealed g w.trace k (.journal a) →
      ns .canonical = some a.oldInode.ino ∨ a.phase = .liveVerified)
    (journal : n = .journal → ∀ ns, w.disk.dir.Image ns →
      ns .canonical = w.disk.dir.visible .canonical ∧ ns .stage = none ∧ ns .rollback = none ∧
        ns .journalNew = none)
    (ended : n = .stage ∨ n = .rollback → ∀ i j, w.disk.dir.visible .journal = some i →
      Sealed g w.trace i (.journal j) →
      j.phase = .recoveredOld ∨ (n = .rollback ∧ j.phase = .liveVerified)) :
    Inv g (w.redirect (w.disk.dir.unlink n)) := by
  refine ⟨h.toCore.unlink kind.1 rollback fun hn ns image => ?_, fun powered => ?_,
    h.budding.unlink kind.1 fun hn ns image => (journal hn ns image).2.2.2⟩
  · obtain ⟨canonical, stage, rollback, _⟩ := journal hn ns image
    exact ⟨canonical, stage, rollback⟩
  have visible := w.disk.dir.visible_unlink n
  refine (h.tidy powered).redirect ?_ ?_ (fun k hk => ?_) fun clean i j hi hj old => ?_
  · rw [visible]
    simp [kind.2.symm]
  · rw [visible]
    by_cases hn : n = .journal
    · simp [hn]
    · simp [Ne.symm hn]
  · rw [visible] at hk
    exact (update_none_eq_some hk).2
  · rw [visible]
    by_cases store : n = .stage ∨ n = .rollback
    · rcases ended store i j hi hj with recovered | ⟨rfl, live⟩
      · refine Snug.of_recovered recovered ?_
        simpa [kind.1.symm] using old.recovered recovered
      · exact old.unlink_live live
    · rw [not_or] at store
      exact old.of_eq (by simp [kind.1.symm]) (by simp [Ne.symm store.1]) (by simp [Ne.symm store.2])

theorem Inv.syncDirectory (h : Inv g w) : Inv g (w.redirect w.disk.dir.sync) :=
  ⟨h.toCore.syncDirectory, fun powered => (h.tidy powered).redirect rfl (Or.inl rfl) (fun _ hk => hk)
    (fun _ _ _ _ _ old => old), h.budding.sync⟩

theorem Inv.powerLoss (h : Inv g w) (unpowered : g.powered = false) (kept : List Bool)
    (torn : Nat → Content) (service : Service) :
    Inv g ((Move.powerLoss kept torn service).apply w) := by
  have off : ¬ g.powered = true := by simp [unpowered]
  exact ⟨h.toCore.powerLoss kept torn service, fun powered => absurd powered off,
    h.budding.lose kept off⟩

theorem Inv.link (h : Inv g w) (seen : w.disk.dir.visible .canonical = some i)
    (old : ∀ ns, w.disk.dir.Image ns → ns .canonical = some i ∧ ∃ k, ns .journal = some k)
    (mine : ∀ ns, w.disk.dir.Image ns → ∀ k a, ns .journal = some k →
      Sealed g w.trace k (.journal a) → a.oldInode.ino = i ∧ a.progress = .staged) :
    Inv g (w.redirect (w.disk.dir.link .canonical .rollback)) := by
  refine ⟨h.toCore.link seen old fun ns image k a hk ha => (mine ns image k a hk ha).1,
    fun powered => ?_, h.budding.link seen⟩
  rw [w.disk.dir.link_of_visible seen]
  refine (h.tidy powered).redirect (by simp [Change.apply]) (Or.inl (by simp [Change.apply]))
    (fun k hk => by simpa [Change.apply] using hk) fun _ l a hl ha before => ?_
  obtain ⟨rfl, progress⟩ := mine _ w.disk.dir.image_visible l a hl ha
  rw [Dir.visible_push]
  refine before.link ?_
  rw [progress]
  decide

theorem Inv.publish (h : Inv g w) (seen : w.disk.dir.visible .journalNew = some i)
    (sealed : Sealed g w.trace i (.journal j)) (ok : JournalOk g w.trace j)
    (allowed : ∀ ns, w.disk.dir.Image ns → Fits g j ns)
    (same : j.issued.isSome = true → ∀ ns, w.disk.dir.Image ns → ∀ k a, ns .journal = some k →
      Sealed g w.trace k (.journal a) → a.oldInode = j.oldInode)
    (lock : w.disk.dir.visible .lock ≠ none)
    (snug : g.powered = true → Unrestored w.trace → Snug g j w.disk.dir.visible) :
    Inv g (w.redirect (w.disk.dir.rename .journalNew .journal)) := by
  refine ⟨h.toCore.publish seen sealed ok allowed same, fun powered => ?_,
    h.budding.publish h.toCore seen⟩
  have distinct : w.disk.dir.visible .journal ≠ some i := fun hj => by
    cases h.dir.alone .journalNew rfl i seen _ w.disk.dir.image_visible .journal hj
  have visible : (w.disk.dir.rename .journalNew .journal).visible =
      (Change.move .journalNew .journal i).apply w.disk.dir.visible := by
    rw [w.disk.dir.rename_of_visible seen distinct, Dir.visible_push]
  have gone : (w.disk.dir.rename .journalNew .journal).visible .journalNew = none := by
    rw [visible]
    simp [Change.apply]
  refine ⟨fun _ => ?_, fun k _ _ _ hk => ?_, fun _ _ _ _ _ => gone, fun clean l a hl ha => ?_⟩
  · change (w.disk.dir.rename .journalNew .journal).visible .lock ≠ none
    rw [visible]
    simpa [Change.apply] using lock
  · have hk : (w.disk.dir.rename .journalNew .journal).visible .journalNew = some k := hk
    rw [gone] at hk
    cases hk
  · have hl : (w.disk.dir.rename .journalNew .journal).visible .journal = some l := hl
    rw [visible] at hl
    obtain rfl : i = l := by simpa [Change.apply] using hl
    rw [h.unique_journal sealed ha]
    change Snug g j (w.disk.dir.rename .journalNew .journal).visible
    rw [visible]
    exact (snug powered clean).of_eq (by simp [Change.apply]) (by simp [Change.apply])
      (by simp [Change.apply])

theorem Inv.commit (h : Inv g w) {k : Nat} (seen : w.disk.dir.visible .stage = some k)
    (only : ∀ ns, w.disk.dir.Image ns → ns = w.disk.dir.visible)
    (journal : w.disk.dir.visible .journal = some i) (sealed : Sealed g w.trace i (.journal j))
    (progress : j.progress = .committable) (active : j.phase ≠ .recoveredOld)
    (stage : j.stageInode = some ⟨g.dev, k⟩)
    (rollback : w.disk.dir.visible .rollback = some j.oldInode.ino)
    (owner : (w.disk.files k).uid = abc ∧ (w.disk.files k).gid = abc)
    (small : (w.disk.files k).size ≤ maxStore) (genuine : Genuine g w.trace k c) :
    Inv g (w.redirect (w.disk.dir.rename .stage .canonical)) := by
  have possible := (Journal.fields_of_committable progress).2.2.2
  refine ⟨h.toCore.commit seen only journal sealed possible stage rollback owner small genuine,
    fun powered => ?_, h.budding.commit h.toCore seen only journal⟩
  have distinct : w.disk.dir.visible .canonical ≠ some k := fun hc => by
    cases h.dir.alone .stage rfl k seen _ w.disk.dir.image_visible .canonical hc
  rw [w.disk.dir.rename_of_visible seen distinct]
  refine (h.tidy powered).redirect (by simp [Change.apply]) (Or.inl (by simp [Change.apply]))
    (fun k hk => by simpa [Change.apply] using hk) fun _ l a hl ha before => ?_
  obtain rfl : i = l := Option.some.inj (journal.symm.trans hl)
  rw [h.unique_journal sealed ha] at before ⊢
  rw [Dir.visible_push]
  have fits := h.fits i j journal sealed _ w.disk.dir.image_visible
  exact before.commit active progress stage (fits.stage k seen).1

theorem Inv.restore (h : Inv g w) (journal : w.disk.dir.visible .journal = some i)
    (sealed : Sealed g w.trace i (.journal j)) (possible : j.commitPossible = true)
    (unverified : j.phase ≠ .liveVerified)
    (seen : w.disk.dir.visible .rollback = some j.oldInode.ino)
    (logged : ∃ e ∈ w.trace, e.event = .renamed .rollback .canonical j.oldInode.ino ∧
      e.disk.dir.visible .canonical = w.disk.dir.visible .canonical) :
    Inv g (w.redirect (w.disk.dir.rename .rollback .canonical)) := by
  by_cases same : w.disk.dir.visible .canonical = some j.oldInode.ino
  · rw [w.disk.dir.rename_same (seen.trans same.symm)]
    exact h
  refine ⟨h.toCore.restore journal sealed possible unverified seen, fun powered => ?_,
    h.budding.restore h.toCore journal sealed unverified seen same⟩
  rw [w.disk.dir.rename_of_visible seen same]
  refine (h.tidy powered).redirect (by simp [Change.apply]) (Or.inl (by simp [Change.apply]))
    (fun k hk => by simpa [Change.apply] using hk) fun clean l a hl ha before => ?_
  obtain ⟨e, he, event, unmoved⟩ := logged
  exact absurd (unmoved.symm.trans (clean e he _ event)) same

end

end CertRenewer
