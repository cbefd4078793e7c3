import CertRenewer.Changes

/-!
# Where a transaction begins

The first journal of a transaction is written over a directory without one, and
until its name is durable the transaction does nothing to the stores.
-/

namespace CertRenewer

open Crash

section
variable {g : Setting} {w t : World} {tr new : List Entry} {d d' : Dir Name} {i : Nat} {c : Content}

theorem not_founds_of_plain {e : Entry} (plain : e.event.plain = true) : ¬ Founds e := by
  rintro ⟨⟨k, event⟩, _⟩
  rw [event] at plain
  cases plain

theorem unjournalled_append (before : ∀ e ∈ new, e.disk.dir.visible .journal = none)
    (h : Unjournalled tr) : Unjournalled (new ++ tr) := by
  induction new with
  | nil => exact h
  | cons e rest ih => exact ⟨before e (by simp), Or.inr (ih fun e he => before e (by simp [he]))⟩

theorem Steady.unjournalled (h : Steady w t) (free : w.disk.dir.visible .journal = none)
    (old : Unjournalled w.trace) : Unjournalled t.trace := by
  obtain ⟨new, trace, plain⟩ := h.trace
  rw [trace]
  refine unjournalled_append (fun e he => ?_) old
  rw [(plain e he).2.1]
  exact free

/-- An event that begins nothing. -/
theorem Budding.extend {e : Entry} (h : Budding g d tr) (disk : e.disk.dir = d) (other : ¬ Founds e) :
    Budding g d (e :: tr) where
  founded ns image free pending := by
    obtain ⟨i, c, seen, sealed, founded⟩ := h.founded ns image free pending
    have possible : ∃ ns, e.disk.dir.Image ns ∧ ns .journal = none := ⟨ns, by rw [disk]; exact image, free⟩
    exact ⟨i, c, seen, sealed.mono (List.suffix_cons _ _), Or.inr ⟨other, possible, founded⟩⟩
  unpublished powered free temporary :=
    Or.inr ⟨by rw [disk]; exact free, h.unpublished powered free temporary⟩

theorem Budding.steady (h : Budding g w.disk.dir w.trace) (k : Steady w t) :
    Budding g t.disk.dir t.trace := by
  obtain ⟨new, trace, plain⟩ := k.trace
  rw [k.disk, trace]
  clear trace
  induction new with
  | nil => exact h
  | cons e rest ih =>
    obtain ⟨ordinary, disk, _⟩ := plain e (by simp)
    exact (ih fun e he => plain e (by simp [he])).extend (by rw [disk]) (not_founds_of_plain ordinary)

/-- The store that a transaction begins over. -/
theorem Core.founds (h : Core g w) {e : Entry} (disk : e.disk = w.disk) (founds : Founds e)
    (fresh : Unjournalled w.trace) : ∃ i c, w.disk.dir.visible .canonical = some i ∧
      Sealed g (e :: w.trace) i c ∧ Founded i c (e :: w.trace) := by
  obtain ⟨i, c, seen, sealed, _⟩ := (h.images _ w.disk.dir.image_visible).canonical
  refine ⟨i, c, seen, sealed.mono (List.suffix_cons _ _), Or.inl ⟨founds, ?_, ?_, fresh⟩⟩
  · rw [disk]
    exact seen
  · rw [disk]
    exact (h.synced i c sealed).2.1

/-- Any event. -/
theorem Budding.log {e : Event} (h : Budding g w.disk.dir w.trace) (core : Core g w)
    (fresh : (∃ k, e = .created .journalNew k) → w.disk.dir.visible .journal = none →
      Unjournalled w.trace) : Budding g w.disk.dir (w.log e).trace := by
  by_cases founds : Founds ⟨e, w.disk, w.service, w.process⟩
  · refine ⟨fun ns image _ _ => ?_, fun _ _ _ => Or.inl founds⟩
    obtain ⟨i, c, seen, rest⟩ := core.founds rfl founds (fresh founds.1 founds.2)
    exact ⟨i, c, (core.idle founds.2 ns image).1.trans seen, rest⟩
  · exact h.extend rfl founds

/-- Another directory, whose images without a journal have the canonical store
of one that was possible before. -/
theorem Budding.redirect (h : Budding g d tr)
    (back : ∀ ns, d'.Image ns → ns .journal = none → Sprouting d' ns → ∃ old, d.Image old ∧
      old .journal = none ∧ Sprouting d old ∧ ns .canonical = old .canonical)
    (seen : g.powered = true → d'.visible .journal = none → d'.visible .journalNew ≠ none →
      d.visible .journal = none ∧ d.visible .journalNew ≠ none) : Budding g d' tr where
  founded ns image free pending := by
    obtain ⟨old, from_, gone, before, same⟩ := back ns image free pending
    obtain ⟨i, c, canonical, rest⟩ := h.founded old from_ gone before
    exact ⟨i, c, same.trans canonical, rest⟩
  unpublished powered free temporary := by
    obtain ⟨gone, there⟩ := seen powered free temporary
    exact h.unpublished powered gone there

/-- A change of one name that is neither the journal's nor the canonical one. -/
theorem Budding.rename (h : Budding g d tr) {n : Name} {o : Option Nat}
    (kind : n ≠ .canonical ∧ n ≠ .journal) (erased : n = .journalNew → o = none)
    (visible : d'.visible = Function.update d.visible n o)
    (images : ∀ ns, d'.Image ns → d.Image ns ∨
      ∃ earlier, d.Image earlier ∧ Function.update earlier n o = ns) : Budding g d' tr := by
  have journal : d'.visible .journal = d.visible .journal := by
    rw [visible]
    simp [kind.2.symm]
  have temporary (ns ns' : Names Name) (eq : ns' = Function.update ns n o)
      (some_ : ns' .journalNew ≠ none) : ns .journalNew ≠ none := by
    rw [eq] at some_
    by_cases hn : n = .journalNew
    · subst hn
      rw [erased rfl] at some_
      simp at some_
    · simpa [Ne.symm hn] using some_
  have pending (ns ns' : Names Name) (eq : ns' .journalNew ≠ none → ns .journalNew ≠ none)
      (h : Sprouting d' ns') : Sprouting d ns := by
    rcases h with there | there | there
    · exact Or.inl (by rw [← journal]; exact there)
    · exact Or.inr (Or.inl (temporary _ _ visible there))
    · exact Or.inr (Or.inr (eq there))
  refine h.redirect (fun ns image free some_ => ?_) fun _ free some_ =>
    ⟨journal.symm.trans free, temporary _ _ visible some_⟩
  rcases images ns image with old | ⟨earlier, old, rfl⟩
  · exact ⟨ns, old, free, pending ns ns id some_, rfl⟩
  · refine ⟨earlier, old, ?_, pending earlier _ (temporary earlier _ rfl) some_, ?_⟩
    · simpa [kind.2.symm] using free
    · simp [kind.1.symm]

/-! ## The changes of a directory -/

theorem Budding.create (h : Budding g w.disk.dir tr) (core : Core g w) {n : Name}
    (kind : n = .stage ∨ n = .journalNew ∨ n = .lock)
    (begun : n = .journalNew → w.disk.dir.visible .journal = none → Unpublished tr ∧
      ∃ i c, w.disk.dir.visible .canonical = some i ∧ Sealed g tr i c ∧ Founded i c tr) :
    Budding g (w.disk.dir.create n) tr := by
  have images (ns : Names Name) (image : (w.disk.dir.create n).Image ns) :=
    (w.disk.dir.image_create n ns).mp image
  by_cases temporary : n = .journalNew
  · subst temporary
    have journal : (w.disk.dir.create .journalNew).visible .journal = w.disk.dir.visible .journal := by
      simp
    have same (ns : Names Name) (image : (w.disk.dir.create .journalNew).Image ns) :
        ∃ old, w.disk.dir.Image old ∧ ns .journal = old .journal ∧ ns .canonical = old .canonical := by
      rcases images ns image with old | ⟨earlier, old, rfl⟩
      · exact ⟨ns, old, rfl, rfl⟩
      · exact ⟨earlier, old, by simp, by simp⟩
    refine ⟨fun ns image free _ => ?_, fun _ free _ => (begun rfl (journal.symm.trans free)).1⟩
    obtain ⟨old, from_, record, canonical⟩ := same ns image
    rw [canonical]
    by_cases there : w.disk.dir.visible .journal = none
    · rw [(core.idle there old from_).1]
      exact (begun rfl there).2
    · exact h.founded old from_ (record.symm.trans free) (Or.inl there)
  · refine h.rename ?_ (fun no => absurd no temporary) (w.disk.dir.visible_create n) images
    rcases kind with rfl | rfl | rfl <;> decide

theorem Budding.unlink (h : Budding g d tr) {n : Name} (kind : n ≠ .canonical)
    (journal : n = .journal → ∀ ns, d.Image ns → ns .journalNew = none) :
    Budding g (d.unlink n) tr := by
  have images (ns : Names Name) (image : (d.unlink n).Image ns) := (d.image_unlink n ns).mp image
  by_cases last : n = .journal
  · subst last
    have gone (ns : Names Name) (image : (d.unlink .journal).Image ns) : ns .journalNew = none := by
      rcases images ns image with old | ⟨earlier, old, rfl⟩
      · exact journal rfl ns old
      · simpa using journal rfl earlier old
    refine ⟨fun ns image _ some_ => ?_, fun _ _ some_ => absurd (gone _ (Dir.image_visible _)) some_⟩
    rcases some_ with there | there | there
    · simp at there
    · exact absurd (gone _ (Dir.image_visible _)) there
    · exact absurd (gone ns image) there
  · exact h.rename ⟨kind, last⟩ (fun _ => rfl) (d.visible_unlink n) images

theorem Budding.sync (h : Budding g d tr) : Budding g d.sync tr := by
  refine h.redirect (fun ns image free some_ => ?_) fun _ free some_ => ⟨free, some_⟩
  rw [d.image_sync] at image
  subst image
  exact ⟨_, d.image_visible, free, some_, rfl⟩

theorem Budding.lose (h : Budding g d tr) (kept : List Bool) (off : ¬ g.powered = true) :
    Budding g (d.lose kept) tr := by
  refine h.redirect (fun ns image free some_ => ?_) fun on => absurd on off
  rw [d.image_lose] at image
  subst image
  refine ⟨_, d.lose_image kept, free, Or.inr (Or.inr ?_), rfl⟩
  rcases some_ with there | there | there
  · exact absurd free there
  · exact there
  · exact there

theorem Budding.link (h : Budding g d tr) (seen : d.visible .canonical = some i) :
    Budding g (d.link .canonical .rollback) tr := by
  rw [d.link_of_visible seen]
  exact h.rename (n := .rollback) (o := some i) (by decide) (fun no => nomatch no)
    (d.visible_push _ _) fun ns image => (d.image_push _ _ ns).mp image

theorem Budding.publish (h : Budding g w.disk.dir tr) (core : Core g w)
    (seen : w.disk.dir.visible .journalNew = some i) :
    Budding g (w.disk.dir.rename .journalNew .journal) tr := by
  have distinct : w.disk.dir.visible .journal ≠ some i := fun hj => by
    cases core.dir.alone .journalNew rfl i seen _ w.disk.dir.image_visible .journal hj
  rw [w.disk.dir.rename_of_visible seen distinct]
  refine h.redirect (fun ns image free _ => ?_) fun _ free => ?_
  · rcases (w.disk.dir.image_push _ _ ns).mp image with old | ⟨earlier, old, rfl⟩
    · exact ⟨ns, old, free, Or.inr (Or.inl (by simp [seen])), rfl⟩
    · simp [Change.apply] at free
  · simp [Change.apply] at free

theorem Budding.commit (h : Budding g w.disk.dir tr) (core : Core g w) {k : Nat}
    (seen : w.disk.dir.visible .stage = some k)
    (only : ∀ ns, w.disk.dir.Image ns → ns = w.disk.dir.visible)
    (journal : w.disk.dir.visible .journal = some i) :
    Budding g (w.disk.dir.rename .stage .canonical) tr := by
  have distinct : w.disk.dir.visible .canonical ≠ some k := fun hc => by
    cases core.dir.alone .stage rfl k seen _ w.disk.dir.image_visible .canonical hc
  rw [w.disk.dir.rename_of_visible seen distinct]
  refine h.redirect (fun ns image free _ => ?_) fun _ free => ?_
  · rcases (w.disk.dir.image_push _ _ ns).mp image with old | ⟨earlier, old, rfl⟩
    · rw [only ns old, journal] at free
      cases free
    · rw [only earlier old] at free
      simp [Change.apply, journal] at free
  · simp [Change.apply, journal] at free

theorem Budding.restore {j : Journal} (h : Budding g w.disk.dir tr) (core : Core g w)
    (journal : w.disk.dir.visible .journal = some i) (sealed : Sealed g w.trace i (.journal j))
    (unverified : j.phase ≠ .liveVerified)
    (seen : w.disk.dir.visible .rollback = some j.oldInode.ino)
    (moved : w.disk.dir.visible .canonical ≠ some j.oldInode.ino) :
    Budding g (w.disk.dir.rename .rollback .canonical) tr := by
  rw [w.disk.dir.rename_of_visible seen moved]
  have there : w.disk.dir.visible .journal ≠ none := by simp [journal]
  refine h.redirect (fun ns image free _ => ?_) fun _ free => ?_
  · rcases (w.disk.dir.image_push _ _ ns).mp image with old | ⟨earlier, old, rfl⟩
    · exact ⟨ns, old, free, Or.inl there, rfl⟩
    · have free : earlier .journal = none := by simpa [Change.apply] using free
      refine ⟨earlier, old, free, Or.inl there, ?_⟩
      -- without a journal there is no rollback, so the old store was canonical all along
      rcases (core.fits i j journal sealed earlier old).canonical with same | ⟨_, _, _, kept | live⟩
      · simpa [Change.apply] using same.symm
      · rw [((core.images earlier old).vacant free).2] at kept
        cases kept
      · exact absurd live unverified
  · simp [Change.apply, journal] at free

end

end CertRenewer
