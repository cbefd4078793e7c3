import CertRenewer.Emits

/-!
# Writing the journal

`write_journal` replaces the journal by way of a temporary file. Wherever it
stops, the journal on disk is the old value or the new one, and the value in
memory may be written again.
-/

namespace CertRenewer

open Crash

section
variable (g : Setting)

/-- The journal in memory may be written, now or again. -/
structure Held (w : World) (j : Journal) : Prop where
  inv : Inv g w
  memory : w.process.journal = some j
  ok : JournalOk g w.trace j
  fits : ∀ ns, w.disk.dir.Image ns → Fits g j ns
  recent : ∀ a ∈ recentWrites w.trace, a.Below j
  disk : ∀ i a, w.disk.dir.visible .journal = some i → Sealed g w.trace i (.journal a) → a.Below j
  same : j.issued.isSome = true → ∀ ns, w.disk.dir.Image ns → ∀ k a, ns .journal = some k →
    Sealed g w.trace k (.journal a) → a.oldInode = j.oldInode
  lock : w.disk.dir.visible .lock ≠ none
  snug : g.powered = true → Unrestored w.trace → Snug g j w.disk.dir.visible
  calm : j.phase ≠ .liveVerified → ∀ i a, w.disk.dir.visible .journal = some i →
    Sealed g w.trace i (.journal a) → a.phase ≠ .liveVerified
  fresh : w.disk.dir.visible .journal = none → Unjournalled w.trace

/-- The journal in memory is the one on disk, and nothing is pending. -/
structure Durable (w : World) (j : Journal) : Prop extends Held g w j where
  only : ∀ ns, w.disk.dir.Image ns → ns = w.disk.dir.visible
  journal : ∃ i, w.disk.dir.visible .journal = some i ∧ Sealed g w.trace i (.journal j)
  temporary : w.disk.dir.visible .journalNew = none

/-- A value that may be handed to the writer. It belongs to a transaction that
began, or begins one on a vacant disk. -/
structure Writable (w : World) (v : Journal) : Prop where
  inv : Inv g w
  memory : w.process.journal = some v
  supported : Supported g w.trace v
  begun : (∃ c, Sealed g w.trace v.oldInode.ino c ∧ Begun w.trace v c) ∨
    (v = v.start ∧ ∃ c, Sealed g w.trace v.oldInode.ino c ∧ Vacant w.disk v.oldInode.ino c)
  fits : ∀ ns, w.disk.dir.Image ns → Fits g v ns
  agree : ∀ a, Wrote w.trace a → a.transaction = v.transaction → a.Agree v
  known : v.transaction < w.uuids
  recent : ∀ a ∈ recentWrites w.trace, a.Below v
  disk : ∀ i a, w.disk.dir.visible .journal = some i → Sealed g w.trace i (.journal a) → a.Below v
  same : v.issued.isSome = true → ∀ ns, w.disk.dir.Image ns → ∀ k a, ns .journal = some k →
    Sealed g w.trace k (.journal a) → a.oldInode = v.oldInode
  lock : w.disk.dir.visible .lock ≠ none
  snug : g.powered = true → Unrestored w.trace → Snug g v w.disk.dir.visible
  calm : ∀ i a, w.disk.dir.visible .journal = some i → Sealed g w.trace i (.journal a) →
    a.phase ≠ .liveVerified
  fresh : w.disk.dir.visible .journal = none → Unjournalled w.trace

/-- What a write of the value `v` leaves alone. -/
structure Scribed (w : World) (v : Journal) (t : World) : Prop where
  names : ∀ n, n ≠ .journal → n ≠ .journalNew → t.disk.dir.visible n = w.disk.dir.visible n
  files : ∀ i < w.disk.dir.next, w.disk.dir.visible .journalNew ≠ some i →
    t.disk.files i = w.disk.files i
  next : w.disk.dir.next ≤ t.disk.dir.next
  sealed : ∀ i < w.disk.dir.next, ∀ c, Sealed g t.trace i c → Sealed g w.trace i c
  suffix : w.trace <:+ t.trace
  imported : ∀ k, ImportedIn t.trace k → ImportedIn w.trace k
  wrote : ∀ a, Wrote t.trace a → a = v ∨ Wrote w.trace a
  process : t.process = w.process
  uuids : t.uuids = w.uuids

end

section
variable {g : Setting} {w t : World} {j v : Journal} {i k : Nat} {n : Name}

/-! ## The invariant over each change -/

theorem recentWrites_cons {e : Entry} {tr : List Entry} (other : ∀ v, e.event ≠ .journalWrite v)
    {a : Journal} (h : a ∈ recentWrites (e :: tr)) : a ∈ recentWrites tr := by
  rw [recentWrites] at h
  split at h
  · cases h
  · exact absurd ‹_› (other _)
  · exact h

theorem Inv.plain (h : Inv g w) {e : Event} (plain : e.plain = true) : Inv g (w.log e) :=
  h.steady (steady_log plain)

theorem Inv.born (h : Inv g w) (kind : n = .stage ∨ n = .journalNew ∨ n = .lock)
    (stage : n = .stage → ∀ ns, w.disk.dir.Image ns → ∃ i j, ns .journal = some i ∧
      Sealed g w.trace i (.journal j) ∧ j.stageInode = none ∧ j.progress = .staging)
    (calm : n = .journalNew → ∀ i a, w.disk.dir.visible .journal = some i →
      Sealed g w.trace i (.journal a) → a.phase ≠ .liveVerified)
    (fresh : n = .journalNew → w.disk.dir.visible .journal = none → Unjournalled w.trace) :
    Inv g (w.born n) := by
  have fresh (named : ∃ k, Event.created n w.disk.dir.next = .created .journalNew k)
      (free : w.disk.dir.visible .journal = none) : Unjournalled w.trace := by
    obtain ⟨_, event⟩ := named
    exact fresh (Event.created.inj event).1 free
  have logged : Inv g (w.log (.created n w.disk.dir.next)) :=
    h.log trivial (fun _ _ no => nomatch no) (fun _ no => nomatch no) (fun _ _ no => nomatch no) fresh
  have sealed {i : Nat} {c : Content} (hs : Sealed g (w.log (.created n w.disk.dir.next)).trace i c) :
      Sealed g w.trace i c := by
    rcases sealed_cons.mp hs with old | ⟨⟨_, no⟩, _⟩
    · exact old
    · cases no
  refine logged.create kind (fun hn ns image => ?_) (fun hn i a hi ha => calm hn i a hi (sealed ha))
    fun hn free => ?_
  · obtain ⟨i, j, hi, sealed, rest⟩ := stage hn ns image
    exact ⟨i, j, hi, sealed.mono (List.suffix_cons _ _), rest⟩
  · subst hn
    have founds : Founds ⟨.created .journalNew w.disk.dir.next, w.disk, w.service, w.process⟩ :=
      ⟨⟨_, rfl⟩, free⟩
    exact ⟨Or.inl founds, h.toCore.founds rfl founds (fresh ⟨_, rfl⟩ free)⟩

/-- A file no other name shares may change until it is synced. -/
theorem Inv.amend (h : Inv g w) {f : Inode → Inode} (single : n.single = true)
    (seen : w.disk.dir.visible n = some i) (unsealed : ∀ c, ¬ Sealed g w.trace i c)
    (healthy : Healthy g.dev n (w.disk.files i) → Healthy g.dev n (f (w.disk.files i)))
    (paired : n = .journalNew → ∀ a, (f (w.disk.files i)).content = .journal a →
      (w.disk.files i).content = .journal a ∨ ∀ l j, w.disk.dir.visible .journal = some l →
        Sealed g w.trace l (.journal j) → a.transaction = j.transaction) :
    Inv g (w.amend i f) := by
  have alone := h.dir.alone n single i seen
  refine h.modify i (fun c hs => absurd hs (unsealed c)) (fun ns image m hm => ?_) fun temporary => ?_
  · rw [alone ns image m hm]
    exact healthy (h.healthy _ w.disk.dir.image_visible n i seen)
  · exact paired (alone _ w.disk.dir.image_visible _ temporary).symm

theorem Inv.settled (h : Inv g w) : Inv g w.settled :=
  (h.plain (e := .syncedDirectory) rfl).syncDirectory

theorem Inv.unlinkedPlain (h : Inv g w) (kind : n = .stage ∨ n = .journalNew) (i : Nat)
    (ended : n = .stage → ∀ i j, w.disk.dir.visible .journal = some i →
      Sealed g w.trace i (.journal j) → j.phase = .recoveredOld) : Inv g (w.unlinked n i) := by
  have plain : (Event.unlinked n).plain = true := by rcases kind with rfl | rfl <;> rfl
  refine ((h.plain plain).touch i).unlink ?_ ?_ ?_ fun which l a hl ha => ?_
  · rcases kind with rfl | rfl <;> decide
  · rcases kind with rfl | rfl <;> intro no <;> cases no
  · rcases kind with rfl | rfl <;> intro no <;> cases no
  · have stage : n = .stage := by
      rcases kind with rfl | rfl
      · rfl
      · rcases which with no | no <;> cases no
    exact Or.inl (ended stage l a hl ((steady_log plain).sealed.mp ha))

/-! ## What may be written again -/

/-- Another disk, on which the journal's names are as it allows them. -/
theorem Held.move (h : Held g w j) (inv : Inv g t) (suffix : w.trace <:+ t.trace)
    (memory : t.process.journal = w.process.journal)
    (recent : ∀ a ∈ recentWrites t.trace, a ∈ recentWrites w.trace)
    (fits : ∀ ns, t.disk.dir.Image ns → Fits g j ns)
    (journals : ∀ ns, t.disk.dir.Image ns → ∃ old, w.disk.dir.Image old ∧ ns .journal = old .journal)
    (seen : t.disk.dir.visible .journal = w.disk.dir.visible .journal)
    (lock : t.disk.dir.visible .lock = w.disk.dir.visible .lock)
    (snug : Snug g j w.disk.dir.visible → Unrestored t.trace → Snug g j t.disk.dir.visible)
    (fresh : w.disk.dir.visible .journal = none → Unjournalled w.trace → Unjournalled t.trace) :
    Held g t j where
  inv := inv
  fresh free := by
    rw [seen] at free
    exact fresh free (h.fresh free)
  lock := by rw [lock]; exact h.lock
  snug powered clean := snug (h.snug powered (clean.of_suffix suffix)) clean
  calm unverified i a hi ha := by
    rw [seen] at hi
    obtain ⟨b, hb, _⟩ := h.inv.visible_journal hi
    rw [inv.unique_journal (hb.mono suffix) ha]
    exact h.calm unverified i b hi hb
  memory := memory.trans h.memory
  ok := h.ok.mono suffix
  fits := fits
  recent a ha := h.recent a (recent a ha)
  disk i a hi ha := by
    rw [seen] at hi
    obtain ⟨b, hb, _⟩ := h.inv.visible_journal hi
    rw [inv.unique_journal (hb.mono suffix) ha]
    exact h.disk i b hi hb
  same issued ns image k a hk ha := by
    obtain ⟨old, from_, eq⟩ := journals ns image
    rw [eq] at hk
    obtain ⟨b, hb, _⟩ := (h.inv.images old from_).journal k hk
    rw [inv.unique_journal (hb.mono suffix) ha]
    exact h.same issued old from_ k b hk hb

theorem Held.steady (h : Held g w j) (s : Steady w t) : Held g t j := by
  refine h.move (h.inv.steady s) s.suffix s.journal (fun a ha => s.recentWrites ha) ?_ ?_ ?_ ?_ ?_
    s.unjournalled
  · rw [s.disk]
    exact h.fits
  · intro ns image
    rw [s.disk] at image
    exact ⟨ns, image, rfl⟩
  · rw [s.disk]
  · rw [s.disk]
  · rw [s.disk]
    exact fun old _ => old

/-- A change that leaves the journal and the stores in every image. -/
theorem Held.carry (h : Held g w j) (inv : Inv g t) {e : Entry} (trace : t.trace = e :: w.trace)
    (disk : e.disk = w.disk) (other : ∀ v, e.event ≠ .journalWrite v)
    (memory : t.process.journal = w.process.journal)
    (images : ∀ ns, t.disk.dir.Image ns → ∃ old, w.disk.dir.Image old ∧
      ns .canonical = old .canonical ∧ ns .stage = old .stage ∧ ns .rollback = old .rollback ∧
      ns .journal = old .journal)
    (names : ∀ n, n ≠ .journalNew → t.disk.dir.visible n = w.disk.dir.visible n) : Held g t j := by
  have suffix : w.trace <:+ t.trace := by
    rw [trace]
    exact List.suffix_cons _ _
  refine h.move inv suffix memory (fun a ha => recentWrites_cons other (by rw [← trace]; exact ha))
    (fun ns image => ?_) (fun ns image => ?_) (names _ (by decide)) (names _ (by decide))
    (fun old _ => ?_) fun free old => ?_
  · obtain ⟨old, from_, canonical, stage, rollback, _⟩ := images ns image
    exact (h.fits old from_).of_eq canonical stage rollback
  · obtain ⟨old, from_, _, _, _, journal⟩ := images ns image
    exact ⟨old, from_, journal⟩
  · exact old.of_eq (names _ (by decide)) (names _ (by decide)) (names _ (by decide))
  · rw [trace]
    exact ⟨by rw [disk]; exact free, Or.inr old⟩

theorem Held.unlinkedNew (h : Held g w j) (i : Nat) : Held g (w.unlinked .journalNew i) j := by
  refine h.carry (h.inv.unlinkedPlain (Or.inr rfl) i fun no => nomatch no) rfl rfl
    (fun _ no => nomatch no) rfl ?_ fun n hn => ?_
  · intro ns image
    rcases (w.disk.dir.image_unlink .journalNew ns).mp image with old | ⟨earlier, old, rfl⟩
    · exact ⟨ns, old, rfl, rfl, rfl, rfl⟩
    · exact ⟨earlier, old, by simp, by simp, by simp, by simp⟩
  · simp [World.unlinked, hn]

theorem Held.bornNew (h : Held g w j)
    (calm : ∀ i a, w.disk.dir.visible .journal = some i → Sealed g w.trace i (.journal a) →
      a.phase ≠ .liveVerified) : Held g (w.born .journalNew) j := by
  refine h.carry (h.inv.born (Or.inr (Or.inl rfl)) (fun no => nomatch no) (fun _ => calm)
    fun _ => h.fresh) rfl rfl (fun _ no => nomatch no) rfl ?_ fun n hn => ?_
  · intro ns image
    rcases (w.disk.dir.image_create .journalNew ns).mp image with old | ⟨earlier, old, rfl⟩
    · exact ⟨ns, old, rfl, rfl, rfl, rfl⟩
    · exact ⟨earlier, old, by simp, by simp, by simp, by simp⟩
  · simp [World.born, Disk.create, hn]

theorem Held.amend (h : Held g w j) {f : Inode → Inode} (inv : Inv g (w.amend i f)) :
    Held g (w.amend i f) j :=
  h.move inv (List.suffix_refl _) rfl (fun _ ha => ha) h.fits (fun ns image => ⟨ns, image, rfl⟩) rfl rfl
    (fun old _ => old) fun _ old => old

theorem Held.fsynced (h : Held g w j) (below : i < w.disk.dir.next) :
    Held g (w.fsynced n i) j :=
  h.carry (h.inv.fsync below) rfl rfl (fun _ no => nomatch no) rfl
    (fun ns image => ⟨ns, image, rfl, rfl, rfl, rfl⟩) fun _ _ => rfl

theorem Held.settled (h : Held g w j) : Held g w.settled j := by
  refine h.carry h.inv.settled rfl rfl (fun _ no => nomatch no) rfl ?_ fun _ _ => rfl
  intro ns image
  rw [(w.disk.dir.image_sync ns).mp image]
  exact ⟨_, w.disk.dir.image_visible, rfl, rfl, rfl, rfl⟩

/-- The new journal is published. -/
theorem Held.published (h : Held g w j) (seen : w.disk.dir.visible .journalNew = some i)
    (sealed : Sealed g w.trace i (.journal j)) :
    Held g (w.renamed .journalNew .journal i) j ∧
      (w.renamed .journalNew .journal i).disk.dir.visible =
        (Change.move .journalNew .journal i).apply w.disk.dir.visible := by
  have touched := (h.inv.plain (e := .renamed .journalNew .journal i) rfl).touch i
  have suffix : w.trace <:+ (w.renamed .journalNew .journal i).trace := List.suffix_cons _ _
  have alone := h.inv.dir.alone .journalNew rfl i seen
  have distinct : w.disk.dir.visible .journal ≠ some i := fun hj => by
    cases alone _ w.disk.dir.image_visible .journal hj
  have dir : (w.renamed .journalNew .journal i).disk.dir = w.disk.dir.push
      (.move .journalNew .journal i) (Dir.move_below (w.disk.dir.visible_lt seen)) :=
    w.disk.dir.rename_of_visible seen distinct
  have old {k : Nat} {a : Journal} {ns : Names Name} (image : w.disk.dir.Image ns)
      (hk : ns .journal = some k)
      (ha : Sealed g (w.renamed .journalNew .journal i).trace k (.journal a)) :
      Sealed g w.trace k (.journal a) := by
    rcases sealed_cons.mp ha with old | ⟨⟨_, no⟩, _⟩
    · exact old
    · cases no
  have inv : Inv g (w.renamed .journalNew .journal i) := by
    refine touched.publish seen (sealed.mono suffix) (h.ok.mono suffix) h.fits ?_ h.lock
      fun powered clean => h.snug powered (clean.of_suffix suffix)
    intro issued ns image k a hk ha
    exact h.same issued ns image k a hk (old image hk ha)
  have images {ns : Names Name} (image : (w.renamed .journalNew .journal i).disk.dir.Image ns) :
      w.disk.dir.Image ns ∨ ∃ earlier, w.disk.dir.Image earlier ∧
        (Change.move .journalNew .journal i).apply earlier = ns := by
    rw [dir] at image
    exact (w.disk.dir.image_push _ _ ns).mp image
  have visible : (w.renamed .journalNew .journal i).disk.dir.visible =
      (Change.move .journalNew .journal i).apply w.disk.dir.visible := by
    rw [dir, Dir.visible_push]
  refine ⟨⟨inv, h.memory, h.ok.mono suffix, ?_, ?_, ?_, ?_, ?_, fun powered clean => ?_,
    fun unverified k a hk ha => ?_, fun free => ?_⟩, visible⟩
  · intro ns image
    rcases images image with from_ | ⟨earlier, from_, rfl⟩
    · exact h.fits ns from_
    · exact (h.fits earlier from_).of_eq (by simp [Change.apply]) (by simp [Change.apply])
        (by simp [Change.apply])
  · intro a ha
    have ha : a ∈ recentWrites (⟨.renamed .journalNew .journal i, w.disk, w.service, w.process⟩ ::
      w.trace) := ha
    exact h.recent a (recentWrites_cons (by rintro _ ⟨⟩) ha)
  · intro k a hk ha
    rw [visible] at hk
    obtain rfl : i = k := by simpa [Change.apply] using hk
    rw [inv.unique_journal (sealed.mono suffix) ha]
    exact Journal.Below.refl j
  · intro issued ns image k a hk ha
    rcases images image with from_ | ⟨earlier, from_, rfl⟩
    · exact h.same issued ns from_ k a hk (old from_ hk ha)
    · obtain rfl : i = k := by simpa [Change.apply] using hk
      rw [inv.unique_journal (sealed.mono suffix) ha]
  · rw [visible]
    simpa [Change.apply] using h.lock
  · rw [visible]
    exact (h.snug powered (clean.of_suffix suffix)).of_eq (by simp [Change.apply])
      (by simp [Change.apply]) (by simp [Change.apply])
  · rw [visible] at hk
    obtain rfl : i = k := by simpa [Change.apply] using hk
    rw [inv.unique_journal (sealed.mono suffix) ha]
    exact unverified
  · rw [visible] at free
    simp [Change.apply] at free

/-! ## The writer -/

theorem Durable.there (h : Durable g w j) : w.disk.dir.visible .journal ≠ none := by
  obtain ⟨i, seen, _⟩ := h.journal
  simp [seen]

theorem Scribed.refl (w : World) : Scribed g w v w :=
  ⟨fun _ _ _ => rfl, fun _ _ _ => rfl, Nat.le_refl _, fun _ _ _ h => h, List.suffix_refl _,
    fun _ h => h, fun _ h => Or.inr h, rfl, rfl⟩

theorem Scribed.quiet {u : World} (h : Scribed g w v t) (q : Quiet t u) : Scribed g w v u where
  names n hj hn := by rw [q.disk]; exact h.names n hj hn
  files i hi hn := by rw [q.disk]; exact h.files i hi hn
  next := by rw [q.disk]; exact h.next
  sealed i hi c hs := h.sealed i hi c (q.toSteady.sealed.mp hs)
  suffix := h.suffix.trans q.toSteady.suffix
  imported k hk := h.imported k ((q.toSteady.importedIn k).mp hk)
  wrote a ha := h.wrote a (q.toSteady.wrote.mp ha)
  process := q.process.trans h.process
  uuids := q.uuids.trans h.uuids

/-- A logged change of a journal file. -/
theorem Scribed.change {u : World} {e : Entry} (h : Scribed g w v t) (trace : u.trace = e :: t.trace)
    (unsynced : ∀ n i, e.event = .syncedFile n i → w.disk.dir.next ≤ i)
    (other : ∀ n reply, e.event ≠ .keytool n (.importcert reply))
    (mine : ∀ a, e.event = .journalWrite a → a = v)
    (names : ∀ n, n ≠ .journal → n ≠ .journalNew → u.disk.dir.visible n = t.disk.dir.visible n)
    (files : ∀ i < w.disk.dir.next, w.disk.dir.visible .journalNew ≠ some i →
      u.disk.files i = t.disk.files i)
    (next : t.disk.dir.next ≤ u.disk.dir.next) (process : u.process = t.process)
    (uuids : u.uuids = t.uuids) : Scribed g w v u where
  names n hj hn := (names n hj hn).trans (h.names n hj hn)
  files i hi hn := (files i hi hn).trans (h.files i hi hn)
  next := Nat.le_trans h.next next
  sealed i hi c hs := by
    rw [trace] at hs
    rcases sealed_cons.mp hs with old | ⟨⟨n, hn⟩, _⟩
    · exact h.sealed i hi c old
    · have := unsynced n i hn
      omega
  suffix := h.suffix.trans (by rw [trace]; exact List.suffix_cons _ _)
  imported k hk := by
    rw [trace] at hk
    rcases importedIn_cons.mp hk with ⟨⟨n, reply, hi⟩, _⟩ | old
    · exact absurd hi (other n reply)
    · exact h.imported k old
  wrote a ha := by
    rw [trace] at ha
    rcases wrote_cons.mp ha with eq | old
    · exact Or.inl (mine a eq)
    · exact h.wrote a old
  process := process.trans h.process
  uuids := uuids.trans h.uuids

theorem Scribed.amend {f : Inode → Inode} (h : Scribed g w v t) (new : w.disk.dir.next ≤ k) :
    Scribed g w v (t.amend k f) where
  names := h.names
  files i hi hn := by
    have ne : i ≠ k := by omega
    simpa [World.amend, Disk.modify, ne] using h.files i hi hn
  next := h.next
  sealed := h.sealed
  suffix := h.suffix
  imported := h.imported
  wrote := h.wrote
  process := h.process
  uuids := h.uuids

/-- The value is on record, and from here on it may be written. -/
theorem Writable.logged (h : Writable g w v) : Held g (w.log (.journalWrite v)) v := by
  have suffix : w.trace <:+ (w.log (.journalWrite v)).trace := List.suffix_cons _ _
  have sealed {i : Nat} {c : Content} (hs : Sealed g (w.log (.journalWrite v)).trace i c) :
      Sealed g w.trace i c := by
    rcases sealed_cons.mp hs with old | ⟨⟨_, no⟩, _⟩
    · exact old
    · cases no
  have inv : Inv g (w.log (.journalWrite v)) := by
    refine h.inv.log (e := .journalWrite v) ⟨h.memory, h.agree, h.recent, ?_, ?_⟩
      (fun _ _ no => nomatch no) ?_ (fun _ _ no => nomatch no) fun ⟨_, no⟩ => nomatch no
    · intro i a hi ha
      obtain ⟨b, hb, ok, _⟩ := h.inv.visible_journal hi
      have : Content.journal a = .journal b := ha.symm.trans (h.inv.synced _ _ hb).2.1
      cases this
      exact ⟨ok.wrote, h.disk i a hi hb⟩
    · intro unknown
      rcases h.begun with ⟨c, _, e, he, hw, _⟩ | ⟨_, c, _, vacant⟩
      · exact absurd rfl (unknown v.start ⟨e, he, hw⟩)
      · exact ⟨_, c, vacant⟩
    · rintro _ ⟨⟩
      exact ⟨h.known, h.agree⟩
  refine ⟨inv, h.memory, ⟨h.supported.mono suffix, ⟨_, List.mem_cons_self, rfl⟩, ?_⟩, h.fits, ?_, ?_, ?_,
    h.lock, fun powered clean => h.snug powered (clean.of_suffix suffix),
    fun _ i a hi ha => h.calm i a hi (sealed ha), fun free => ⟨free, Or.inr (h.fresh free)⟩⟩
  · rcases h.begun with ⟨c, hs, hb⟩ | ⟨start, c, hs, vacant⟩
    · exact ⟨c, hs.mono suffix, hb.mono suffix⟩
    · exact ⟨c, hs.mono suffix, _, List.mem_cons_self, by rw [← start], vacant⟩
  · intro a ha
    have ha : a = v ∨ a ∈ recentWrites w.trace := List.mem_cons.mp ha
    rcases ha with rfl | ha
    · exact Journal.Below.refl a
    · exact h.recent a ha
  · intro i a hi ha
    exact h.disk i a hi (sealed ha)
  · intro issued ns image k a hk ha
    exact h.same issued ns image k a hk (sealed ha)

/-- The value is being written, and the journal is still the one there was. -/
structure Penned (g : Setting) (w : World) (v : Journal) (t : World) : Prop where
  held : Held g t v
  scribed : Scribed g w v t
  journal : t.disk.dir.visible .journal = w.disk.dir.visible .journal

theorem Penned.quiet {u : World} (h : Penned g w v t) (q : Quiet t u) : Penned g w v u where
  held := h.held.steady q.toSteady
  scribed := h.scribed.quiet q
  journal := by rw [q.disk]; exact h.journal

theorem Penned.calm (h : Penned g w v t) (write : Writable g w v) (i : Nat) (a : Journal)
    (seen : t.disk.dir.visible .journal = some i) (sealed : Sealed g t.trace i (.journal a)) :
    a.phase ≠ .liveVerified := by
  rw [h.journal] at seen
  exact write.calm i a seen (h.scribed.sealed i (w.disk.dir.visible_lt seen) _ sealed)

/-- A temporary journal of this write, not yet synced. -/
structure Drafted (g : Setting) (w : World) (v : Journal) (k : Nat) (t : World) :
    Prop extends Penned g w v t where
  seen : t.disk.dir.visible .journalNew = some k
  new : w.disk.dir.next ≤ k
  unsealed : ∀ c, ¬ Sealed g t.trace k c

theorem Drafted.quiet {u : World} (h : Drafted g w v k t) (q : Quiet t u) : Drafted g w v k u where
  toPenned := h.toPenned.quiet q
  seen := by rw [q.disk]; exact h.seen
  new := h.new
  unsealed c hs := h.unsealed c (q.toSteady.sealed.mp hs)

theorem Drafted.amend {f : Inode → Inode} (h : Drafted g w v k t)
    (healthy : ∀ file, Healthy g.dev .journalNew file → Healthy g.dev .journalNew (f file))
    (mine : ∀ a, (f (t.disk.files k)).content = .journal a →
      (t.disk.files k).content = .journal a ∨ a = v) : Drafted g w v k (t.amend k f) where
  held := by
    refine h.held.amend (h.held.inv.amend rfl h.seen h.unsealed (healthy _) fun _ a ha => ?_)
    rcases mine a ha with old | rfl
    · exact Or.inl old
    · exact Or.inr fun l j hl hj => (h.held.disk l j hl hj).start.transaction.symm
  scribed := h.scribed.amend h.new
  journal := h.journal
  seen := h.seen
  new := h.new
  unsealed := h.unsealed

theorem Penned.born (h : Penned g w v t) (write : Writable g w v) :
    Drafted g w v t.disk.dir.next (t.born .journalNew) where
  held := h.held.bornNew (h.calm write)
  scribed := by
    refine h.scribed.change rfl (fun _ _ no => nomatch no) (fun _ _ no => nomatch no)
      (fun _ no => nomatch no) ?_ ?_
      (Nat.le_succ _) rfl rfl
    · intro n _ hn
      simp [World.born, Disk.create, hn]
    · intro i hi _
      have below := h.scribed.next
      have ne : i ≠ t.disk.dir.next := by omega
      simp [World.born, Disk.create, ne]
  journal := by
    rw [← h.journal]
    simp [World.born, Disk.create]
  seen := by simp [World.born, Disk.create]
  new := h.scribed.next
  unsealed c hs := by
    rcases sealed_cons.mp hs with old | ⟨⟨_, no⟩, _⟩
    · have := (h.held.inv.synced _ c old).1
      omega
    · cases no

/-- Where a write can stop: the journal is the one there was, or the new one. -/
structure Partial (g : Setting) (w : World) (v : Journal) (t : World) : Prop where
  held : Held g t v
  scribed : Scribed g w v t
  journal : t.disk.dir.visible .journal = w.disk.dir.visible .journal ∨
    t.disk.dir.visible .journal ≠ none

theorem Partial.inv (h : Partial g w v t) : Inv g t := h.held.inv

theorem Penned.partial_ (h : Penned g w v t) : Partial g w v t := ⟨h.held, h.scribed, Or.inl h.journal⟩

theorem writeJournal_keeps (x : Session) (h : Writable g w v) :
    Prog.Holds (writeJournal x v) (fun _ t => Durable g t v ∧ Scribed g w v t)
      (fun _ => Partial g w v) (Partial g w v) w := by
  have logged : Scribed g w v (w.log (.journalWrite v)) :=
    (Scribed.refl w).change rfl (fun _ _ no => by cases no) (fun _ _ no => by cases no)
      (fun _ eq => (Event.journalWrite.inj eq).symm) (fun _ _ _ => rfl) (fun _ _ _ => rfl) (Nat.le_refl _) rfl rfl
  refine Prog.holds_bind_of (R := fun _ t => t = w.log (.journalWrite v)) rfl fun _ t ht => ?_
  subst ht
  -- the encoding, then the removal of what an earlier write left
  have encode : Reads (primitive x (Prog.read fun w => (x.oracle.encodedSize w.tick).val))
      fun size _ => size ≤ maxJournal :=
    reads_primitive x fun t => ⟨Quiet.refl t, Nat.le_of_lt_succ (x.oracle.encodedSize t.tick).isLt⟩
  refine Prog.holds_bind_of (encode.keeps (K := fun t => Penned g w v t ∧ t.disk = w.disk)
    (fun s t q hs => ⟨hs.1.quiet q, q.disk.trans hs.2⟩) (fun t hs => hs.1.partial_)
    ⟨⟨h.logged, logged, rfl⟩, rfl⟩) fun size t encoded => ?_
  obtain ⟨ht, small⟩ := encoded
  refine Prog.holds_bind_of (remove_keeps x (K := fun t => Penned g w v t ∧ t.disk = w.disk)
    (L := Penned g w v) (fun s t q hs => ⟨hs.1.quiet q, q.disk.trans hs.2⟩) (fun t hs => hs.1.partial_)
    (fun t hs => hs.partial_) ht (fun t ht _ => ht.1)
    fun t i ht seen => ⟨ht.1.held.unlinkedNew i, ?_, ?_⟩) fun _ t ht => ?_
  · refine ht.1.scribed.change rfl (fun _ _ no => by cases no) (fun _ _ no => by cases no)
      (fun _ no => by cases no) ?_ ?_
      (Nat.le_refl _) rfl rfl
    · intro n _ hn
      simp [World.unlinked, hn]
    · intro k _ hn
      have ne : k ≠ i := by
        rintro rfl
        exact hn (by rw [← ht.2]; exact seen)
      simp [World.unlinked, Disk.touch, Disk.modify, ne]
  · rw [← ht.1.journal]
    simp [World.unlinked]
  -- the new temporary file
  refine Prog.holds_bind_of (create_keeps x (K := Penned g w v) (L := fun k t => Drafted g w v k t)
    (fun s t q hs => hs.quiet q) (fun t hs => hs.partial_)
    (fun k s t q hs => hs.quiet q) (fun k t hs => hs.partial_) ht
    (fun t ht _ => ht.born h)
    (fun k t hs => hs.amend (fun file hf =>
      ⟨hf.regular, hf.mode, hf.device, hf.outside, hf.size, fun _ => ⟨rfl, rfl⟩⟩) fun _ => Or.inl)
    (fun k t hs => hs.amend (fun file hf =>
      ⟨hf.regular, rfl, hf.device, hf.outside, hf.size, hf.owner⟩) fun _ => Or.inl)) fun k t created => ?_
  have ht := created.1
  refine Prog.holds_bind_of (write_keeps x (K := Drafted g w v k)
    (L := fun t => Drafted g w v k t ∧ (t.disk.files k).content = .journal v)
    (fun s t q hs => hs.quiet q) (fun t hs => hs.partial_) (fun t hs => hs.1.partial_) ht
    (fun t bytes hs => hs.amend (fun file hf => ⟨hf.regular, hf.mode, hf.device, hf.outside,
      fun _ => Nat.le_trans (Nat.min_le_right _ _) small, hf.owner⟩) fun _ no => by cases no)
    fun t hs => ⟨hs.amend (fun file hf => ⟨hf.regular, hf.mode, hf.device, hf.outside,
      fun _ => small, hf.owner⟩) fun _ eq => Or.inr (Content.journal.inj eq).symm,
      by simp [World.amend, Disk.modify]⟩) fun _ t ht => ?_
  refine Prog.holds_bind_of (fsyncFile_keeps x
    (K := fun t => Drafted g w v k t ∧ (t.disk.files k).content = .journal v)
    (L := fun t => Penned g w v t ∧ t.disk.dir.visible .journalNew = some k ∧
      w.disk.dir.next ≤ k ∧ Sealed g t.trace k (.journal v))
    (fun s t q hs => ⟨hs.1.quiet q, by rw [q.disk]; exact hs.2⟩) (fun t hs => hs.1.partial_)
    (fun t hs => hs.1.partial_) ht
    fun t written => ⟨⟨written.1.held.fsynced (t.disk.dir.visible_lt written.1.seen), ?_,
      written.1.journal⟩, written.1.seen, written.1.new,
      sealed_cons.mpr (Or.inr ⟨⟨_, rfl⟩, written.2⟩)⟩) fun _ t ht => ?_
  · have hs := written.1
    refine hs.scribed.change rfl ?_ (fun _ _ no => by cases no) (fun _ no => by cases no)
      (fun _ _ _ => rfl) ?_ (Nat.le_refl _)
      rfl rfl
    · rintro n i ⟨⟩
      exact hs.new
    · intro i hi _
      have ne : i ≠ k := by
        have := hs.new
        omega
      simp [World.fsynced, Disk.modify, ne]
  -- the rename, and its sync
  refine Prog.holds_bind_of (replace_keeps x
    (K := fun t => Penned g w v t ∧ t.disk.dir.visible .journalNew = some k ∧
      w.disk.dir.next ≤ k ∧ Sealed g t.trace k (.journal v))
    (L := fun t => Held g t v ∧ Scribed g w v t ∧ t.disk.dir.visible .journal = some k ∧
      t.disk.dir.visible .journalNew = none ∧ Sealed g t.trace k (.journal v))
    (fun s t q hs => ⟨hs.1.quiet q, by rw [q.disk]; exact hs.2.1, hs.2.2.1,
      q.toSteady.sealed.mpr hs.2.2.2⟩) (fun t hs => hs.1.partial_)
    (fun t hs => ⟨hs.1, hs.2.1, Or.inr (by simp [hs.2.2.1])⟩) ht
    fun t i s written hi _ _ => ?_) fun _ t ht => ?_
  · obtain ⟨hs, seen, new, sealed⟩ := written
    obtain rfl : k = i := Option.some.inj (seen.symm.trans hi)
    obtain ⟨held, visible⟩ := hs.held.published seen sealed
    refine ⟨held, ?_, ?_, ?_, sealed.mono (List.suffix_cons _ _)⟩
    · refine hs.scribed.change rfl (fun _ _ no => by cases no) (fun _ _ no => by cases no)
        (fun _ no => by cases no) ?_ ?_ ?_ rfl rfl
      · intro n hj hn
        rw [visible]
        simp [Change.apply, hj, hn]
      · intro i hi _
        have ne : i ≠ k := by omega
        simp [World.renamed, Disk.touch, Disk.modify, ne]
      · change _ ≤ (t.disk.dir.rename .journalNew .journal).next
        unfold Dir.rename
        split
        · split <;> exact Nat.le_refl _
        · exact Nat.le_refl _
    · rw [visible]
      simp [Change.apply]
    · rw [visible]
      simp [Change.apply]
  refine syncDirectory_keeps x
    (K := fun t => Held g t v ∧ Scribed g w v t ∧ t.disk.dir.visible .journal = some k ∧
      t.disk.dir.visible .journalNew = none ∧ Sealed g t.trace k (.journal v))
    (L := fun t => Durable g t v ∧ Scribed g w v t)
    (fun s t q hs => ⟨hs.1.steady q.toSteady, hs.2.1.quiet q, by rw [q.disk]; exact hs.2.2.1,
      by rw [q.disk]; exact hs.2.2.2.1, q.toSteady.sealed.mpr hs.2.2.2.2⟩)
    (fun t hs => ⟨hs.1, hs.2.1, Or.inr (by simp [hs.2.2.1])⟩)
    (fun t hs => ⟨hs.1.toHeld, hs.2, Or.inr hs.1.there⟩) ht fun t renamed => ?_
  obtain ⟨hs, hw, seen, free, sealed⟩ := renamed
  refine ⟨⟨hs.settled, fun ns image => (t.disk.dir.image_sync ns).mp image,
    ⟨k, seen, sealed.mono (List.suffix_cons _ _)⟩, free⟩, ?_⟩
  exact hw.change rfl (fun _ _ no => by cases no) (fun _ _ no => by cases no)
    (fun _ no => by cases no) (fun _ _ _ => rfl)
    (fun _ _ _ => rfl) (Nat.le_refl _) rfl rfl

/-! ## Phases -/

def World.remember (w : World) (j : Journal) : World :=
  { w with process := { w.process with journal := some j } }

theorem Inv.remember (h : Inv g w) (proper : v.Proper g) : Inv g (w.remember v) := by
  refine { h with memory := fun j hj => ?_ }
  obtain rfl : v = j := Option.some.inj hj
  exact proper

/-- The next value of the journal in memory, further than the last. -/
theorem Held.writable (h : Held g w j) (supported : Supported g w.trace v) (below : j.Below v)
    (fits : ∀ ns, w.disk.dir.Image ns → Fits g v ns)
    (agree : ∀ a, Wrote w.trace a → a.transaction = j.transaction → a.Agree v)
    (same : v.issued.isSome = true → ∀ ns, w.disk.dir.Image ns → ∀ k a, ns .journal = some k →
      Sealed g w.trace k (.journal a) → a.oldInode = j.oldInode)
    (snug : Snug g j w.disk.dir.visible → Snug g v w.disk.dir.visible)
    (calm : ∀ i a, w.disk.dir.visible .journal = some i → Sealed g w.trace i (.journal a) →
      a.phase ≠ .liveVerified) :
    Writable g (w.remember v) v where
  lock := h.lock
  snug powered clean := snug (h.snug powered clean)
  calm := calm
  fresh := h.fresh
  inv := h.inv.remember supported.proper
  memory := rfl
  supported := supported
  begun := by
    obtain ⟨c, sealed, e, he, wrote, vacant⟩ := h.ok.begun
    rw [below.start.start_eq] at wrote
    rw [below.start.oldInode] at sealed vacant
    exact Or.inl ⟨c, sealed, e, he, wrote, vacant⟩
  fits := fits
  agree a ha eq := agree a ha (eq.trans below.start.transaction.symm)
  known := by
    rw [← below.start.transaction]
    exact h.inv.wrote j h.ok.wrote
  recent a ha := (h.recent a ha).trans below
  disk i a hi ha := (h.disk i a hi ha).trans below
  same issued ns image k a hk ha := (same issued ns image k a hk ha).trans below.start.oldInode

theorem phase_keeps (x : Session) {p : Phase} {f : Journal → Journal}
    (memory : w.process.journal = some j) (next : v = { f j with phase := p })
    (write : Writable g (w.remember v) v) :
    Prog.Holds (phase x p f)
      (fun _ t => Durable g t v ∧ Scribed g (w.remember v) v t) (fun _ => Partial g (w.remember v) v)
      (Partial g (w.remember v) v) w := by
  have read : getJournal w = (.ok j, w) := by
    simp [getJournal, Prog.bind_apply, Prog.read, memory]
    rfl
  unfold phase
  rw [Prog.holds_bind]
  unfold Prog.Holds
  rw [read]
  change Prog.Holds _ _ _ _ w
  rw [← next, Prog.holds_bind]
  change Prog.Holds _ _ _ _ (w.remember v)
  rw [Prog.holds_bind]
  unfold lift
  rw [write.supported.proper.validate]
  exact writeJournal_keeps x write

/-- A phase that changes nothing else of the journal. -/
theorem Held.rephased (h : Held g w j) {p : Phase} (unverified : j.phase ≠ .liveVerified)
    (progress : j.progress ∈ allowedProgress p) (resume : p = .liveVerified → j.resume = true)
    (live : p = .liveVerified → Observed g w.trace { j with phase := p })
    (snug : Snug g j w.disk.dir.visible → Snug g { j with phase := p } w.disk.dir.visible) :
    Writable g (w.remember { j with phase := p }) { j with phase := p } := by
  have proper := h.ok.supported.proper
  refine h.writable ⟨⟨proper.version, proper.oldBounded, proper.oldDev, proper.issued, proper.stage,
    progress, resume⟩, h.ok.supported.old, ?_, live⟩ ⟨⟨rfl, rfl, rfl, rfl, rfl, rfl⟩, Or.inr rfl,
    Or.inr rfl, id, id⟩ ?_ ?_ h.same snug (h.calm unverified)
  · intro possible
    obtain ⟨i, c, id, stage, sealed, proved, rest⟩ := h.ok.supported.committable possible
    exact ⟨i, c, id, stage, sealed, proved, rest⟩
  · intro ns image
    have old := h.fits ns image
    refine ⟨?_, old.rollback, old.stage⟩
    rcases old.canonical with eq | ⟨possible, stage, none, kept | live⟩
    · exact Or.inl eq
    · exact Or.inr ⟨possible, stage, none, Or.inl kept⟩
    · exact absurd live unverified
  · intro a ha eq
    have agree := h.inv.agree a j ha h.ok.wrote eq
    exact ⟨agree.start.trans ⟨rfl, rfl, rfl, rfl, rfl, rfl⟩, agree.issued, agree.stageInode⟩

end

end CertRenewer
