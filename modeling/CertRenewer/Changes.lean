import CertRenewer.Invariant

/-!
# Changes that keep the invariant

One lemma for each change an operation makes to the world: a new entry of the
trace, a new inode or a changed one, a changed directory entry, a sync, a power
loss.
-/

namespace CertRenewer

open Crash

/-! ## Entries of the directory -/

section
variable {d : Dir Name} {n m : Name} {i k : Nat}

theorem Name.keeper_of_single {n : Name} (h : n.single = true) : n.keeper = false := by
  cases n <;> simp_all [Name.single, Name.keeper]

theorem DirOk.of_subset {d' : Dir Name} (h : DirOk d) (seen : d'.visible = d.visible)
    (sub : ∀ ns, d'.Image ns → d.Image ns) : DirOk d' where
  distinct ns image := h.distinct ns (sub ns image)
  alone n hn i hi ns image := h.alone n hn i (by rw [← seen]; exact hi) ns (sub ns image)

theorem DirOk.sync (h : DirOk d) : DirOk d.sync :=
  h.of_subset rfl fun ns image => by
    rw [(d.image_sync ns).mp image]
    exact d.image_visible

theorem DirOk.lose (h : DirOk d) (kept : List Bool) : DirOk (d.lose kept) where
  distinct ns image := by
    rw [(d.image_lose kept ns).mp image]
    exact h.distinct _ (d.lose_image kept)
  alone n hn i hi ns image m hm := by
    rw [(d.image_lose kept ns).mp image] at hm
    rcases h.distinct _ (d.lose_image kept) m n i hm hi with same | ⟨_, keeper⟩
    · exact same
    · rw [Name.keeper_of_single hn] at keeper
      cases keeper

theorem DirOk.create (h : DirOk d) (n : Name) : DirOk (d.create n) where
  distinct ns image a b i ha hb := by
    rcases (d.image_create n ns).mp image with old | ⟨earlier, old, rfl⟩
    · exact h.distinct ns old a b i ha hb
    · have fresh := d.fresh earlier old
      rcases update_eq_some ha with ⟨hna, rfl⟩ | ⟨_, hea⟩ <;>
        rcases update_eq_some hb with ⟨hnb, hi⟩ | ⟨_, heb⟩
      · exact Or.inl (hna.trans hnb.symm)
      · exact absurd (fresh b _ heb) (by omega)
      · exact absurd (fresh a _ hea) (by omega)
      · exact h.distinct earlier old a b i hea heb
  alone a ha i hi ns image b hb := by
    rw [Dir.visible_create] at hi
    rcases update_eq_some hi with ⟨hna, rfl⟩ | ⟨hna, hi⟩ <;>
      rcases (d.image_create n ns).mp image with old | ⟨earlier, old, rfl⟩
    · exact absurd (d.fresh ns old b _ hb) (by omega)
    · rcases update_eq_some hb with ⟨same, _⟩ | ⟨_, hb⟩
      · exact same.trans hna.symm
      · exact absurd (d.fresh earlier old b _ hb) (by omega)
    · exact h.alone a ha i hi ns old b hb
    · rcases update_eq_some hb with ⟨_, rfl⟩ | ⟨_, hb⟩
      · exact absurd (d.visible_lt hi) (by omega)
      · exact h.alone a ha i hi earlier old b hb

theorem DirOk.unlink (h : DirOk d) (n : Name) : DirOk (d.unlink n) where
  distinct ns image a b i ha hb := by
    rcases (d.image_unlink n ns).mp image with old | ⟨earlier, old, rfl⟩
    · exact h.distinct ns old a b i ha hb
    · exact h.distinct earlier old a b i (update_none_eq_some ha).2 (update_none_eq_some hb).2
  alone a ha i hi ns image b hb := by
    rw [Dir.visible_unlink] at hi
    have hi := (update_none_eq_some hi).2
    rcases (d.image_unlink n ns).mp image with old | ⟨earlier, old, rfl⟩
    · exact h.alone a ha i hi ns old b hb
    · exact h.alone a ha i hi earlier old b (update_none_eq_some hb).2

/-- A second name for the canonical store, when no image can have moved it. -/
theorem DirOk.link (h : DirOk d) (seen : d.visible .canonical = some i)
    (fixed : ∀ ns, d.Image ns → ns .canonical = some i) : DirOk (d.link .canonical .rollback) := by
  have keeps (ns : Names Name) (old : d.Image ns) (m : Name) (hm : ns m = some i) :
      m.keeper = true := by
    rcases h.distinct ns old m .canonical i hm (fixed ns old) with rfl | ⟨keeper, _⟩
    · rfl
    · exact keeper
  rw [d.link_of_visible seen]
  refine ⟨fun ns image a b j ha hb => ?_, fun a ha j hj ns image b hb => ?_⟩
  · rcases (d.image_push _ _ ns).mp image with old | ⟨earlier, old, rfl⟩
    · exact h.distinct ns old a b j ha hb
    · rcases update_eq_some ha with ⟨rfl, rfl⟩ | ⟨_, ha⟩ <;>
        rcases update_eq_some hb with ⟨rfl, hi⟩ | ⟨_, hb⟩
      · exact Or.inl rfl
      · exact Or.inr ⟨rfl, keeps earlier old b hb⟩
      · exact Or.inr ⟨keeps earlier old a (by rw [hi]; exact ha), rfl⟩
      · exact h.distinct earlier old a b j ha hb
  · rw [Dir.visible_push] at hj
    rcases update_eq_some hj with ⟨rfl, _⟩ | ⟨_, hj⟩
    · cases ha
    rcases (d.image_push _ _ ns).mp image with old | ⟨earlier, old, rfl⟩
    · exact h.alone a ha j hj ns old b hb
    · rcases update_eq_some hb with ⟨rfl, rfl⟩ | ⟨_, hb⟩
      · have keeper := keeps _ d.image_visible a hj
        rw [Name.keeper_of_single ha] at keeper
        cases keeper
      · exact h.alone a ha j hj earlier old b hb

/-- A move, when every image names the moved file only by its source, or only
as a store that is kept. -/
theorem DirOk.move {s t : Name} (h : DirOk d)
    (below : ∀ ns n j, (∀ m k, ns m = some k → k < d.next) →
      (Change.move s t i).apply ns n = some j → j < d.next) (target : t.single = false)
    (only : ∀ ns, d.Image ns → ∀ m, ns m = some i → m = s ∨ (m.keeper = true ∧ t.keeper = true)) :
    DirOk (d.push (.move s t i) below) := by
  refine ⟨fun ns image a b j ha hb => ?_, fun a ha j hj ns image b hb => ?_⟩
  · rcases (d.image_push _ _ ns).mp image with old | ⟨earlier, old, rfl⟩
    · exact h.distinct ns old a b j ha hb
    · rcases move_eq_some ha with ⟨hta, hia⟩ | ⟨_, hsa, hea⟩ <;>
        rcases move_eq_some hb with ⟨htb, hib⟩ | ⟨_, hsb, heb⟩
      · exact Or.inl (hta.trans htb.symm)
      · rcases only earlier old b (by rw [hia]; exact heb) with same | ⟨kb, kt⟩
        · exact absurd same hsb
        · exact Or.inr ⟨by rw [hta]; exact kt, kb⟩
      · rcases only earlier old a (by rw [hib]; exact hea) with same | ⟨ka, kt⟩
        · exact absurd same hsa
        · exact Or.inr ⟨ka, by rw [htb]; exact kt⟩
      · exact h.distinct earlier old a b j hea heb
  · rw [Dir.visible_push] at hj
    rcases move_eq_some hj with ⟨hta, _⟩ | ⟨_, hsa, hj⟩
    · rw [hta, target] at ha
      cases ha
    rcases (d.image_push _ _ ns).mp image with old | ⟨earlier, old, rfl⟩
    · exact h.alone a ha j hj ns old b hb
    · rcases move_eq_some hb with ⟨_, hib⟩ | ⟨_, _, hb⟩
      · rcases only _ d.image_visible a (by rw [hib]; exact hj) with same | ⟨keeper, _⟩
        · exact absurd same hsa
        · rw [Name.keeper_of_single ha] at keeper
          cases keeper
      · exact h.alone a ha j hj earlier old b hb

end

/-! ## The trace -/

/-- Events that nothing in the invariant depends on. -/
def Event.plain : Event → Bool
  | .keytool _ (.importcert _) | .journalWrite _ | .renamed .stage _ _ | .renamed .rollback _ _
  | .unlinked .rollback | .syncedFile _ _ | .created .journalNew _ => false
  | _ => true

section
variable {g : Setting} {w t : World} {tr new : List Entry} {i : Nat} {c : Content} {j : Journal}

theorem eventOk_of_plain {e : Entry} (plain : e.event.plain = true) (older : List Entry) :
    EventOk g e older := by
  unfold EventOk
  split <;> simp_all [Event.plain]

theorem sealed_cons {e : Entry} : Sealed g (e :: tr) i c ↔
    Sealed g tr i c ∨ ((∃ n, e.event = .syncedFile n i) ∧ (e.disk.files i).content = c) := by
  simp only [Sealed, List.mem_cons, exists_eq_or_imp]
  exact (or_congr_right or_comm).trans or_assoc.symm

theorem wrote_cons {e : Entry} : Wrote (e :: tr) j ↔ e.event = .journalWrite j ∨ Wrote tr j := by
  simp [Wrote]

theorem importedIn_cons {e : Entry} {k : Nat} : ImportedIn (e :: tr) k ↔
    ((∃ n reply, e.event = .keytool n (.importcert reply)) ∧
      e.process.journal.map Journal.transaction = some k) ∨ ImportedIn tr k := by
  simp only [ImportedIn, List.mem_cons, exists_eq_or_imp]

theorem sealed_append (plain : ∀ e ∈ new, e.event.plain = true) :
    Sealed g (new ++ tr) i c ↔ Sealed g tr i c := by
  induction new with
  | nil => rfl
  | cons e rest ih =>
    have first : ¬ ∃ n, e.event = .syncedFile n i := by
      rintro ⟨n, hn⟩
      have := plain e (by simp)
      simp [hn, Event.plain] at this
    rw [List.cons_append, sealed_cons, ih fun e he => plain e (by simp [he])]
    simp [first]

theorem wrote_append (plain : ∀ e ∈ new, e.event.plain = true) :
    Wrote (new ++ tr) j ↔ Wrote tr j := by
  induction new with
  | nil => rfl
  | cons e rest ih =>
    have first : e.event ≠ .journalWrite j := by
      intro hw
      have := plain e (by simp)
      simp [hw, Event.plain] at this
    rw [List.cons_append, wrote_cons, ih fun e he => plain e (by simp [he])]
    simp [first]

theorem importedIn_append (plain : ∀ e ∈ new, e.event.plain = true) (k : Nat) :
    ImportedIn (new ++ tr) k ↔ ImportedIn tr k := by
  induction new with
  | nil => rfl
  | cons e rest ih =>
    have first : ¬ ∃ n reply, e.event = .keytool n (.importcert reply) := by
      rintro ⟨n, reply, hi⟩
      have := plain e (by simp)
      simp [hi, Event.plain] at this
    rw [List.cons_append, importedIn_cons, ih fun e he => plain e (by simp [he])]
    simp [first]

theorem recentWrites_append (plain : ∀ e ∈ new, e.event.plain = true) (a : Journal)
    (h : a ∈ recentWrites (new ++ tr)) : a ∈ recentWrites tr := by
  induction new with
  | nil => exact h
  | cons e rest ih =>
    have first : e.event.plain = true := plain e (by simp)
    have others : ∀ e ∈ rest, e.event.plain = true := fun e he => plain e (by simp [he])
    rw [List.cons_append, recentWrites] at h
    split at h
    · cases h
    · rename_i v hv
      simp [hv, Event.plain] at first
    · exact ih others h

/-- The disk and the journal in memory are as they were, and nothing of note
was done. -/
structure Steady (w t : World) : Prop where
  disk : t.disk = w.disk
  journal : t.process.journal = w.process.journal
  locked : t.process.locked = w.process.locked
  uuids : t.uuids = w.uuids
  trace : ∃ new, t.trace = new ++ w.trace ∧ ∀ e ∈ new,
    e.event.plain = true ∧ e.disk = w.disk ∧ e.process.journal = w.process.journal

theorem Steady.refl (w : World) : Steady w w := ⟨rfl, rfl, rfl, rfl, [], rfl, by simp⟩

theorem Steady.trans {u : World} (h : Steady w t) (k : Steady t u) : Steady w u where
  disk := k.disk.trans h.disk
  journal := k.journal.trans h.journal
  locked := k.locked.trans h.locked
  uuids := k.uuids.trans h.uuids
  trace := by
    obtain ⟨new, hn, old⟩ := h.trace
    obtain ⟨newer, hm, recent⟩ := k.trace
    refine ⟨newer ++ new, by rw [hm, hn, List.append_assoc], fun e he => ?_⟩
    rcases List.mem_append.mp he with mem | mem
    · obtain ⟨plain, disk, process⟩ := recent e mem
      exact ⟨plain, disk.trans h.disk, process.trans h.journal⟩
    · exact old e mem

theorem Steady.suffix (h : Steady w t) : w.trace <:+ t.trace := by
  obtain ⟨new, hn, _⟩ := h.trace
  exact ⟨new, hn.symm⟩

theorem Steady.sealed (h : Steady w t) : Sealed g t.trace i c ↔ Sealed g w.trace i c := by
  obtain ⟨new, hn, plain⟩ := h.trace
  rw [hn]
  exact sealed_append fun e he => (plain e he).1

theorem Steady.wrote (h : Steady w t) : Wrote t.trace j ↔ Wrote w.trace j := by
  obtain ⟨new, hn, plain⟩ := h.trace
  rw [hn]
  exact wrote_append fun e he => (plain e he).1

theorem Steady.importedIn (h : Steady w t) (k : Nat) :
    ImportedIn t.trace k ↔ ImportedIn w.trace k := by
  obtain ⟨new, hn, plain⟩ := h.trace
  rw [hn]
  exact importedIn_append (fun e he => (plain e he).1) k

theorem Steady.recentWrites (h : Steady w t) {a : Journal}
    (ha : a ∈ CertRenewer.recentWrites t.trace) : a ∈ CertRenewer.recentWrites w.trace := by
  obtain ⟨new, hn, plain⟩ := h.trace
  rw [hn] at ha
  exact recentWrites_append (fun e he => (plain e he).1) a ha

theorem ImageOk.mono {tr' : List Entry} {ns : Names Name} (h : ImageOk g tr ns) (ext : tr <:+ tr') :
    ImageOk g tr' ns where
  canonical := by
    obtain ⟨i, c, hi, genuine⟩ := h.canonical
    exact ⟨i, c, hi, genuine.mono ext⟩
  vacant := h.vacant
  journal i hi := by
    obtain ⟨j, sealed, ok, fits⟩ := h.journal i hi
    exact ⟨j, sealed.mono ext, ok.mono ext, fits⟩

theorem traceOk_append (old : TraceOk g tr)
    (entries : ∀ e ∈ new, e.event.plain = true ∧ ∀ j, e.process.journal = some j → j.Proper g) :
    TraceOk g (new ++ tr) := by
  induction new with
  | nil => exact old
  | cons e rest ih =>
    obtain ⟨plain, proper⟩ := entries e (by simp)
    exact ⟨⟨eventOk_of_plain plain _, proper⟩, ih fun e he => entries e (by simp [he])⟩

theorem Core.steady (h : Core g w) (k : Steady w t) : Core g t := by
  have suffix := k.suffix
  obtain ⟨new, hn, plain⟩ := k.trace
  refine ⟨?_, ?_, ?_, ?_, ?_, ?_, ?_, ?_, ?_, ?_, ?_, ?_, ?_⟩
  · rw [k.disk]
    exact h.dev
  · rw [k.disk]
    exact h.dir
  · rw [k.disk]
    exact h.healthy
  · intro i c sealed
    rw [k.disk]
    exact h.synced i c (k.sealed.mp sealed)
  · intro ns image
    rw [k.disk] at image
    exact (h.images ns image).mono suffix
  · intro i j hi sealed
    rw [k.disk] at hi ⊢
    exact h.fits i j hi (k.sealed.mp sealed)
  · rw [k.disk]
    exact h.idle
  · intro i j hi sealed issued ns image l a hl ha
    rw [k.disk] at hi image
    exact h.same i j hi (k.sealed.mp sealed) issued ns image l a hl (k.sealed.mp ha)
  · intro a b ha hb
    exact h.agree a b (k.wrote.mp ha) (k.wrote.mp hb)
  · intro a ha
    rw [k.uuids]
    exact h.wrote a (k.wrote.mp ha)
  · intro l hl
    rw [k.uuids]
    exact h.imported l ((k.importedIn l).mp hl)
  · intro j hj
    exact h.memory j (by rw [← k.journal]; exact hj)
  · rw [hn]
    refine traceOk_append h.trace fun e he => ⟨(plain e he).1, fun j hj => ?_⟩
    exact h.memory j (by rw [← (plain e he).2.2]; exact hj)

/-- Any other event its entry is entitled to. -/
theorem Core.log {e : Event} (h : Core g w)
    (ok : EventOk g ⟨e, w.disk, w.service, w.process⟩ w.trace)
    (unsynced : ∀ n i, e ≠ .syncedFile n i)
    (write : ∀ v, e = .journalWrite v → v.transaction < w.uuids ∧
      ∀ a, Wrote w.trace a → a.transaction = v.transaction → a.Agree v)
    (imported : ∀ n reply, e = .keytool n (.importcert reply) → ∀ j, w.process.journal = some j →
      j.transaction < w.uuids) : Core g (w.log e) := by
  have suffix : w.trace <:+ (w.log e).trace := List.suffix_cons _ _
  have sealed {i : Nat} {c : Content} (hs : Sealed g (w.log e).trace i c) : Sealed g w.trace i c := by
    rcases sealed_cons.mp hs with old | ⟨⟨n, hn⟩, _⟩
    · exact old
    · exact absurd hn (unsynced n i)
  refine ⟨h.dev, h.dir, h.healthy, fun i c hs => h.synced i c (sealed hs),
    fun ns image => (h.images ns image).mono suffix,
    fun i j hi hs => h.fits i j hi (sealed hs), h.idle, ?_, ?_, ?_, ?_, h.memory, ⟨⟨ok, h.memory⟩, h.trace⟩⟩
  · intro i j hi hs issued ns image k a hk ha
    exact h.same i j hi (sealed hs) issued ns image k a hk (sealed ha)
  · intro a b ha hb same
    rcases wrote_cons.mp ha with eqa | ha <;> rcases wrote_cons.mp hb with eqb | hb
    · cases eqa.symm.trans eqb
      exact (Journal.Below.refl _).agree
    · exact ((write a eqa).2 b hb same.symm).symm
    · exact (write b eqb).2 a ha same
    · exact h.agree a b ha hb same
  · intro a ha
    rcases wrote_cons.mp ha with eq | ha
    · exact (write a eq).1
    · exact h.wrote a ha
  · intro k hk
    rcases importedIn_cons.mp hk with ⟨⟨n, reply, hi⟩, hk⟩ | old
    · obtain ⟨j, hj, rfl⟩ := Option.map_eq_some_iff.mp hk
      exact imported n reply hi j hj
    · exact h.imported k old

/-! ## Files -/

/-- A file may change while nothing has been promised of its content. -/
theorem Core.modify {f : Inode → Inode} (h : Core g w) (i : Nat)
    (kept : ∀ c, Sealed g w.trace i c →
      (f (w.disk.files i)).content = c ∧ (f (w.disk.files i)).stored = c)
    (healthy : ∀ ns, w.disk.dir.Image ns → ∀ n, ns n = some i →
      Healthy g.dev n (f (w.disk.files i))) :
    Core g { w with disk := w.disk.modify i f } := by
  refine { h with healthy := fun ns image n k hk => ?_, synced := fun k c hs => ?_ }
  · by_cases same : k = i
    · subst same
      simpa [Disk.modify] using healthy ns image n hk
    · simpa [Disk.modify, same] using h.healthy ns image n k hk
  · obtain ⟨below, content, stored⟩ := h.synced k c hs
    by_cases same : k = i
    · subst same
      exact ⟨below, by simpa [Disk.modify] using kept c hs⟩
    · exact ⟨below, by simpa [Disk.modify, same] using ⟨content, stored⟩⟩

theorem Healthy.touch {dev : Nat} {n : Name} {f : Inode} (h : Healthy dev n f) (stamp : Nat) :
    Healthy dev n { f with stamp := stamp } :=
  ⟨h.regular, h.mode, h.device, h.outside, h.size, h.owner⟩

theorem Core.touch (h : Core g w) (i : Nat) : Core g { w with disk := w.disk.touch i } :=
  h.modify i (fun c hs => (h.synced i c hs).2)
    (fun ns image n hn => (h.healthy ns image n i hn).touch _)

/-- A sync fixes the content of a file. -/
theorem Core.fsync (h : Core g w) {n : Name} (below : i < w.disk.dir.next) :
    Core g { w.log (.syncedFile n i) with
      disk := w.disk.modify i fun file => { file with stored := file.content } } := by
  have suffix : w.trace <:+ (w.log (.syncedFile n i)).trace := List.suffix_cons _ _
  have cases {k : Nat} {c : Content} (hs : Sealed g (w.log (.syncedFile n i)).trace k c) :
      Sealed g w.trace k c ∨ (k = i ∧ (w.disk.files i).content = c) := by
    rcases sealed_cons.mp hs with old | ⟨⟨m, hm⟩, hc⟩
    · exact Or.inl old
    · obtain ⟨_, rfl⟩ := Event.syncedFile.inj hm
      exact Or.inr ⟨rfl, hc⟩
  -- the journals of images are synced already, so no new content is promised of them
  have journal {ns : Names Name} (image : w.disk.dir.Image ns) {k : Nat} (hk : ns .journal = some k)
      {a : Journal} (hs : Sealed g (w.log (.syncedFile n i)).trace k (.journal a)) :
      Sealed g w.trace k (.journal a) := by
    obtain ⟨b, hb, _⟩ := (h.images ns image).journal k hk
    rcases cases hs with old | ⟨rfl, content⟩
    · exact old
    · rw [(h.synced _ _ hb).2.1] at content
      rw [← content]
      exact hb
  refine ⟨h.dev, h.dir, fun ns image m k hk => ?_, fun k c hs => ?_,
    fun ns image => (h.images ns image).mono suffix,
    fun k j hk hs => h.fits k j hk (journal w.disk.dir.image_visible hk hs), h.idle, ?_, ?_, ?_, ?_,
    h.memory, ⟨⟨trivial, h.memory⟩, h.trace⟩⟩
  · have old := h.healthy ns image m k hk
    by_cases same : k = i
    · subst same
      simpa [Disk.modify] using
        (⟨old.regular, old.mode, old.device, old.outside, old.size, old.owner⟩ :
          Healthy g.dev m { w.disk.files k with stored := (w.disk.files k).content })
    · simpa [Disk.modify, same] using old
  · rcases cases hs with old | ⟨rfl, content⟩
    · obtain ⟨lt, hc, hd⟩ := h.synced k c old
      by_cases same : k = i
      · subst same
        exact ⟨lt, by simpa [Disk.modify] using hc⟩
      · exact ⟨lt, by simpa [Disk.modify, same] using ⟨hc, hd⟩⟩
    · exact ⟨below, by simpa [Disk.modify] using content⟩
  · intro k j hk hs issued ns image l a hl ha
    exact h.same k j hk (journal w.disk.dir.image_visible hk hs) issued ns image l a hl
      (journal image hl ha)
  · intro a b ha hb
    exact h.agree a b (by simpa using wrote_cons.mp ha) (by simpa using wrote_cons.mp hb)
  · intro a ha
    exact h.wrote a (by simpa using wrote_cons.mp ha)
  · intro k hk
    exact h.imported k (by simpa using importedIn_cons.mp hk)

/-! ## What a journal allows, after a change of names -/

section
variable {ns ns' : Names Name} {k : Nat}

theorem Fits.of_eq (h : Fits g j ns) (canonical : ns' .canonical = ns .canonical)
    (stage : ns' .stage = ns .stage) (rollback : ns' .rollback = ns .rollback) : Fits g j ns' where
  canonical := by
    rw [canonical, stage, rollback]
    exact h.canonical
  rollback := by
    rw [rollback]
    exact h.rollback
  stage := by
    rw [stage]
    exact h.stage

/-- What a journal allows depends on these of its fields only. -/
theorem Fits.congr {v : Journal} (h : Fits g j ns) (old : v.oldInode = j.oldInode)
    (stage : v.stageInode = j.stageInode) (possible : v.commitPossible = j.commitPossible)
    (live : j.phase = .liveVerified → v.phase = .liveVerified) : Fits g v ns where
  canonical := by
    rw [old, stage, possible]
    rcases h.canonical with eq | ⟨p, s, none, kept | verified⟩
    · exact Or.inl eq
    · exact Or.inr ⟨p, s, none, Or.inl kept⟩
    · exact Or.inr ⟨p, s, none, Or.inr (live verified)⟩
  rollback := by
    rw [old]
    exact h.rollback
  stage := by
    rw [old, stage]
    exact h.stage

/-- Without a recorded stage the canonical store is the old one. -/
theorem Fits.canonical_of_unstaged (h : Fits g j ns) (unstaged : j.stageInode = none) :
    ns .canonical = some j.oldInode.ino := by
  rcases h.canonical with old | ⟨_, ⟨i, hi, _⟩, _⟩
  · exact old
  · rw [unstaged] at hi
    cases hi

theorem Fits.create_stage (h : Fits g j ns) (unstaged : j.stageInode = none)
    (fresh : ∀ m i, ns m = some i → i < k) : Fits g j (Function.update ns .stage (some k)) where
  canonical := Or.inl (by simpa using h.canonical_of_unstaged unstaged)
  rollback := by simpa using h.rollback
  stage i hi := by
    have hk : k = i := by simpa using hi
    have old := fresh _ _ (h.canonical_of_unstaged unstaged)
    refine ⟨by omega, fun f hf => ?_⟩
    rw [unstaged] at hf
    cases hf

theorem Fits.unlink_stage (h : Fits g j ns) : Fits g j (Function.update ns .stage none) where
  canonical := by
    rcases h.canonical with old | ⟨possible, stage, _, rest⟩
    · exact Or.inl (by simpa using old)
    · exact Or.inr ⟨possible, by simpa using stage, by simp, by simpa using rest⟩
  rollback := by simpa using h.rollback
  stage i hi := by simp at hi

theorem Fits.unlink_rollback (h : Fits g j ns)
    (free : ns .canonical = some j.oldInode.ino ∨ j.phase = .liveVerified) :
    Fits g j (Function.update ns .rollback none) where
  canonical := by
    rcases free with old | live
    · exact Or.inl (by simpa using old)
    · rcases h.canonical with old | ⟨possible, stage, none, _⟩
      · exact Or.inl (by simpa using old)
      · exact Or.inr ⟨possible, by simpa using stage, by simpa using none, Or.inr live⟩
  rollback := by simp
  stage i hi := h.stage i (by simpa using hi)

theorem Fits.link (h : Fits g j ns) (old : ns .canonical = some j.oldInode.ino) :
    Fits g j (Function.update ns .rollback (some j.oldInode.ino)) where
  canonical := Or.inl (by simpa using old)
  rollback := by simp
  stage i hi := h.stage i (by simpa using hi)

theorem Fits.commit (h : Fits g j ns) (possible : j.commitPossible = true)
    (stage : j.stageInode = some ⟨g.dev, k⟩) (rollback : ns .rollback = some j.oldInode.ino) :
    Fits g j ((Change.move .stage .canonical k).apply ns) where
  canonical := by
    refine Or.inr ⟨possible, ⟨k, stage, by simp [Change.apply]⟩, by simp [Change.apply], Or.inl ?_⟩
    simpa [Change.apply] using rollback
  rollback := by simpa [Change.apply] using h.rollback
  stage i hi := by simp [Change.apply] at hi

theorem Fits.restore (h : Fits g j ns) :
    Fits g j ((Change.move .rollback .canonical j.oldInode.ino).apply ns) where
  canonical := Or.inl (by simp [Change.apply])
  rollback := by simp [Change.apply]
  stage i hi := h.stage i (by simpa [Change.apply] using hi)

end

/-! ## Names -/

theorem Core.unique {c' : Content} (h : Core g w) (a : Sealed g w.trace i c)
    (b : Sealed g w.trace i c') : c = c' :=
  (h.synced i c a).2.1.symm.trans (h.synced i c' b).2.1

theorem Core.unique_journal {a : Journal} (h : Core g w) (hj : Sealed g w.trace i (.journal j))
    (ha : Sealed g w.trace i (.journal a)) : a = j :=
  Content.journal.inj (h.unique ha hj)

theorem Core.visible_journal (h : Core g w) (hi : w.disk.dir.visible .journal = some i) :
    ∃ j, Sealed g w.trace i (.journal j) ∧ JournalOk g w.trace j ∧
      ∀ ns, w.disk.dir.Image ns → Fits g j ns := by
  obtain ⟨j, sealed, ok, _⟩ := (h.images _ w.disk.dir.image_visible).journal i hi
  exact ⟨j, sealed, ok, h.fits i j hi sealed⟩

/-- A new file of root's under the name of a stage, a temporary journal or the
lock. A stage needs a journal that expects one. -/
theorem Core.create (h : Core g w) {n : Name} (kind : n = .stage ∨ n = .journalNew ∨ n = .lock)
    (stage : n = .stage → ∀ ns, w.disk.dir.Image ns →
      ∃ i j, ns .journal = some i ∧ Sealed g w.trace i (.journal j) ∧ j.stageInode = none) :
    Core g { w with disk := w.disk.create n } := by
  have other {m : Name} (hm : m = .canonical ∨ m = .rollback ∨ m = .journal) : m ≠ n := by
    rcases kind with rfl | rfl | rfl <;> rcases hm with rfl | rfl | rfl <;> decide
  have fits {ns : Names Name} (image : w.disk.dir.Image ns) {a : Journal} (ha : Fits g a ns)
      (unstaged : n = .stage → a.stageInode = none) :
      Fits g a (Function.update ns n (some w.disk.dir.next)) := by
    by_cases hn : n = .stage
    · subst hn
      exact ha.create_stage (unstaged rfl) (w.disk.dir.fresh ns image)
    · exact ha.of_eq (by simp [other]) (by simp [Ne.symm hn]) (by simp [other])
  have unstaged {ns : Names Name} (image : w.disk.dir.Image ns) {k : Nat} {a : Journal}
      (hk : ns .journal = some k) (ha : Sealed g w.trace k (.journal a)) (hn : n = .stage) :
      a.stageInode = none := by
    obtain ⟨i, j, hi, hj, none⟩ := stage hn ns image
    obtain rfl : i = k := Option.some.inj (hi.symm.trans hk)
    rw [h.unique_journal hj ha]
    exact none
  have images {ns : Names Name} (image : (w.disk.create n).dir.Image ns) :
      w.disk.dir.Image ns ∨ ∃ earlier, w.disk.dir.Image earlier ∧
        Function.update earlier n (some w.disk.dir.next) = ns :=
    (w.disk.dir.image_create n ns).mp image
  have seen : (w.disk.create n).dir.visible .journal = w.disk.dir.visible .journal := by
    simp [Disk.create, other]
  refine { h with
    dir := h.dir.create n, healthy := ?_, synced := ?_, images := ?_, fits := ?_, idle := ?_,
    same := ?_ }
  · intro ns image m k hk
    have old {earlier : Names Name} (from_ : w.disk.dir.Image earlier) (hk : earlier m = some k) :
        Healthy g.dev m ((w.disk.create n).files k) := by
      have below := w.disk.dir.fresh earlier from_ m k hk
      have ne : k ≠ w.disk.dir.next := by omega
      simpa [Disk.create, ne] using h.healthy earlier from_ m k hk
    rcases images image with from_ | ⟨earlier, from_, rfl⟩
    · exact old from_ hk
    · rcases update_eq_some hk with ⟨rfl, rfl⟩ | ⟨_, hk⟩
      · refine ⟨?_, ?_, ?_, ?_, ?_, fun hm => ?_⟩
        all_goals simp only [Disk.create, Function.update_self]
        · exact h.dev
        · exact fun _ => Nat.zero_le _
        · rcases kind with rfl | rfl | rfl
          · exact absurd rfl hm
          · exact ⟨rfl, rfl⟩
          · exact ⟨rfl, rfl⟩
      · exact old from_ hk
  · intro k c hs
    obtain ⟨below, rest⟩ := h.synced k c hs
    have ne : k ≠ w.disk.dir.next := by omega
    exact ⟨Nat.lt_succ_of_lt below, by simpa [Disk.create, ne] using rest⟩
  · intro ns image
    rcases images image with from_ | ⟨earlier, from_, rfl⟩
    · exact h.images ns from_
    · have ok := h.images earlier from_
      refine ⟨by simpa [other] using ok.canonical, fun free => ?_, fun k hk => ?_⟩
      · have free : earlier .journal = none := by simpa [other] using free
        by_cases hn : n = .stage
        · obtain ⟨i, j, hi, _⟩ := stage hn earlier from_
          rw [free] at hi
          cases hi
        · simpa [other, Ne.symm hn] using ok.vacant free
      · have hk : earlier .journal = some k := by simpa [other] using hk
        obtain ⟨a, sealed, aok, afits⟩ := ok.journal k hk
        exact ⟨a, sealed, aok, fits from_ afits (unstaged from_ hk sealed)⟩
  · intro k a hk ha ns image
    have hk : w.disk.dir.visible .journal = some k := seen.symm.trans hk
    rcases images image with from_ | ⟨earlier, from_, rfl⟩
    · exact h.fits k a hk ha ns from_
    · exact fits from_ (h.fits k a hk ha earlier from_)
        (unstaged w.disk.dir.image_visible hk ha)
  · intro free ns image
    have free : w.disk.dir.visible .journal = none := seen.symm.trans free
    have canonical : (w.disk.create n).dir.visible .canonical = w.disk.dir.visible .canonical := by
      simp [Disk.create, other]
    change ns .canonical = (w.disk.create n).dir.visible .canonical ∧ _
    rw [canonical]
    rcases images image with from_ | ⟨earlier, from_, rfl⟩
    · exact h.idle free ns from_
    · have hn : n ≠ .stage := by
        intro hn
        obtain ⟨i, j, hi, _⟩ := stage hn _ w.disk.dir.image_visible
        rw [free] at hi
        cases hi
      simpa [other, Ne.symm hn] using h.idle free earlier from_
  · intro k a hk ha issued ns image l b hl hb
    have hk : w.disk.dir.visible .journal = some k := seen.symm.trans hk
    rcases images image with from_ | ⟨earlier, from_, rfl⟩
    · exact h.same k a hk ha issued ns from_ l b hl hb
    · exact h.same k a hk ha issued earlier from_ l b (by simpa [other] using hl) hb

/-- The directory replaced by one with fewer or other images. -/
def World.redirect (w : World) (d : Dir Name) : World :=
  { w with disk := { w.disk with dir := d } }

@[simp] theorem World.redirect_trace (w : World) (d : Dir Name) : (w.redirect d).trace = w.trace := rfl

/-- A name goes. The rollback goes only where it is not needed any more, the
journal only when nothing else is left of its transaction. -/
theorem Core.unlink (h : Core g w) {n : Name} (kind : n ≠ .canonical)
    (rollback : n = .rollback → ∀ ns, w.disk.dir.Image ns → ∀ k a,
      ns .journal = some k ∨ w.disk.dir.visible .journal = some k →
      Sealed g w.trace k (.journal a) →
      ns .canonical = some a.oldInode.ino ∨ a.phase = .liveVerified)
    (journal : n = .journal → ∀ ns, w.disk.dir.Image ns →
      ns .canonical = w.disk.dir.visible .canonical ∧ ns .stage = none ∧ ns .rollback = none) :
    Core g (w.redirect (w.disk.dir.unlink n)) := by
  have images {ns : Names Name} (image : (w.disk.dir.unlink n).Image ns) :
      w.disk.dir.Image ns ∨ ∃ earlier, w.disk.dir.Image earlier ∧
        Function.update earlier n none = ns := (w.disk.dir.image_unlink n ns).mp image
  have fits {ns : Names Name} (image : w.disk.dir.Image ns) {k : Nat} {a : Journal}
      (hk : ns .journal = some k ∨ w.disk.dir.visible .journal = some k)
      (sealed : Sealed g w.trace k (.journal a)) (ha : Fits g a ns) :
      Fits g a (Function.update ns n none) := by
    by_cases hr : n = .rollback
    · subst hr
      exact ha.unlink_rollback (rollback rfl ns image k a hk sealed)
    · by_cases hs : n = .stage
      · subst hs
        exact ha.unlink_stage
      · exact ha.of_eq (by simp [kind.symm]) (by simp [Ne.symm hs]) (by simp [Ne.symm hr])
  have sub {ns : Names Name} {m : Name} (hm : ns m = none) : Function.update ns n none m = none := by
    by_cases e : m = n <;> simp [e, hm]
  refine { h with
    dir := h.dir.unlink n, healthy := ?_, images := ?_, fits := ?_, idle := ?_, same := ?_ }
  · intro ns image m k hk
    rcases images image with old | ⟨earlier, old, rfl⟩
    · exact h.healthy ns old m k hk
    · exact h.healthy earlier old m k (update_none_eq_some hk).2
  · intro ns image
    rcases images image with old | ⟨earlier, old, rfl⟩
    · exact h.images ns old
    · have ok := h.images earlier old
      refine ⟨by simpa [kind.symm] using ok.canonical, fun free => ?_, fun k hk => ?_⟩
      · by_cases hj : n = .journal
        · obtain ⟨_, stage, roll⟩ := journal hj earlier old
          exact ⟨sub stage, sub roll⟩
        · obtain ⟨stage, roll⟩ := ok.vacant (by simpa [Ne.symm hj] using free)
          exact ⟨sub stage, sub roll⟩
      · have hk := (update_none_eq_some hk).2
        obtain ⟨a, sealed, aok, afits⟩ := ok.journal k hk
        exact ⟨a, sealed, aok, fits old (Or.inl hk) sealed afits⟩
  · intro k a hk ha ns image
    have hk : w.disk.dir.visible .journal = some k := by
      have hk : (w.disk.dir.unlink n).visible .journal = some k := hk
      rw [Dir.visible_unlink] at hk
      exact (update_none_eq_some hk).2
    rcases images image with old | ⟨earlier, old, rfl⟩
    · exact h.fits k a hk ha ns old
    · exact fits old (Or.inr hk) ha (h.fits k a hk ha earlier old)
  · intro free ns image
    have seen : (w.disk.dir.unlink n).visible .canonical = w.disk.dir.visible .canonical := by
      simp [kind.symm]
    have before {earlier : Names Name} (old : w.disk.dir.Image earlier) :
        earlier .canonical = w.disk.dir.visible .canonical ∧ earlier .stage = none ∧
          earlier .rollback = none := by
      by_cases hj : n = .journal
      · exact journal hj earlier old
      · have free : (w.disk.dir.unlink n).visible .journal = none := free
        exact h.idle (by simpa [Ne.symm hj] using free) earlier old
    change ns .canonical = (w.disk.dir.unlink n).visible .canonical ∧ _
    rw [seen]
    rcases images image with old | ⟨earlier, old, rfl⟩
    · exact before old
    · obtain ⟨canonical, stage, roll⟩ := before old
      exact ⟨by simpa [kind.symm] using canonical, sub stage, sub roll⟩
  · intro k a hk ha issued ns image l b hl hb
    have hk : w.disk.dir.visible .journal = some k := by
      have hk : (w.disk.dir.unlink n).visible .journal = some k := hk
      rw [Dir.visible_unlink] at hk
      exact (update_none_eq_some hk).2
    rcases images image with old | ⟨earlier, old, rfl⟩
    · exact h.same k a hk ha issued ns old l b hl hb
    · exact h.same k a hk ha issued earlier old l b (update_none_eq_some hl).2 hb

/-- Only what is visible is left. -/
theorem Core.only_visible {d : Dir Name} (h : Core g w) (dir : DirOk d) (next : d.next = w.disk.dir.next)
    (image : w.disk.dir.Image d.visible) (only : ∀ ns, d.Image ns → ns = d.visible) :
    Core g (w.redirect d) := by
  have ok := h.images _ image
  refine { h with
    dir := dir, healthy := ?_, synced := ?_, images := ?_, fits := ?_, idle := ?_, same := ?_ }
  · intro ns hns
    rw [only ns hns]
    exact h.healthy _ image
  · intro k c hs
    obtain ⟨below, rest⟩ := h.synced k c hs
    exact ⟨by change k < d.next; omega, rest⟩
  · intro ns hns
    rw [only ns hns]
    exact ok
  · intro k a hk ha ns hns
    rw [only ns hns]
    obtain ⟨b, hb, _, fits⟩ := ok.journal k hk
    rw [h.unique_journal hb ha]
    exact fits
  · intro free ns hns
    rw [only ns hns]
    exact ⟨rfl, ok.vacant free⟩
  · intro k a hk ha _ ns hns l b hl hb
    rw [only ns hns] at hl
    obtain rfl : k = l := Option.some.inj (hk.symm.trans hl)
    rw [h.unique_journal ha hb]

theorem Core.syncDirectory (h : Core g w) : Core g (w.redirect w.disk.dir.sync) :=
  h.only_visible h.dir.sync rfl w.disk.dir.image_visible fun ns image =>
    (w.disk.dir.image_sync ns).mp image

theorem Core.powerLoss (h : Core g w) (kept : List Bool) (torn : Nat → Content) (service : Service) :
    Core g ((Move.powerLoss kept torn service).apply w) := by
  have lost : Core g (w.redirect (w.disk.dir.lose kept)) :=
    h.only_visible (h.dir.lose kept) rfl (w.disk.dir.lose_image kept) fun ns image =>
      (w.disk.dir.image_lose kept ns).mp image
  have file (i : Nat) : ∃ c s, (w.disk.lose kept torn).files i =
      { w.disk.files i with content := c, stored := s } := by
    by_cases clean : (w.disk.files i).content = (w.disk.files i).stored
    · exact ⟨(w.disk.files i).content, (w.disk.files i).stored, if_pos clean⟩
    · exact ⟨torn i, torn i, by simp [Disk.lose, clean]⟩
  refine { lost with healthy := ?_, synced := ?_, memory := ?_ }
  · intro ns image n i hi
    have old := lost.healthy ns image n i hi
    obtain ⟨c, s, eq⟩ := file i
    change Healthy g.dev n ((w.disk.lose kept torn).files i)
    rw [eq]
    exact ⟨old.regular, old.mode, old.device, old.outside, old.size, old.owner⟩
  · intro i c hs
    obtain ⟨below, content, stored⟩ := lost.synced i c hs
    have content : (w.disk.files i).content = c := content
    have stored : (w.disk.files i).stored = c := stored
    have same : (w.disk.lose kept torn).files i = w.disk.files i := by
      simp [Disk.lose, content, stored]
    refine ⟨below, ?_⟩
    change ((w.disk.lose kept torn).files i).content = c ∧ ((w.disk.lose kept torn).files i).stored = c
    rw [same]
    exact ⟨content, stored⟩
  · intro j hj
    cases hj

/-- The canonical store gets its second name before a commit, with every image
still at the old store. -/
theorem Core.link (h : Core g w) (seen : w.disk.dir.visible .canonical = some i)
    (old : ∀ ns, w.disk.dir.Image ns → ns .canonical = some i ∧ ∃ k, ns .journal = some k)
    (mine : ∀ ns, w.disk.dir.Image ns → ∀ k a, ns .journal = some k →
      Sealed g w.trace k (.journal a) → a.oldInode.ino = i) :
    Core g (w.redirect (w.disk.dir.link .canonical .rollback)) := by
  have dir := h.dir.link seen fun ns image => (old ns image).1
  rw [w.disk.dir.link_of_visible seen] at dir ⊢
  have images {ns : Names Name} (image : (w.disk.dir.push (.bind .rollback i)
      (Dir.bind_below (w.disk.dir.visible_lt seen))).Image ns) : w.disk.dir.Image ns ∨
        ∃ earlier, w.disk.dir.Image earlier ∧ Function.update earlier .rollback (some i) = ns :=
    (w.disk.dir.image_push _ _ ns).mp image
  have journal : (w.disk.dir.push (.bind .rollback i)
      (Dir.bind_below (w.disk.dir.visible_lt seen))).visible .journal =
        w.disk.dir.visible .journal := by simp [Change.apply]
  have fits {ns : Names Name} (image : w.disk.dir.Image ns) {a : Journal} (ha : Fits g a ns)
      (hi : a.oldInode.ino = i) : Fits g a (Function.update ns .rollback (some i)) := by
    subst hi
    exact ha.link (old ns image).1
  refine { h with dir := dir, healthy := ?_, images := ?_, fits := ?_, idle := ?_, same := ?_ }
  · intro ns image m k hk
    rcases images image with from_ | ⟨earlier, from_, rfl⟩
    · exact h.healthy ns from_ m k hk
    · rcases update_eq_some hk with ⟨rfl, rfl⟩ | ⟨_, hk⟩
      · have store := h.healthy _ w.disk.dir.image_visible .canonical i seen
        exact ⟨store.regular, store.mode, store.device, store.outside,
          fun _ => store.size (by decide), fun _ => store.owner (by decide)⟩
      · exact h.healthy earlier from_ m k hk
  · intro ns image
    rcases images image with from_ | ⟨earlier, from_, rfl⟩
    · exact h.images ns from_
    · have ok := h.images earlier from_
      refine ⟨by simpa using ok.canonical, fun free => ?_, fun k hk => ?_⟩
      · obtain ⟨k, hk⟩ := (old earlier from_).2
        simp [hk] at free
      · have hk : earlier .journal = some k := by simpa using hk
        obtain ⟨a, sealed, aok, afits⟩ := ok.journal k hk
        exact ⟨a, sealed, aok, fits from_ afits (mine earlier from_ k a hk sealed)⟩
  · intro k a hk ha ns image
    have hk : w.disk.dir.visible .journal = some k := journal.symm.trans hk
    rcases images image with from_ | ⟨earlier, from_, rfl⟩
    · exact h.fits k a hk ha ns from_
    · exact fits from_ (h.fits k a hk ha earlier from_) (mine _ w.disk.dir.image_visible k a hk ha)
  · intro free
    obtain ⟨k, hk⟩ := (old _ w.disk.dir.image_visible).2
    have free : w.disk.dir.visible .journal = none := journal.symm.trans free
    rw [free] at hk
    cases hk
  · intro k a hk ha issued ns image l b hl hb
    have hk : w.disk.dir.visible .journal = some k := journal.symm.trans hk
    rcases images image with from_ | ⟨earlier, from_, rfl⟩
    · exact h.same k a hk ha issued ns from_ l b hl hb
    · exact h.same k a hk ha issued earlier from_ l b (by simpa using hl) hb

/-- The temporary journal takes the journal's name. -/
theorem Core.publish (h : Core g w) (seen : w.disk.dir.visible .journalNew = some i)
    (sealed : Sealed g w.trace i (.journal j)) (ok : JournalOk g w.trace j)
    (allowed : ∀ ns, w.disk.dir.Image ns → Fits g j ns)
    (same : j.issued.isSome = true → ∀ ns, w.disk.dir.Image ns → ∀ k a, ns .journal = some k →
      Sealed g w.trace k (.journal a) → a.oldInode = j.oldInode) :
    Core g (w.redirect (w.disk.dir.rename .journalNew .journal)) := by
  have alone := h.dir.alone .journalNew rfl i seen
  have distinct : w.disk.dir.visible .journal ≠ some i := fun hj => by
    cases alone _ w.disk.dir.image_visible .journal hj
  rw [w.disk.dir.rename_of_visible seen distinct]
  have images {ns : Names Name} (image : (w.disk.dir.push (.move .journalNew .journal i)
      (Dir.move_below (w.disk.dir.visible_lt seen))).Image ns) : w.disk.dir.Image ns ∨
        ∃ earlier, w.disk.dir.Image earlier ∧
          (Change.move .journalNew .journal i).apply earlier = ns :=
    (w.disk.dir.image_push _ _ ns).mp image
  have journal : (w.disk.dir.push (.move .journalNew .journal i)
      (Dir.move_below (w.disk.dir.visible_lt seen))).visible .journal = some i := by
    simp [Change.apply]
  have keeps {ns : Names Name} {a : Journal} (ha : Fits g a ns) :
      Fits g a ((Change.move .journalNew .journal i).apply ns) :=
    ha.of_eq (by simp [Change.apply]) (by simp [Change.apply]) (by simp [Change.apply])
  refine { h with
    dir := h.dir.move (Dir.move_below (w.disk.dir.visible_lt seen)) rfl fun ns image m hm => Or.inl (alone ns image m hm)
    healthy := ?_, images := ?_, fits := ?_, idle := ?_, same := ?_ }
  · intro ns image m k hk
    rcases images image with old | ⟨earlier, old, rfl⟩
    · exact h.healthy ns old m k hk
    · rcases move_eq_some hk with ⟨rfl, rfl⟩ | ⟨_, _, hk⟩
      · have temporary := h.healthy _ w.disk.dir.image_visible .journalNew i seen
        exact ⟨temporary.regular, temporary.mode, temporary.device, temporary.outside,
          fun _ => temporary.size (by decide), fun _ => temporary.owner (by decide)⟩
      · exact h.healthy earlier old m k hk
  · intro ns image
    rcases images image with old | ⟨earlier, old, rfl⟩
    · exact h.images ns old
    · refine ⟨by simpa [Change.apply] using (h.images earlier old).canonical, fun free => ?_,
        fun k hk => ?_⟩
      · simp [Change.apply] at free
      · obtain rfl : i = k := by simpa [Change.apply] using hk
        exact ⟨j, sealed, ok, keeps (allowed earlier old)⟩
  · intro k a hk ha ns image
    obtain rfl : i = k := Option.some.inj (journal.symm.trans hk)
    rw [h.unique_journal sealed ha]
    rcases images image with old | ⟨earlier, old, rfl⟩
    · exact allowed ns old
    · exact keeps (allowed earlier old)
  · intro free
    cases journal.symm.trans free
  · intro k a hk ha issued ns image l b hl hb
    obtain rfl : i = k := Option.some.inj (journal.symm.trans hk)
    rw [h.unique_journal sealed ha] at issued ⊢
    rcases images image with old | ⟨earlier, old, rfl⟩
    · exact same issued ns old l b hl hb
    · obtain rfl : i = l := by simpa [Change.apply] using hl
      rw [h.unique_journal sealed hb]

/-- The stage takes the canonical name, with nothing else pending. -/
theorem Core.commit (h : Core g w) {k : Nat} (seen : w.disk.dir.visible .stage = some k)
    (only : ∀ ns, w.disk.dir.Image ns → ns = w.disk.dir.visible)
    (journal : w.disk.dir.visible .journal = some i) (sealed : Sealed g w.trace i (.journal j))
    (possible : j.commitPossible = true) (stage : j.stageInode = some ⟨g.dev, k⟩)
    (rollback : w.disk.dir.visible .rollback = some j.oldInode.ino)
    (owner : (w.disk.files k).uid = abc ∧ (w.disk.files k).gid = abc)
    (small : (w.disk.files k).size ≤ maxStore) (genuine : Genuine g w.trace k c) :
    Core g (w.redirect (w.disk.dir.rename .stage .canonical)) := by
  have alone := h.dir.alone .stage rfl k seen
  have distinct : w.disk.dir.visible .canonical ≠ some k := fun hc => by
    cases alone _ w.disk.dir.image_visible .canonical hc
  obtain ⟨b, hb, ok, allowed⟩ := h.visible_journal journal
  obtain rfl : j = b := h.unique_journal hb sealed
  rw [w.disk.dir.rename_of_visible seen distinct]
  have images {ns : Names Name} (image : (w.disk.dir.push (.move .stage .canonical k)
      (Dir.move_below (w.disk.dir.visible_lt seen))).Image ns) : ns = w.disk.dir.visible ∨
        (Change.move .stage .canonical k).apply w.disk.dir.visible = ns := by
    rcases (w.disk.dir.image_push _ _ ns).mp image with old | ⟨earlier, old, rfl⟩
    · exact Or.inl (only ns old)
    · rw [only earlier old]
      exact Or.inr rfl
  have moved := (allowed _ w.disk.dir.image_visible).commit possible stage rollback
  have here : (Change.move .stage .canonical k).apply w.disk.dir.visible .journal = some i := by
    simpa [Change.apply] using journal
  have after : (w.disk.dir.push (.move .stage .canonical k)
      (Dir.move_below (w.disk.dir.visible_lt seen))).visible .journal = some i := by
    simpa [Change.apply] using journal
  refine { h with
    dir := h.dir.move (Dir.move_below (w.disk.dir.visible_lt seen)) rfl fun ns image m hm => Or.inl (alone ns image m hm)
    healthy := ?_, images := ?_, fits := ?_, idle := ?_, same := ?_ }
  · intro ns image m l hl
    rcases images image with rfl | rfl
    · exact h.healthy _ w.disk.dir.image_visible m l hl
    · rcases move_eq_some hl with ⟨rfl, rfl⟩ | ⟨_, _, hl⟩
      · have staged := h.healthy _ w.disk.dir.image_visible .stage k seen
        exact ⟨staged.regular, staged.mode, staged.device, staged.outside, fun _ => small,
          fun _ => owner⟩
      · exact h.healthy _ w.disk.dir.image_visible m l hl
  · intro ns image
    rcases images image with rfl | rfl
    · exact h.images _ w.disk.dir.image_visible
    · refine ⟨⟨k, c, by simp [Change.apply], genuine⟩, fun free => ?_, fun l hl => ?_⟩
      · rw [here] at free
        cases free
      · obtain rfl : i = l := Option.some.inj (here.symm.trans hl)
        exact ⟨j, sealed, ok, moved⟩
  · intro l a hl ha ns image
    obtain rfl : i = l := Option.some.inj (after.symm.trans hl)
    rw [h.unique_journal sealed ha]
    rcases images image with rfl | rfl
    · exact allowed _ w.disk.dir.image_visible
    · exact moved
  · intro free
    cases after.symm.trans free
  · intro l a hl ha _ ns image m b hm hb
    obtain rfl : i = l := Option.some.inj (after.symm.trans hl)
    have hm : some i = some m := by
      rcases images image with rfl | rfl
      · exact journal.symm.trans hm
      · exact here.symm.trans hm
    obtain rfl : i = m := Option.some.inj hm
    rw [h.unique_journal ha hb]

/-- The rollback takes the canonical name back, whatever is still pending. -/
theorem Core.restore (h : Core g w) (journal : w.disk.dir.visible .journal = some i)
    (sealed : Sealed g w.trace i (.journal j)) (possible : j.commitPossible = true)
    (unverified : j.phase ≠ .liveVerified)
    (seen : w.disk.dir.visible .rollback = some j.oldInode.ino) :
    Core g (w.redirect (w.disk.dir.rename .rollback .canonical)) := by
  by_cases same : w.disk.dir.visible .canonical = some j.oldInode.ino
  · rw [w.disk.dir.rename_same (seen.trans same.symm)]
    exact h
  obtain ⟨b, hb, ok, allowed⟩ := h.visible_journal journal
  obtain rfl : j = b := h.unique_journal hb sealed
  obtain ⟨l, c, id, hstage, _, _, hissued, _⟩ := ok.supported.committable possible
  have issued : j.issued.isSome = true := by simp [hissued]
  obtain ⟨old, genuine, _⟩ := ok.supported.old
  rw [w.disk.dir.rename_of_visible seen same]
  have images {ns : Names Name} (image : (w.disk.dir.push (.move .rollback .canonical j.oldInode.ino)
      (Dir.move_below (w.disk.dir.visible_lt seen))).Image ns) : w.disk.dir.Image ns ∨
        ∃ earlier, w.disk.dir.Image earlier ∧
          (Change.move .rollback .canonical j.oldInode.ino).apply earlier = ns :=
    (w.disk.dir.image_push _ _ ns).mp image
  have after : (w.disk.dir.push (.move .rollback .canonical j.oldInode.ino)
      (Dir.move_below (w.disk.dir.visible_lt seen))).visible .journal = some i := by
    simpa [Change.apply] using journal
  -- every image still names the old store by a name that keeps it
  have keeps (ns : Names Name) (image : w.disk.dir.Image ns) (m : Name)
      (hm : ns m = some j.oldInode.ino) : m = .rollback ∨
        (m.keeper = true ∧ Name.canonical.keeper = true) := by
    have named : ∃ n, n.keeper = true ∧ ns n = some j.oldInode.ino := by
      rcases (allowed ns image).canonical with hc | ⟨_, _, _, hr | live⟩
      · exact ⟨.canonical, rfl, hc⟩
      · exact ⟨.rollback, rfl, hr⟩
      · exact absurd live unverified
    obtain ⟨n, keeper, hn⟩ := named
    rcases h.dir.distinct ns image m n _ hm hn with rfl | ⟨km, _⟩
    · exact Or.inr ⟨keeper, rfl⟩
    · exact Or.inr ⟨km, rfl⟩
  have fits {ns : Names Name} {a : Journal} (ha : Fits g a ns) (eq : a.oldInode = j.oldInode) :
      Fits g a ((Change.move .rollback .canonical j.oldInode.ino).apply ns) := by
    rw [← eq]
    exact ha.restore
  refine { h with
    dir := h.dir.move (Dir.move_below (w.disk.dir.visible_lt seen)) rfl keeps
    healthy := ?_, images := ?_, fits := ?_, idle := ?_, same := ?_ }
  · intro ns image m k hk
    rcases images image with from_ | ⟨earlier, from_, rfl⟩
    · exact h.healthy ns from_ m k hk
    · rcases move_eq_some hk with ⟨rfl, rfl⟩ | ⟨_, _, hk⟩
      · have store := h.healthy _ w.disk.dir.image_visible .rollback _ seen
        exact ⟨store.regular, store.mode, store.device, store.outside,
          fun _ => store.size (by decide), fun _ => store.owner (by decide)⟩
      · exact h.healthy earlier from_ m k hk
  · intro ns image
    rcases images image with from_ | ⟨earlier, from_, rfl⟩
    · exact h.images ns from_
    · refine ⟨⟨j.oldInode.ino, old, by simp [Change.apply], genuine⟩, fun free => ?_,
        fun k hk => ?_⟩
      · have free : earlier .journal = none := by simpa [Change.apply] using free
        simpa [Change.apply] using ((h.images earlier from_).vacant free).1
      · have hk : earlier .journal = some k := by simpa [Change.apply] using hk
        obtain ⟨a, ha, aok, afits⟩ := (h.images earlier from_).journal k hk
        exact ⟨a, ha, aok, fits afits (h.same i j journal sealed issued earlier from_ k a hk ha)⟩
  · intro k a hk ha ns image
    obtain rfl : i = k := Option.some.inj (after.symm.trans hk)
    rw [h.unique_journal sealed ha]
    rcases images image with from_ | ⟨earlier, from_, rfl⟩
    · exact allowed ns from_
    · exact fits (allowed earlier from_) rfl
  · intro free
    cases after.symm.trans free
  · intro k a hk ha his ns image l b hl hb
    obtain rfl : i = k := Option.some.inj (after.symm.trans hk)
    rcases images image with from_ | ⟨earlier, from_, rfl⟩
    · exact h.same i a journal ha his ns from_ l b hl hb
    · exact h.same i a journal ha his earlier from_ l b (by simpa [Change.apply] using hl) hb

end

end CertRenewer
