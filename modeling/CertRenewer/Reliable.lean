import CertRenewer.Progression

/-!
# Runs in which nothing fails

When every primitive proceeds, what a step does depends on the scene it finds
alone: the disk, the executor object, the service and the lock. `Gives m s R`
says that `m` then returns from the scene `s`, and what it returns and leaves
satisfies `R`.
-/

namespace CertRenewer

open Crash

structure Scene extends View where
  held : Bool

def World.scene (w : World) : Scene := ⟨w.view, w.held⟩

variable {α β : Type}

def Gives (m : Exec α) (s : Scene) (R : α → Scene → Prop) : Prop :=
  ∀ w : World, w.scene = s → Prog.Returns m (fun a t => R a t.scene) w

/-- `m` finds `a` in the scene and leaves it. -/
abbrev Finds (m : Exec α) (s : Scene) (a : α) : Prop := Gives m s fun b t => b = a ∧ t = s

section
variable {m : Exec α} {s t : Scene} {R R' : α → Scene → Prop} {a : α}

theorem Gives.mono (h : Gives m s R) (weaken : ∀ a t, R a t → R' a t) : Gives m s R' :=
  fun w hw => (h w hw).mono (fun a t ht => weaken a t.scene ht) (fun _ _ no => no) fun _ no => no

theorem gives_bind {f : β → Exec α} {m : Exec β} {S : β → Scene → Prop} (h : Gives m s S)
    (hf : ∀ b t, S b t → Gives (f b) t R) : Gives (m >>= f) s R := fun w hw =>
  Prog.holds_bind_of (h w hw) fun b t hb => hf b t.scene hb t rfl

theorem finds_then {f : β → Exec α} {m : Exec β} {b : β} (h : Finds m s b) (hf : Gives (f b) s R) :
    Gives (m >>= f) s R := by
  refine gives_bind h ?_
  rintro _ _ ⟨rfl, rfl⟩
  exact hf

theorem finds_pure (a : α) : Finds (pure a) s a := fun _ hw => ⟨rfl, hw⟩

theorem finds_read (f : Scene → α) : Finds (Prog.read fun w => f w.scene) s (f s) := by
  rintro w rfl
  exact ⟨rfl, rfl⟩

theorem finds_lift {r : Result α} (ok : r = .ok a) : Finds (lift r) s a := by
  subst ok
  exact finds_pure a

theorem finds_demand {p : Prop} [Decidable p] (message : String) (h : p) :
    Finds (demand p message) s () := by
  intro w hw
  rw [demand, Prog.Returns, Prog.holds_guard]
  exact ⟨fun _ => ⟨rfl, hw⟩, fun no => no h⟩

theorem finds_emit (e : Event) : Finds (emit e) s () := fun _ hw => ⟨rfl, hw⟩

theorem gives_setProcess (f : Process → Process) :
    Gives (setProcess f) s fun _ t => t = { s with process := f s.process } := by
  rintro w rfl
  rfl

theorem gives_setDisk (f : Disk → Disk) :
    Gives (setDisk f) s fun _ t => t = { s with disk := f s.disk } := by
  rintro w rfl
  rfl

theorem gives_setService (f : Service → Service) :
    Gives (setService f) s fun _ t => t = { s with service := f s.service } := by
  rintro w rfl
  rfl

theorem gives_primitive {x : Session} (reliable : x.oracle.Reliable) (h : Gives m s R) :
    Gives (primitive x m) s R := by
  intro w hw
  change Prog.Returns (Prog.interrupted .os m (x.oracle.verdict w.tick)) _ { w with tick := w.tick + 1 }
  rw [(reliable w.tick).1]
  exact h _ hw

/-- A handler is not needed. -/
theorem gives_handle {h : Error → Exec α} (body : Gives m s R) : Gives (Prog.handle m h) s R := by
  intro w hw
  rw [Prog.Returns, Prog.holds_handle]
  exact (body w hw).mono (fun _ _ h => h) (fun _ _ no => no.elim) fun _ no => no

theorem gives_ensure {f : Exec Unit} {S : α → Scene → Prop} (body : Gives m s S)
    (last : ∀ a t, S a t → Gives f t fun _ u => R a u) : Gives (Prog.ensure m f) s R := by
  intro w hw
  rw [Prog.Returns, Prog.holds_ensure]
  exact (body w hw).mono (fun a t ht => last a t.scene ht t rfl) (fun _ _ no => no.elim) fun _ no => no

end

/-! ## A disk on which every name is safe -/

/-- What `status` asks of a file under a name, its links apart. -/
structure Inode.Sound (f : Inode) (n : Name) (dev : Nat) : Prop where
  regular : f.regular = true
  mode : f.mode = 0o600
  owner : f.uid = n.owner ∧ f.gid = n.owner
  device : f.dev = dev
  size : f.size ≤ maxStore
  outside : f.outside = 0

/-- Only the canonical store and its rollback share a file, and no file has a
name elsewhere. -/
structure Apart (d : Disk) : Prop where
  distinct : ∀ n m i, d.dir.visible n = some i → d.dir.visible m = some i →
    n = m ∨ (n.keeper = true ∧ m.keeper = true)
  outside : ∀ n i, d.dir.visible n = some i → (d.files i).outside = 0

structure Sane (d : Disk) : Prop where
  distinct : ∀ n m i, d.dir.visible n = some i → d.dir.visible m = some i →
    n = m ∨ (n.keeper = true ∧ m.keeper = true)
  sound : ∀ n i, d.dir.visible n = some i → (d.files i).Sound n d.dev

section
variable {d : Disk} {n : Name} {i : Nat}

theorem Name.of_keeper (h : n.keeper = true) : n = .canonical ∨ n = .rollback := by
  cases n <;> simp_all [Name.keeper]

theorem Sane.apart (h : Sane d) : Apart d := ⟨h.distinct, fun n i seen => (h.sound n i seen).outside⟩

theorem Apart.links_one (h : Apart d) (seen : d.dir.visible n = some i)
    (alone : ∀ m, d.dir.visible m = some i → m = n) : d.links i = 1 := by
  have outside := h.outside n i seen
  have count : Name.all.countP (fun m => d.dir.visible m = some i) = Name.all.countP (fun m => m = n) := by
    refine List.countP_congr fun m _ => ?_
    simp only [decide_eq_true_eq]
    exact ⟨alone m, fun same => same ▸ seen⟩
  have one : Name.all.countP (fun m => m = n) = 1 := by cases n <;> decide
  rw [Disk.links, count, one, outside]

theorem Apart.links_two (h : Apart d) (canonical : d.dir.visible .canonical = some i)
    (rollback : d.dir.visible .rollback = some i) : d.links i = 2 := by
  have outside := h.outside _ i canonical
  have count : Name.all.countP (fun m => d.dir.visible m = some i) =
      Name.all.countP (fun m => m.keeper) := by
    refine List.countP_congr fun m _ => ?_
    simp only [decide_eq_true_eq]
    constructor
    · intro seen
      rcases h.distinct m _ i seen canonical with rfl | ⟨keeper, _⟩
      · rfl
      · exact keeper
    · cases m <;> simp [Name.keeper, canonical, rollback]
  have two : Name.all.countP (fun m => m.keeper) = 2 := by decide
  rw [Disk.links, count, two, outside]

theorem Apart.alone (h : Apart d) (seen : d.dir.visible n = some i) (other : n.keeper = false) (m : Name)
    (hm : d.dir.visible m = some i) : m = n := by
  rcases h.distinct m n i hm seen with same | ⟨_, keeper⟩
  · exact same
  · rw [other] at keeper
    cases keeper

/-- A file has as many links as `status` allows its name. -/
theorem Apart.links (h : Apart d) (seen : d.dir.visible n = some i) : d.links i ∈ n.linkCounts := by
  by_cases keeper : n.keeper = true
  · by_cases both : d.dir.visible .canonical = some i ∧ d.dir.visible .rollback = some i
    · rw [h.links_two both.1 both.2]
      rcases Name.of_keeper keeper with rfl | rfl <;> decide
    · have alone : ∀ m, d.dir.visible m = some i → m = n := by
        intro m hm
        rcases h.distinct m n i hm seen with same | ⟨keeper', _⟩
        · exact same
        · rcases Name.of_keeper keeper with rfl | rfl <;> rcases Name.of_keeper keeper' with rfl | rfl
          · rfl
          · exact absurd ⟨seen, hm⟩ both
          · exact absurd ⟨hm, seen⟩ both
          · rfl
      rw [h.links_one seen alone]
      rcases Name.of_keeper keeper with rfl | rfl <;> decide
  · rw [h.links_one seen (h.alone seen (Bool.eq_false_iff.mpr keeper))]
    cases n <;> decide

theorem Sane.safe (h : Sane d) (seen : d.dir.visible n = some i) :
    (d.statOf i).safe n d.dev = true := by
  have sound := h.sound n i seen
  have links := h.apart.links seen
  simp only [Stat.safe, Disk.statOf, sound.regular, sound.mode, sound.owner.1, sound.owner.2,
    sound.device, Bool.and_eq_true, beq_self_eq_true, decide_eq_true_eq, true_and]
  exact ⟨sound.size, List.contains_iff_mem.mpr links⟩

theorem Disk.stat_eq (seen : d.dir.visible n = some i) : d.stat n = some (d.statOf i) := by
  simp [Disk.stat, seen]

end

/-! ## The looking steps -/

section
variable {x : Session} (reliable : x.oracle.Reliable) {s : Scene} {n : Name} {i : Nat}
include reliable

theorem finds_checkName : Finds (checkName x) s () := gives_primitive reliable (finds_pure ())

theorem finds_status (sane : Sane s.disk) (seen : s.disk.dir.visible n = some i) :
    Finds (status x n) s (s.disk.statOf i) := by
  refine finds_then (finds_checkName reliable) (gives_primitive reliable ?_)
  refine finds_then (finds_read fun s => s.disk) ?_
  simp only [Disk.stat_eq seen]
  exact finds_then (finds_demand _ (sane.safe seen)) (finds_pure _)

theorem finds_exists (n : Name) : Finds (exists_ x n) s (s.disk.dir.visible n).isSome :=
  finds_then (finds_checkName reliable)
    (gives_primitive reliable (finds_read fun s => (s.disk.dir.visible n).isSome))

theorem finds_same (sane : Sane s.disk) (seen : s.disk.dir.visible n = some i) :
    Finds (same x n (s.disk.statOf i)) s () :=
  finds_then (finds_status reliable sane seen) (finds_demand _ rfl)

theorem finds_checkOpened (sane : Sane s.disk) (seen : s.disk.dir.visible n = some i) :
    Finds (checkOpened x n i) s () := by
  refine finds_then (gives_primitive reliable (finds_read fun s => s.disk.statOf i)) ?_
  exact finds_then (finds_status reliable sane seen) (finds_demand _ rfl)

theorem finds_number (seen : s.disk.dir.visible n = some i) : Finds (primitive x do
    let d ← Prog.read World.disk
    match d.dir.visible n with
    | none => Prog.raise .os
    | some i => pure i) s i := by
  refine gives_primitive reliable (finds_then (finds_read fun s => s.disk) ?_)
  simp only [seen]
  exact finds_pure i

theorem finds_opened (sane : Sane s.disk) (seen : s.disk.dir.visible n = some i) :
    Finds (opened x n) s i := by
  refine finds_then (finds_checkName reliable) (finds_then (finds_number reliable seen) ?_)
  exact finds_then (finds_checkOpened reliable sane seen) (finds_pure i)

theorem finds_readJournal {j : Journal} (sane : Sane s.disk)
    (seen : s.disk.dir.visible .journal = some i) (content : (s.disk.files i).content = .journal j) :
    Finds (readJournal x) s j := by
  refine finds_then (finds_opened reliable sane seen) ?_
  refine finds_then (gives_primitive reliable (finds_read fun s => s.disk.files i)) ?_
  simp only [content]
  exact finds_pure j

theorem finds_processes : Finds (processes x) s (s.service.java, s.service.keytool) :=
  gives_primitive reliable (finds_read fun s => (s.service.java, s.service.keytool))

theorem finds_running : Finds (running x) s s.service.up :=
  gives_primitive reliable (finds_read fun s => s.service.up)

theorem finds_noKeytool (idle : s.service.keytool = false) : Finds (noKeytool x) s () :=
  finds_then (finds_processes reliable) (finds_demand _ (by simp [idle]))

theorem finds_stopped (down : s.service = ⟨false, false, false⟩) : Finds (stopped x) s () := by
  refine finds_then (finds_processes reliable) (finds_then (finds_demand _ (by simp [down])) ?_)
  refine finds_then (finds_running reliable) (finds_then (finds_demand _ (by simp [down])) ?_)
  exact finds_emit _

omit reliable in
theorem finds_getJournal {j : Journal} (memory : s.process.journal = some j) :
    Finds getJournal s j := by
  refine finds_then (finds_read fun s => s.process) ?_
  simp only [memory]
  exact finds_pure j

omit reliable in
theorem finds_assertLocked (locked : s.process.locked = true) : Finds assertLocked s () :=
  finds_then (finds_read fun s => s.process) (finds_demand _ locked)

theorem finds_collect {state : PublicKeystoreState} (sane : Sane s.disk)
    (locked : s.process.locked = true) (store : n.isStore = true)
    (seen : s.disk.dir.visible n = some i)
    (reads : x.host.read (s.disk.files i).content = some state) : Finds (collect x n) s state := by
  obtain ⟨output, listed, parsed⟩ : ∃ output, x.host.listing (s.disk.files i).content = some output ∧
      parseCollection x.host.lib output = .ok state := by
    unfold Host.read at reads
    split at reads
    · cases reads
    · rename_i output listed
      split at reads
      · rename_i found parsed
        cases reads
        exact ⟨output, listed, parsed⟩
      · cases reads
  have list : Finds (keytool x n .list) s output := by
    refine finds_then (finds_assertLocked locked) (finds_then (finds_demand _ store) ?_)
    refine finds_then (gives_primitive reliable (finds_pure ())) ?_
    refine gives_primitive reliable (finds_then (finds_emit _) ?_)
    refine finds_then (finds_read fun s => s.disk) ?_
    simp only [Disk.inode, seen, Option.map_some, listed]
    exact finds_pure output
  refine finds_then (finds_assertLocked locked) (finds_then (finds_demand _ store) ?_)
  refine finds_then (finds_status reliable sane seen) (finds_then list ?_)
  exact finds_then (finds_same reliable sane seen) (finds_lift parsed)

theorem finds_collectId {id : PublicId} (sane : Sane s.disk) (locked : s.process.locked = true)
    (store : n.isStore = true) (seen : s.disk.dir.visible n = some i)
    (reads : x.host.Reads (s.disk.files i).content id) : Finds (collectId x n) s id := by
  obtain ⟨state, read, named⟩ := reads
  exact finds_then (finds_collect reliable sane locked store seen read) (finds_lift named)

theorem finds_noTransaction (journal : s.disk.dir.visible .journal = none)
    (new : s.disk.dir.visible .journalNew = none) (stage : s.disk.dir.visible .stage = none)
    (rollback : s.disk.dir.visible .rollback = none) : Finds (noTransaction x) s () := by
  have absent (n : Name) (free : s.disk.dir.visible n = none) (message : String) :
      Finds (do if ← exists_ x n then refuse message) s () := by
    refine finds_then (finds_exists reliable n) ?_
    rw [free]
    exact finds_pure ()
  simp only [noTransaction, List.forM]
  refine finds_then (absent _ journal _) (finds_then (absent _ new _) ?_)
  exact finds_then (absent _ stage _) (finds_then (absent _ rollback _) (finds_pure ()))

end

/-! ## The changing steps -/

section
variable {d d' d'' : Disk} {ns ns' : Names Name} {n : Name} {i k : Nat}

/-- The disk `d'` after some steps: every name is safe and denotes what `ns`
says, and no file there was holds anything else. -/
structure Leaves (d d' : Disk) (ns : Names Name) : Prop where
  sane : Sane d'
  names : d'.dir.visible = ns
  dev : d'.dev = d.dev
  next : d.dir.next ≤ d'.dir.next
  content : ∀ i < d.dir.next, (d'.files i).content = (d.files i).content

theorem Leaves.refl (h : Sane d) : Leaves d d d.dir.visible := ⟨h, rfl, rfl, Nat.le_refl _, fun _ _ => rfl⟩

theorem Leaves.trans (h : Leaves d d' ns) (k : Leaves d' d'' ns') : Leaves d d'' ns' where
  sane := k.sane
  names := k.names
  dev := k.dev.trans h.dev
  next := Nat.le_trans h.next k.next
  content i hi := (k.content i (Nat.lt_of_lt_of_le hi h.next)).trans (h.content i hi)

theorem Sane.modify (h : Sane d) {f : Inode → Inode}
    (sound : ∀ n, d.dir.visible n = some i → (f (d.files i)).Sound n d.dev) : Sane (d.modify i f) where
  distinct := h.distinct
  sound n l seen := by
    by_cases same : l = i
    · subst same
      simpa [Disk.modify] using sound n seen
    · simpa [Disk.modify, same] using h.sound n l seen

theorem Sane.touch (h : Sane d) (i : Nat) : Sane (d.touch i) :=
  h.modify fun n seen => { h.sound n i seen with }

theorem Sane.redirect (h : Sane d) {dir : Dir Name}
    (fewer : ∀ n i, dir.visible n = some i → d.dir.visible n = some i) : Sane { d with dir := dir } where
  distinct n m i hn hm := h.distinct n m i (fewer n i hn) (fewer m i hm)
  sound n i seen := h.sound n i (fewer n i seen)

theorem Disk.content_touch (d : Disk) (i l : Nat) :
    ((d.touch i).files l).content = (d.files l).content := by
  by_cases same : l = i
  · subst same
    simp [Disk.touch, Disk.modify]
  · simp [Disk.touch, Disk.modify, same]

theorem Sane.unlink (h : Sane d) (n : Name) (i : Nat) :
    Leaves d { d.touch i with dir := d.dir.unlink n } (Function.update d.dir.visible n none) where
  sane := (h.touch i).redirect fun m l seen => by
    rw [Dir.visible_unlink] at seen
    exact (update_none_eq_some seen).2
  names := Dir.visible_unlink _ _
  dev := rfl
  next := Nat.le_refl _
  content l _ := d.content_touch i l

theorem Sane.syncDirectory (h : Sane d) : Leaves d { d with dir := d.dir.sync } d.dir.visible where
  sane := h.redirect fun _ _ seen => seen
  names := rfl
  dev := rfl
  next := Nat.le_refl _
  content _ _ := rfl

/-- A new file of root's. -/
theorem Sane.create (h : Sane d) (root : n.owner = 0) :
    Leaves d (d.create n) (Function.update d.dir.visible n (some d.dir.next)) := by
  have names : (d.create n).dir.visible = Function.update d.dir.visible n (some d.dir.next) := by
    simp [Disk.create]
  refine ⟨⟨fun a b i ha hb => ?_, fun m i seen => ?_⟩, names, rfl, Nat.le_succ _, fun i hi => ?_⟩
  · rw [names] at ha hb
    rcases update_eq_some ha with ⟨rfl, rfl⟩ | ⟨_, ha⟩ <;>
      rcases update_eq_some hb with ⟨hb, same⟩ | ⟨_, hb⟩
    · exact Or.inl hb.symm
    · exact absurd (d.dir.visible_lt hb) (Nat.lt_irrefl _)
    · exact absurd (d.dir.visible_lt ha) (same ▸ Nat.lt_irrefl _)
    · exact h.distinct a b i ha hb
  · rw [names] at seen
    rcases update_eq_some seen with ⟨rfl, rfl⟩ | ⟨_, seen⟩
    · have file : (d.create m).files d.dir.next =
          ⟨d.dev, true, 0o600, 0, 0, 0, 0, 0, .other [], .other []⟩ := by simp [Disk.create]
      rw [file]
      exact ⟨rfl, rfl, ⟨root.symm, root.symm⟩, rfl, Nat.zero_le _, rfl⟩
    · have older : i ≠ d.dir.next := Nat.ne_of_lt (d.dir.visible_lt seen)
      have file : (d.create n).files i = d.files i := by simp [Disk.create, older]
      rw [file]
      exact h.sound m i seen
  · have older : i ≠ d.dir.next := Nat.ne_of_lt hi
    simp [Disk.create, older]

/-- The temporary journal takes the journal's name. -/
theorem Sane.publish (h : Sane d) (new : d.dir.visible .journalNew = some k) :
    Leaves d { d.touch k with dir := d.dir.rename .journalNew .journal }
      (Function.update (Function.update d.dir.visible .journalNew none) .journal (some k)) := by
  have other : d.dir.visible .journal ≠ some k := fun seen =>
    nomatch h.apart.alone new rfl .journal seen
  have names : (d.dir.rename .journalNew .journal).visible =
      (Change.move .journalNew .journal k).apply d.dir.visible := by
    rw [Dir.rename_of_visible _ new other, Dir.visible_push]
  have origin (m : Name) (i : Nat) (seen : (d.dir.rename .journalNew .journal).visible m = some i) :
      (m = .journal ∧ i = k) ∨ (m ≠ .journalNew ∧ d.dir.visible m = some i) := by
    rw [names] at seen
    rcases move_eq_some seen with ⟨rfl, rfl⟩ | ⟨_, source, seen⟩
    · exact Or.inl ⟨rfl, rfl⟩
    · exact Or.inr ⟨source, seen⟩
  refine ⟨⟨fun a b i ha hb => ?_, fun m i seen => ?_⟩, names, rfl, ?_, fun l _ => d.content_touch k l⟩
  · rcases origin a i ha with ⟨rfl, rfl⟩ | ⟨na, ha⟩ <;> rcases origin b i hb with ⟨rfl, eq⟩ | ⟨nb, hb⟩
    · exact Or.inl rfl
    · exact absurd (h.apart.alone new rfl b hb) nb
    · exact absurd (h.apart.alone new rfl a (eq ▸ ha)) na
    · exact h.distinct a b i ha hb
  · rcases origin m i seen with ⟨rfl, rfl⟩ | ⟨_, seen⟩
    · have sound := (h.touch i).sound .journalNew i new
      exact { sound with }
    · exact (h.touch k).sound m i seen
  · change d.dir.next ≤ (d.dir.rename .journalNew .journal).next
    rw [Dir.rename_of_visible _ new other]
    exact Nat.le_refl _

end

section
variable {x : Session} (reliable : x.oracle.Reliable) {s : Scene} {n : Name} {i k : Nat}
include reliable

theorem gives_syncDirectory : Gives (syncDirectory x) s fun _ t =>
    t = { s with disk := { s.disk with dir := s.disk.dir.sync } } :=
  gives_primitive reliable (finds_then (finds_emit _) (gives_setDisk _))

theorem gives_remove (sane : Sane s.disk) (kind : n ∈ [Name.stage, .rollback, .journal, .journalNew]) :
    Gives (remove x n) s fun _ t => ∃ d, t = { s with disk := d } ∧
      Leaves s.disk d (Function.update s.disk.dir.visible n none) := by
  refine finds_then (finds_demand _ kind) (finds_then (finds_exists reliable n) ?_)
  cases seen : s.disk.dir.visible n with
  | none =>
    refine (finds_pure ()).mono fun _ t ht => ⟨s.disk, ht.2, ?_⟩
    have same : Function.update s.disk.dir.visible n none = s.disk.dir.visible := by
      rw [← seen]
      exact Function.update_eq_self _ _
    rw [same]
    exact .refl sane
  | some i =>
    refine finds_then (finds_status reliable sane seen) (gives_primitive reliable ?_)
    refine finds_then (finds_read fun s => s.disk) ?_
    simp only [seen]
    refine finds_then (finds_emit _) ((gives_setDisk _).mono ?_)
    rintro _ _ rfl
    exact ⟨_, rfl, sane.unlink n i⟩

theorem gives_create (sane : Sane s.disk) (free : s.disk.dir.visible n = none) (root : n.owner = 0) :
    Gives (create x n) s fun k t => k = s.disk.dir.next ∧ ∃ d, t = { s with disk := d } ∧
      Leaves s.disk d (Function.update s.disk.dir.visible n (some k)) ∧ k < d.dir.next := by
  have stage : n ≠ .stage := by
    rintro rfl
    cases root
  refine finds_then (finds_checkName reliable) ?_
  refine gives_bind (S := fun k t => k = s.disk.dir.next ∧ t = { s with disk := s.disk.create n })
    (gives_primitive reliable ?_) ?_
  · refine finds_then (finds_read fun s => s.disk) ?_
    simp only [free]
    refine finds_then (finds_emit _) (gives_bind (gives_setDisk _) ?_)
    rintro _ _ rfl
    exact finds_pure _
  rintro _ _ ⟨rfl, rfl⟩
  have born := sane.create (n := n) root
  -- both changes of the new file leave it as it was made
  have owned : Leaves s.disk ((s.disk.create n).modify s.disk.dir.next fun file =>
      { file with uid := if n = .stage then abc else 0, gid := if n = .stage then abc else 0 })
      (Function.update s.disk.dir.visible n (some s.disk.dir.next)) := by
    refine ⟨born.sane.modify fun m seen => ?_, born.names, born.dev, born.next, fun i hi => ?_⟩
    · have sound := born.sane.sound m _ seen
      have new : ((s.disk.create n).files s.disk.dir.next).uid = 0 ∧
          ((s.disk.create n).files s.disk.dir.next).gid = 0 := by simp [Disk.create]
      refine { sound with owner := ?_ }
      simp only [if_neg stage]
      rw [← sound.owner.1, new.1]
      exact ⟨rfl, rfl⟩
    · rw [← born.content i hi]
      simp [Disk.modify, Nat.ne_of_lt hi]
  have moded : Leaves s.disk (((s.disk.create n).modify s.disk.dir.next fun file =>
      { file with uid := if n = .stage then abc else 0, gid := if n = .stage then abc else 0 }).modify
      s.disk.dir.next fun file => { file with mode := 0o600 })
      (Function.update s.disk.dir.visible n (some s.disk.dir.next)) := by
    refine ⟨owned.sane.modify fun m seen => ?_, owned.names, owned.dev, owned.next, fun i hi => ?_⟩
    · exact { owned.sane.sound m _ seen with mode := rfl }
    · rw [← owned.content i hi]
      simp [Disk.modify, Nat.ne_of_lt hi]
  refine gives_bind (gives_primitive reliable (gives_setDisk _)) ?_
  rintro _ _ rfl
  refine gives_bind (gives_primitive reliable (gives_setDisk _)) ?_
  rintro _ _ rfl
  have seen : (((s.disk.create n).modify s.disk.dir.next fun file =>
      { file with uid := if n = .stage then abc else 0, gid := if n = .stage then abc else 0 }).modify
      s.disk.dir.next fun file => { file with mode := 0o600 }).dir.visible n =
      some s.disk.dir.next := by
    rw [moded.names]
    simp
  refine finds_then (finds_checkOpened reliable (s := { s with disk := _ }) moded.sane seen) ?_
  refine (finds_pure _).mono ?_
  rintro _ _ ⟨rfl, rfl⟩
  exact ⟨rfl, _, rfl, moded, Nat.lt_succ_self _⟩

omit reliable in
theorem gives_fill (sane : Sane s.disk) (content : Content) {size : Nat} (fits : size ≤ maxStore) :
    Gives (fill i content size) s fun _ t => ∃ d, t = { s with disk := d } ∧ d.dir = s.disk.dir ∧ d.dev = s.disk.dev ∧
      Sane d ∧ (d.files i).content = content ∧
      ∀ l, l ≠ i → (d.files l).content = (s.disk.files l).content := by
  refine (gives_setDisk _).mono ?_
  rintro _ _ rfl
  refine ⟨_, rfl, rfl, rfl, sane.modify fun m seen => ?_, ?_, fun l other => ?_⟩
  · exact { sane.sound m i seen with size := fits }
  · simp [Disk.modify]
  · simp [Disk.modify, other]

theorem gives_write (sane : Sane s.disk) (content : Content) {size : Nat} (fits : size ≤ maxStore) :
    Gives (write x i content size) s fun _ t => ∃ d, t = { s with disk := d } ∧ d.dir = s.disk.dir ∧ d.dev = s.disk.dev ∧
      Sane d ∧ (d.files i).content = content ∧
      ∀ l, l ≠ i → (d.files l).content = (s.disk.files l).content := by
  refine gives_bind (S := fun _ t => ∃ d, t = { s with disk := d } ∧ d.dir = s.disk.dir ∧ d.dev = s.disk.dev ∧ Sane d ∧
    ∀ l, l ≠ i → (d.files l).content = (s.disk.files l).content) (gives_primitive reliable ?_) ?_
  · intro w hw
    rw [Prog.Returns, Prog.holds_bind, Prog.holds_read]
    refine (gives_fill (i := i) sane (.other (x.oracle.partly w.tick))
      (Nat.le_trans (Nat.min_le_right (x.oracle.partly w.tick).length size) fits) w hw).mono ?_
      (fun _ _ no => no) fun _ no => no
    rintro _ t ⟨d, ht, dir, dev, sane, _, rest⟩
    exact ⟨d, ht, dir, dev, sane, rest⟩
  · rintro _ _ ⟨d, rfl, dir, dev, sane, rest⟩
    refine (gives_primitive reliable (gives_fill (s := { s with disk := d }) sane content
      fits)).mono ?_
    rintro _ _ ⟨d', rfl, dir', dev', sane', filled, rest'⟩
    exact ⟨d', rfl, dir'.trans dir, dev'.trans dev, sane', filled, fun l other => (rest' l other).trans (rest l other)⟩

theorem gives_fsyncFile (sane : Sane s.disk) : Gives (fsyncFile x n i) s fun _ t =>
    ∃ d, t = { s with disk := d } ∧ d.dir = s.disk.dir ∧ d.dev = s.disk.dev ∧ Sane d ∧
      ∀ l, (d.files l).content = (s.disk.files l).content ∧ (d.statOf l) = s.disk.statOf l := by
  refine gives_primitive reliable (finds_then (finds_emit _) ((gives_setDisk _).mono ?_))
  rintro _ _ rfl
  refine ⟨_, rfl, rfl, rfl, sane.modify fun m seen => { sane.sound m i seen with }, fun l => ?_⟩
  by_cases same : l = i
  · subst same
    simp [Disk.modify, Disk.statOf, Disk.links]
    rfl
  · simp [Disk.modify, Disk.statOf, Disk.links, same]
    rfl

theorem gives_publish (sane : Sane s.disk) (new : s.disk.dir.visible .journalNew = some k) :
    Gives (replace x .journalNew .journal) s fun _ t => ∃ d, t = { s with disk := d } ∧
      Leaves s.disk d
        (Function.update (Function.update s.disk.dir.visible .journalNew none) .journal (some k)) := by
  refine finds_then (finds_demand _ (by decide)) (finds_then (finds_status reliable sane new) ?_)
  refine gives_primitive reliable (finds_then (finds_read fun s => s.disk) ?_)
  simp only [new]
  refine finds_then (finds_emit _) ((gives_setDisk _).mono ?_)
  rintro _ _ rfl
  exact ⟨_, rfl, sane.publish new⟩

/-- A new file holds the value and has the journal's name. -/
theorem gives_writeJournal (sane : Sane s.disk) (v : Journal) :
    Gives (writeJournal x v) s fun _ t => ∃ d k, t = { s with disk := d } ∧
      Leaves s.disk d
        (Function.update (Function.update s.disk.dir.visible .journalNew none) .journal (some k)) ∧
      (d.files k).content = .journal v ∧ s.disk.dir.next ≤ k := by
  refine finds_then (finds_emit _) ?_
  refine gives_bind (S := fun size t => size ≤ maxJournal ∧ s = t) (gives_primitive reliable ?_) ?_
  · exact fun w hw => ⟨Nat.le_of_lt_succ (x.oracle.encodedSize w.tick).isLt, hw.symm⟩
  rintro size _ ⟨fits, rfl⟩
  refine gives_bind (gives_remove reliable sane (by decide)) ?_
  rintro _ _ ⟨d, rfl, removed⟩
  have free : d.dir.visible .journalNew = none := by simp [removed.names]
  refine gives_bind (gives_create reliable (s := { s with disk := d }) removed.sane free rfl) ?_
  rintro _ _ ⟨rfl, d', rfl, created, below⟩
  refine gives_bind (gives_write reliable (s := { s with disk := d' }) created.sane (.journal v)
    (Nat.le_trans fits (by decide))) ?_
  rintro _ _ ⟨e, rfl, dir, dev, sane', filled, rest⟩
  refine gives_bind (gives_fsyncFile reliable (s := { s with disk := e }) sane') ?_
  rintro _ _ ⟨e', rfl, dir', dev', sane'', same⟩
  have new : e'.dir.visible .journalNew = some d.dir.next := by
    rw [dir', dir, created.names]
    simp
  refine gives_bind (gives_publish reliable (s := { s with disk := e' }) sane'' new) ?_
  rintro _ _ ⟨f, rfl, published⟩
  refine (gives_syncDirectory reliable).mono ?_
  rintro _ _ rfl
  have synced := published.sane.syncDirectory
  have older : e'.dir.next = d'.dir.next := by rw [dir', dir]
  refine ⟨_, d.dir.next, rfl, ⟨synced.sane, ?_, ?_, ?_, fun i hi => ?_⟩, ?_, removed.next⟩
  · rw [synced.names, published.names, dir', dir, created.names, removed.names]
    funext m
    by_cases hj : m = .journal
    · simp [hj]
    · by_cases hn : m = .journalNew <;> simp [hj, hn]
  · calc f.dev = e'.dev := published.dev
      _ = e.dev := dev'
      _ = d'.dev := dev
      _ = d.dev := created.dev
      _ = s.disk.dev := removed.dev
  · exact Nat.le_trans removed.next (Nat.le_trans created.next (older ▸ published.next))
  · have hd : i < d.dir.next := Nat.lt_of_lt_of_le hi removed.next
    have hd' : i < d'.dir.next := Nat.lt_of_lt_of_le hd created.next
    calc (f.files i).content = (e'.files i).content := published.content i (older ▸ hd')
      _ = (e.files i).content := (same i).1
      _ = (d'.files i).content := rest i (Nat.ne_of_lt hd)
      _ = (d.files i).content := created.content i hd
      _ = _ := removed.content i hi
  · change (f.files d.dir.next).content = _
    rw [published.content _ (older ▸ below), (same _).1, filled]

theorem gives_phase (sane : Sane s.disk) {j : Journal} {p : Phase} {f : Journal → Journal}
    (memory : s.process.journal = some j) (valid : { f j with phase := p }.validate = .ok ()) :
    Gives (phase x p f) s fun _ t => ∃ d k,
      t = { s with disk := d, process := { s.process with journal := some { f j with phase := p } } } ∧
      Leaves s.disk d
        (Function.update (Function.update s.disk.dir.visible .journalNew none) .journal (some k)) ∧
      (d.files k).content = .journal { f j with phase := p } ∧ s.disk.dir.next ≤ k := by
  refine finds_then (finds_getJournal memory) (gives_bind (gives_setProcess _) ?_)
  rintro _ _ rfl
  exact finds_then (finds_lift valid) (gives_writeJournal reliable (s := { s with
    process := { s.process with journal := some { f j with phase := p } } }) sane _)

/-! ## The service -/

theorem gives_stop (idle : s.service.keytool = false) :
    Gives (stop x) s fun _ t => t = { s with service := ⟨false, false, false⟩ } := by
  refine finds_then (finds_noKeytool reliable idle) ?_
  refine gives_bind (S := fun _ t => t = { s with service := ⟨false, false, false⟩ })
    (gives_primitive reliable (finds_then (finds_emit _) ?_)) ?_
  · intro w hw
    rw [Prog.Returns, Prog.holds_bind, Prog.holds_read]
    refine (gives_setService (s := s) _ w hw).mono ?_ (fun _ _ no => no) fun _ no => no
    intro _ t ht
    have linger := (reliable w.tick).2
    simpa [idle, linger] using ht
  · rintro _ _ rfl
    refine (finds_stopped reliable (s := { s with service := ⟨false, false, false⟩ }) rfl).mono ?_
    exact fun _ _ h => h.2

theorem gives_start (idle : s.service.keytool = false) :
    Gives (start x) s fun _ t => t = { s with service := ⟨true, true, false⟩ } := by
  refine finds_then (finds_noKeytool reliable idle) ?_
  refine gives_bind (S := fun _ t => t = { s with service := ⟨true, true, false⟩ })
    (gives_primitive reliable (finds_then (finds_emit _) ?_)) ?_
  · refine (gives_setService _).mono ?_
    rintro _ _ rfl
    rw [idle]
  · rintro _ _ rfl
    refine finds_then (finds_running reliable) (finds_then (finds_demand _ rfl) ?_)
    refine finds_then (finds_processes reliable) ?_
    exact (finds_demand _ rfl).mono fun _ _ h => h.2

/-- What the service is after it was resumed, or left stopped. -/
def resumed (resume startup : Bool) : Service :=
  if resume && !startup then ⟨true, true, false⟩ else ⟨false, false, false⟩

theorem gives_resumeService (sane : Sane s.disk) {j : Journal} {id : PublicId}
    (locked : s.process.locked = true) (memory : s.process.journal = some j)
    (down : s.service = ⟨false, false, false⟩) (expect : s.process.expectStopped = true)
    (seen : s.disk.dir.visible .canonical = some i)
    (reads : x.host.Reads (s.disk.files i).content id) (startup : Bool) :
    Gives (resumeService x startup) s fun _ t =>
      t = { s with
        service := resumed j.resume startup
        process := { s.process with expectStopped := !(resumed j.resume startup).up } } := by
  obtain ⟨state, read, named⟩ := reads
  refine finds_then (finds_stopped reliable down) (finds_then (finds_status reliable sane seen) ?_)
  refine finds_then (finds_collect reliable sane locked rfl seen read) ?_
  refine finds_then (finds_lift named) (finds_then (finds_getJournal memory) ?_)
  -- the last readings find what the first found
  have again (p : Process) (v : Service) (locked : p.locked = true) :
      Gives (do
        same x .canonical (s.disk.statOf i)
        let again ← lift (publicId x.host.lib (← collect x .canonical))
        demand (again = id) "canonical changed while restoring service")
        { s with process := p, service := v } fun _ t => t = { s with process := p, service := v } := by
    refine finds_then (finds_same reliable (s := { s with process := p, service := v }) sane seen) ?_
    refine finds_then (finds_collect reliable (s := { s with process := p, service := v }) sane locked
      rfl seen read) ?_
    exact finds_then (finds_lift named) ((finds_demand _ rfl).mono fun _ _ h => h.2)
  by_cases go : (j.resume && !startup) = true
  · rw [if_pos go]
    refine gives_bind (gives_start reliable (by rw [down])) ?_
    rintro _ _ rfl
    refine gives_bind (gives_setProcess _) ?_
    rintro _ _ rfl
    simpa [resumed, go] using again { s.process with expectStopped := false } ⟨true, true, false⟩ locked
  · rw [if_neg go]
    have service : resumed j.resume startup = s.service := by
      rw [down, resumed, if_neg go]
    have process : { s.process with expectStopped := !(resumed j.resume startup).up } = s.process := by
      rw [service, down]
      change { s.process with expectStopped := true } = s.process
      rw [← expect]
    rw [process, service]
    exact again s.process s.service locked

/-! ## The locked context -/

theorem gives_acquire (sane : Sane s.disk) (free : s.held = false) (idle : s.service.keytool = false) :
    Gives (acquire x) s fun _ t => ∃ d i,
      t = { s with disk := d, process := { s.process with locked := true, expectStopped := false } } ∧
      Leaves s.disk d (Function.update s.disk.dir.visible .lock (some i)) := by
  have nothing : Finds (primitive x (pure ())) s () := gives_primitive reliable (finds_pure ())
  have rest (d : Disk) (sane : Sane d) (i : Nat) (seen : d.dir.visible .lock = some i) : Gives (do
      let i ← primitive x do
        let d ← Prog.read World.disk
        match d.dir.visible .lock with
        | none => Prog.raise .os
        | some i => pure i
      let expected ← status x .lock
      demand (i = expected.ino) "executor lock replaced"
      primitive x do
        let w ← Prog.read id
        Prog.guard (!w.held) .os
        emit .acquired
        setProcess fun p => { p with locked := true, expectStopped := false }
      noKeytool x) { s with disk := d } fun _ t => t = { s with
        disk := d, process := { s.process with locked := true, expectStopped := false } } := by
    refine finds_then (finds_number reliable (s := { s with disk := d }) seen) ?_
    refine finds_then (finds_status reliable (s := { s with disk := d }) sane seen) ?_
    refine finds_then (finds_demand _ rfl) ?_
    refine gives_bind (S := fun _ t => t = { s with
        disk := d, process := { s.process with locked := true, expectStopped := false } })
      (gives_primitive reliable fun w hw => ?_) ?_
    · have free : w.held = false := by rw [← free]; exact congrArg Scene.held hw
      rw [Prog.Returns, Prog.holds_bind, Prog.holds_read, Prog.holds_bind, Prog.holds_guard]
      refine ⟨fun _ => ?_, fun no => no (by simp [free])⟩
      have entered : Gives (do
          emit .acquired
          setProcess fun p => { p with locked := true, expectStopped := false })
          { s with disk := d } fun _ t => t = { s with
            disk := d, process := { s.process with locked := true, expectStopped := false } } :=
        finds_then (finds_emit _) (gives_setProcess _)
      exact entered w hw
    · rintro _ _ rfl
      exact (finds_noKeytool reliable (s := { s with
        disk := d, process := { s.process with locked := true, expectStopped := false } }) idle).mono
        fun _ _ h => h.2
  refine finds_then nothing (finds_then nothing (finds_then (finds_exists reliable .lock) ?_))
  cases seen : s.disk.dir.visible .lock with
  | some i =>
    refine (rest s.disk sane i seen).mono ?_
    rintro _ _ rfl
    refine ⟨s.disk, i, rfl, ?_⟩
    have same : Function.update s.disk.dir.visible .lock (some i) = s.disk.dir.visible := by
      rw [← seen]
      exact Function.update_eq_self _ _
    rw [same]
    exact .refl sane
  | none =>
    refine gives_bind (gives_create reliable sane seen rfl) ?_
    rintro i _ ⟨_, d, rfl, created, _⟩
    refine gives_bind (gives_syncDirectory reliable) ?_
    rintro _ _ rfl
    have synced := created.sane.syncDirectory
    have there : d.dir.sync.visible .lock = some i := by
      rw [Dir.visible_sync, created.names]
      simp
    refine (rest _ synced.sane i there).mono ?_
    rintro _ _ rfl
    refine ⟨_, i, rfl, ?_⟩
    rw [← created.names]
    exact created.trans synced

theorem gives_release (locked : s.process.locked = true) (idle : s.service.keytool = false)
    (stopped_ : s.process.expectStopped = true → s.service = ⟨false, false, false⟩) :
    Gives (release x) s fun _ t => t = { s with process := { stage := s.process.stage } } := by
  refine finds_then (finds_read fun s => s.process) ?_
  rw [if_pos locked]
  have look : Finds (Prog.handle (do noKeytool x; if s.process.expectStopped then stopped x)
      (fun _ => do
        Prog.update fun w => { w with held := true }
        refuse "writer survives; executor lock retained")) s () := by
    refine gives_handle (finds_then (finds_noKeytool reliable idle) ?_)
    by_cases expect : s.process.expectStopped = true
    · rw [if_pos expect]
      exact finds_stopped reliable (stopped_ expect)
    · rw [if_neg expect]
      exact finds_pure ()
  exact finds_then look (finds_then (finds_emit _) (gives_setProcess _))

end

end CertRenewer
