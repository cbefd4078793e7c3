import Mathlib

/-!
# A directory whose entries outlive a power loss only once synced

The directory is its durable entries and the changes made to them since the
last sync, oldest first. A process sees all the changes (`visible`). A power
loss keeps some of them, in their order, and drops the rest: the namespaces it
can leave are the *images* of the directory.
-/

namespace Crash

variable {N : Type} [DecidableEq N]

abbrev Names (N : Type) := N → Option Nat

/-- One atomic change of entries. `move` also says which file it moved. -/
inductive Change (N : Type) where
  | bind (name : N) (file : Nat)
  | unbind (name : N)
  | move (source target : N) (file : Nat)
  deriving DecidableEq, Repr

def Change.apply : Change N → Names N → Names N
  | .bind n i, ns => Function.update ns n (some i)
  | .unbind n, ns => Function.update ns n none
  | .move s t i, ns => Function.update (Function.update ns s none) t (some i)

def replay (changes : List (Change N)) (ns : Names N) : Names N :=
  changes.foldl (fun ns c => c.apply ns) ns

/-! What an entry after a change was before it. -/

theorem update_eq_some {ns : Names N} {n m : N} {i j : Nat}
    (h : Function.update ns n (some i) m = some j) : (m = n ∧ i = j) ∨ (m ≠ n ∧ ns m = some j) := by
  by_cases e : m = n
  · subst e
    exact Or.inl ⟨rfl, by simpa using h⟩
  · exact Or.inr ⟨e, by simpa [e] using h⟩

theorem update_none_eq_some {ns : Names N} {n m : N} {j : Nat}
    (h : Function.update ns n none m = some j) : m ≠ n ∧ ns m = some j := by
  by_cases e : m = n
  · subst e
    simp at h
  · exact ⟨e, by simpa [e] using h⟩

theorem move_eq_some {ns : Names N} {s t m : N} {i j : Nat}
    (h : (Change.move s t i).apply ns m = some j) :
    (m = t ∧ i = j) ∨ (m ≠ t ∧ m ≠ s ∧ ns m = some j) := by
  rcases update_eq_some h with target | ⟨ht, h⟩
  · exact Or.inl target
  · exact Or.inr ⟨ht, update_none_eq_some h⟩

/-- What a power loss can leave of the durable entries `ns`: any of the
pending changes may be missing. -/
def IsImage (ns : Names N) (pending : List (Change N)) (image : Names N) : Prop :=
  ∃ kept, kept.Sublist pending ∧ replay kept ns = image

theorem isImage_all (ns : Names N) (pending : List (Change N)) :
    IsImage ns pending (replay pending ns) := ⟨pending, .refl _, rfl⟩

@[simp] theorem isImage_nil (ns image : Names N) : IsImage ns [] image ↔ image = ns := by
  constructor
  · rintro ⟨kept, sub, rfl⟩
    rw [List.eq_nil_of_sublist_nil sub]
    rfl
  · rintro rfl
    exact ⟨[], .slnil, rfl⟩

/-- One more change can be kept or dropped on top of every earlier image. -/
theorem isImage_append (ns image : Names N) (pending : List (Change N)) (c : Change N) :
    IsImage ns (pending ++ [c]) image ↔
      IsImage ns pending image ∨ ∃ earlier, IsImage ns pending earlier ∧ c.apply earlier = image := by
  constructor
  · rintro ⟨kept, sub, rfl⟩
    obtain ⟨before, last, rfl, hb, hl⟩ := List.sublist_append_iff.mp sub
    rcases List.sublist_singleton.mp hl with rfl | rfl
    · exact Or.inl ⟨before, hb, by simp⟩
    · exact Or.inr ⟨_, ⟨before, hb, rfl⟩, by simp [replay]⟩
  · rintro (⟨kept, sub, rfl⟩ | ⟨_, ⟨kept, sub, rfl⟩, rfl⟩)
    · exact ⟨kept, sub.trans (List.sublist_append_left _ _), rfl⟩
    · exact ⟨kept ++ [c], sub.append_right [c], by simp [replay]⟩

/-- File numbers are given out in order, so no entry of any image carries the
number of the next file. -/
structure Dir (N : Type) [DecidableEq N] where
  durable : Names N
  pending : List (Change N)
  next : Nat
  fresh : ∀ image, IsImage durable pending image → ∀ n i, image n = some i → i < next

namespace Dir

variable (d : Dir N)

def visible : Names N := replay d.pending d.durable

def Image (image : Names N) : Prop := IsImage d.durable d.pending image

theorem image_visible : d.Image d.visible := isImage_all _ _

theorem visible_lt {n : N} {i : Nat} (h : d.visible n = some i) : i < d.next :=
  d.fresh _ d.image_visible n i h

/-- One more pending change, naming only files that exist. -/
def push (c : Change N) (files : ∀ ns n i, (∀ m j, ns m = some j → j < d.next) →
    c.apply ns n = some i → i < d.next) : Dir N where
  durable := d.durable
  pending := d.pending ++ [c]
  next := d.next
  fresh := by
    intro image h n i hi
    rcases (isImage_append _ _ _ _).mp h with old | ⟨earlier, old, rfl⟩
    · exact d.fresh _ old n i hi
    · exact files earlier n i (d.fresh _ old) hi

theorem bind_below {k : Nat} {n : N} {i : Nat} (hi : i < k) (ns : Names N) (m : N) (j : Nat)
    (old : ∀ m j, ns m = some j → j < k) (h : (Change.bind n i).apply ns m = some j) : j < k := by
  rcases update_eq_some h with ⟨_, rfl⟩ | ⟨_, h⟩
  · exact hi
  · exact old m j h

theorem unbind_below {k : Nat} {n : N} (ns : Names N) (m : N) (j : Nat)
    (old : ∀ m j, ns m = some j → j < k) (h : (Change.unbind n).apply ns m = some j) : j < k :=
  old m j (update_none_eq_some h).2

theorem move_below {k : Nat} {s t : N} {i : Nat} (hi : i < k) (ns : Names N) (m : N) (j : Nat)
    (old : ∀ m j, ns m = some j → j < k) (h : (Change.move s t i).apply ns m = some j) : j < k := by
  rcases move_eq_some h with ⟨_, rfl⟩ | ⟨_, _, h⟩
  · exact hi
  · exact old m j h

/-- A new file under a name that was free. -/
def create (n : N) : Dir N where
  durable := d.durable
  pending := d.pending ++ [.bind n d.next]
  next := d.next + 1
  fresh := by
    intro image h m i hi
    rcases (isImage_append _ _ _ _).mp h with old | ⟨earlier, old, rfl⟩
    · exact Nat.lt_succ_of_lt (d.fresh _ old m i hi)
    · exact bind_below (Nat.lt_succ_self _) earlier m i
        (fun m j hj => Nat.lt_succ_of_lt (d.fresh _ old m j hj)) hi

/-- A second name for the file named `source`. -/
def link (source n : N) : Dir N :=
  match h : d.visible source with
  | some i => d.push (.bind n i) (bind_below (d.visible_lt h))
  | none => d

def unlink (n : N) : Dir N := d.push (.unbind n) unbind_below

/-- Renaming one name of a file over another name of the same file does
nothing and leaves both. -/
def rename (source target : N) : Dir N :=
  match h : d.visible source with
  | some i =>
    if d.visible target = some i then d else d.push (.move source target i) (move_below (d.visible_lt h))
  | none => d

def sync : Dir N where
  durable := d.visible
  pending := []
  next := d.next
  fresh := by
    intro image h n i hi
    rw [(isImage_nil _ _).mp h] at hi
    exact d.visible_lt hi

/-- The entries a mask keeps. A mask shorter than the list drops the rest. -/
def pick {α : Type} : List Bool → List α → List α
  | true :: mask, x :: xs => x :: pick mask xs
  | false :: mask, _ :: xs => pick mask xs
  | _, _ => []

theorem pick_sublist {α : Type} (mask : List Bool) (xs : List α) : (pick mask xs).Sublist xs := by
  fun_induction pick mask xs with
  | case1 mask x xs ih => exact ih.cons_cons x
  | case2 mask x xs ih => exact ih.cons x
  | case3 => exact List.nil_sublist _

/-- A power loss keeps the changes the mask selects. -/
def lose (mask : List Bool) : Dir N where
  durable := replay (pick mask d.pending) d.durable
  pending := []
  next := d.next
  fresh := by
    intro image h n i hi
    rw [(isImage_nil _ _).mp h] at hi
    exact d.fresh _ ⟨_, pick_sublist _ _, rfl⟩ n i hi

/-! ## The images after each change -/

@[simp] theorem visible_push (c : Change N) (h) : (d.push c h).visible = c.apply d.visible := by
  simp [visible, push, replay]

theorem image_push (c : Change N) (h) (image : Names N) : (d.push c h).Image image ↔
    d.Image image ∨ ∃ earlier, d.Image earlier ∧ c.apply earlier = image :=
  isImage_append _ _ _ _

@[simp] theorem visible_create (n : N) :
    (d.create n).visible = Function.update d.visible n (some d.next) := by
  simp [visible, create, replay, Change.apply]

theorem image_create (n : N) (image : Names N) : (d.create n).Image image ↔
    d.Image image ∨ ∃ earlier, d.Image earlier ∧ Function.update earlier n (some d.next) = image :=
  isImage_append _ _ _ _

@[simp] theorem visible_unlink (n : N) : (d.unlink n).visible = Function.update d.visible n none :=
  visible_push _ _ _

theorem image_unlink (n : N) (image : Names N) : (d.unlink n).Image image ↔
    d.Image image ∨ ∃ earlier, d.Image earlier ∧ Function.update earlier n none = image :=
  isImage_append _ _ _ _

theorem link_of_visible {source n : N} {i : Nat} (h : d.visible source = some i) :
    d.link source n = d.push (.bind n i) (bind_below (d.visible_lt h)) := by
  unfold link
  split
  · rename_i j hj
    obtain rfl : j = i := Option.some.inj (hj.symm.trans h)
    rfl
  · rename_i hn
    rw [h] at hn
    cases hn

theorem rename_of_visible {source target : N} {i : Nat} (h : d.visible source = some i)
    (distinct : d.visible target ≠ some i) :
    d.rename source target = d.push (.move source target i) (move_below (d.visible_lt h)) := by
  unfold rename
  split
  · rename_i j hj
    obtain rfl : j = i := Option.some.inj (hj.symm.trans h)
    rw [if_neg distinct]
  · rename_i hn
    rw [h] at hn
    cases hn

theorem rename_same {source target : N} (h : d.visible source = d.visible target) :
    d.rename source target = d := by
  unfold rename
  split
  · rename_i i hi
    rw [if_pos (h.symm.trans hi)]
  · rfl

@[simp] theorem visible_sync : d.sync.visible = d.visible := rfl

@[simp] theorem image_sync (image : Names N) : d.sync.Image image ↔ image = d.visible :=
  isImage_nil _ _

theorem image_of_pending_nil (h : d.pending = []) (image : Names N) :
    d.Image image ↔ image = d.visible := by
  have hv : d.visible = d.durable := by simp [visible, h, replay]
  rw [hv, Image, h, isImage_nil]

@[simp] theorem image_lose (mask : List Bool) (image : Names N) :
    (d.lose mask).Image image ↔ image = (d.lose mask).visible :=
  isImage_nil _ _

theorem lose_image (mask : List Bool) : d.Image (d.lose mask).visible :=
  ⟨_, pick_sublist _ _, rfl⟩

end Dir

end Crash
