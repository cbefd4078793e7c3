import CertRenewer.Rules
import CertRenewer.System
import CertRenewer.JournalText

/-!
# Copies and writes in chunks

`copy_stage` and `write_journal` of `unifi_executor_files.py` with their loops:
`copy_file_range` and `os.write` transfer as many bytes as the kernel likes, and
it can fail at every chunk. The file that is filled always holds the beginning of
what it is meant to hold.
-/

namespace CertRenewer.Transfers

open Crash

/-- The bytes of a file, given the text of a journal. -/
def contentBytes (text : Journal → Bytes) : Content → Bytes
  | .store bytes => bytes
  | .journal j => text j
  | .other bytes => bytes

/-- A write at an offset. -/
def overwrite (old : Bytes) (offset : Nat) (chunk : Bytes) : Bytes :=
  old.take offset ++ chunk ++ old.drop (offset + chunk.length)

section
variable (x : Session) (text : Journal → Bytes) (counts : Nat → Int)

def putFile (offset : Nat) (chunk : Bytes) (file : Inode) : Inode :=
  let bytes := overwrite (contentBytes text file.content) offset chunk
  { file with content := .other bytes, size := bytes.length, stamp := file.stamp + 1 }

/-- A system call that transfers some of the data, or none: the kernel's count,
which is at most what there is. -/
def transfer (fd offset : Nat) (data : World → Bytes) : Exec Int := primitive x do
  let w ← Prog.read id
  let count := min (counts w.tick) (data w).length
  if 0 < count then setDisk fun d => d.modify fd (putFile text offset ((data w).take count.toNat))
  pure count

/-- `os.copy_file_range`; both files are at the same offset. -/
def copyFileRange (source dest offset request : Nat) : Exec Int :=
  transfer x text counts dest offset fun w =>
    ((contentBytes text (w.disk.files source).content).drop offset).take request

/-- `os.write`. -/
def osWrite (fd offset : Nat) (view : Bytes) : Exec Int := transfer x text counts fd offset fun _ => view

/-- `os.close` at the end of a `with`. -/
def closing {α : Type} (m : Exec α) : Exec α := Prog.ensure m (primitive x (pure ()))

/-- The loop of `copy_stage`, for at most `rounds` rounds: whether it ended. -/
def copyLoop (source dest : Nat) : Nat → Nat → Int → Exec Bool
  | 0, _, _ => pure false
  | rounds + 1, offset, remaining =>
    if remaining = 0 then pure true
    else do
      let copied ← copyFileRange x text counts source dest offset (min remaining (1024 * 1024)).toNat
      if copied ≤ 0 then refuse "incomplete staged copy"
      else copyLoop source dest rounds (offset + copied.toNat) (remaining - copied)

/-- `copy_stage`. -/
def copyStage (rounds : Nat) : Exec Bool := do
  let source ← opened x .canonical
  closing x do
    let dest ← create x .stage
    closing x do
      let before ← status x .canonical
      demand (before.nlink = 1) "unexpected canonical hard link"
      if ← copyLoop x text counts source dest rounds 0 before.size then do
        same x .canonical before
        let after ← primitive x (Prog.read fun w => w.disk.statOf dest)
        demand (after.ino ≠ before.ino) "stage must be an independent inode"
        pure true
      else pure false

/-- The loop of `write_journal`. -/
def writeLoop (fd offset : Nat) (view : Bytes) : Exec Unit :=
  if _some : view = [] then pure ()
  else do
    let written ← osWrite x text counts fd offset view
    if _stuck : written ≤ 0 then refuse "journal write failed"
    else writeLoop fd (offset + written.toNat) (view.drop written.toNat)
  termination_by view.length
  decreasing_by
    have := List.length_pos_iff.mpr _some
    rw [List.length_drop]
    omega

/-- `write_journal`. -/
def writeJournal (value : Document) : Exec Unit := do
  let data ← lift (JournalText.writeJournal value)
  remove x .journalNew
  let fd ← create x .journalNew
  closing x do
    writeLoop x text counts fd 0 data
    fsyncFile x .journalNew fd
  replace x .journalNew .journal
  syncDirectory x

end

/-! ## One chunk -/

/-- The beginning of the data and the next chunk of it are a longer beginning. -/
theorem overwrite_take (whole : Bytes) (offset count : Nat) :
    overwrite (whole.take offset) offset ((whole.drop offset).take count) = whole.take (offset + count) := by
  unfold overwrite
  have beyond : (whole.take offset).drop (offset + ((whole.drop offset).take count).length) = [] := by
    rw [List.drop_eq_nil_iff, List.length_take]
    omega
  rw [beyond, List.append_nil, List.take_take, Nat.min_self, List.take_add]

/-- A file that holds exactly these bytes so far. -/
def Filled (fd : Nat) (bytes : Bytes) (w : World) : Prop := (w.disk.files fd).content = .other bytes

section
variable {x : Session} {text : Journal → Bytes} {counts : Nat → Int} {J I : World → Prop} {w : World}

/-- What the loops rely on besides the file they fill. -/
structure Frame (fd : Nat) (J I : World → Prop) : Prop where
  stable : ∀ s t, Quiet s t → J s → J t
  amend : ∀ t f, J t → J (t.amend fd f)
  stop : ∀ t, J t → I t

/-- One call keeps to the beginning of the data, and moves on by what it says. -/
theorem transfer_fills {fd offset request : Nat} {whole : Bytes} {data : World → Bytes} (frame : Frame fd J I)
    (intended : ∀ t, J t → data t = (whole.drop offset).take request)
    (now : J w) (filled : Filled fd (whole.take offset) w) :
    Prog.Holds (transfer x text counts fd offset data)
      (fun count t => J t ∧ Filled fd (whole.take (offset + count.toNat)) t ∧ count ≤ request)
      (fun _ => I) I w := by
  refine holds_primitive x (K := fun t => J t ∧ Filled fd (whole.take offset) t) ?_ (fun t h => frame.stop t h.1)
    ⟨now, filled⟩ (fun t h => ?_) fun _ t h => frame.stop t h.1
  · intro s t quiet h
    refine ⟨frame.stable s t quiet h.1, ?_⟩
    unfold Filled
    rw [quiet.disk]
    exact h.2
  · rw [Prog.holds_bind, Prog.holds_read]
    dsimp only [id]
    rw [intended t h.1]
    generalize answer : min (counts t.tick) ((whole.drop offset).take request).length = count
    have bound : count ≤ request := by
      rw [← answer, List.length_take]
      omega
    split
    · rename_i positive
      have short : ((whole.drop offset).take request).take count.toNat = (whole.drop offset).take count.toNat := by
        rw [List.take_take]
        congr 1
        omega
      rw [short]
      refine ⟨frame.amend t _ h.1, ?_, bound⟩
      have held : (t.disk.files fd).content = .other (whole.take offset) := h.2
      change (Function.update t.disk.files fd (putFile text offset _ (t.disk.files fd)) fd).content = _
      rw [Function.update_self]
      simp only [putFile, held, contentBytes, overwrite_take]
    · rename_i nothing
      have none : count.toNat = 0 := by omega
      exact ⟨h.1, by rw [none]; exact h.2, bound⟩

/-! ## The loops -/

/-- The loop of a write ends with all the data. -/
theorem writeLoop_fills (fd offset : Nat) (whole : Bytes) (frame : Frame fd J I) (now : J w)
    (filled : Filled fd (whole.take offset) w) :
    Prog.Holds (writeLoop x text counts fd offset (whole.drop offset)) (fun _ t => J t ∧ Filled fd whole t)
      (fun _ => I) I w := by
  -- What is left gets shorter with every chunk.
  induction size : (whole.drop offset).length using Nat.strongRecOn generalizing offset w with
  | _ size ih =>
    rw [writeLoop]
    split
    · rename_i all
      rw [List.drop_eq_nil_iff] at all
      rw [List.take_of_length_le all] at filled
      exact ⟨now, filled⟩
    · rename_i more
      refine Prog.holds_bind_of (transfer_fills frame (fun _ _ => List.take_length.symm) now filled)
        fun written t moved => ?_
      split
      · exact frame.stop t moved.1
      · have left : 0 < (whole.drop offset).length := List.length_pos_iff.mpr more
        rw [List.drop_drop]
        refine ih _ ?_ _ moved.1 moved.2.1 rfl
        rw [← size]
        simp only [List.length_drop] at left ⊢
        omega

/-- The remaining count is never negative and gets smaller with every chunk. -/
theorem remaining_decreases {remaining copied : Int} (more : 0 < copied)
    (bound : copied ≤ (min remaining (1024 * 1024)).toNat) :
    0 ≤ remaining - copied ∧ remaining - copied < remaining := by
  omega

/-- The loop of a copy ends with all the data, in fewer rounds than there are
bytes. -/
theorem copyLoop_fills {source dest offset rounds : Nat} {remaining : Int} {whole : Bytes} (frame : Frame dest J I)
    (content : ∀ t, J t → contentBytes text (t.disk.files source).content = whole)
    (nonneg : 0 ≤ remaining) (rest : offset + remaining = whole.length) (enough : remaining < rounds)
    (now : J w) (filled : Filled dest (whole.take offset) w) :
    Prog.Holds (copyLoop x text counts source dest rounds offset remaining)
      (fun ended t => ended = true ∧ J t ∧ Filled dest whole t) (fun _ => I) I w := by
  induction rounds generalizing offset remaining w with
  | zero => omega
  | succ rounds ih =>
    rw [copyLoop]
    split
    · rename_i done
      have all : whole.length ≤ offset := by omega
      rw [List.take_of_length_le all] at filled
      exact ⟨rfl, now, filled⟩
    · have intended (t : World) (h : J t) :
          ((contentBytes text (t.disk.files source).content).drop offset).take (min remaining (1024 * 1024)).toNat =
            (whole.drop offset).take (min remaining (1024 * 1024)).toNat := by rw [content t h]
      refine Prog.holds_bind_of (transfer_fills frame intended now filled) fun copied t moved => ?_
      split
      · exact frame.stop t moved.1
      · rename_i more
        have smaller := remaining_decreases (Int.not_le.mp more) moved.2.2
        refine ih smaller.1 ?_ ?_ moved.1 moved.2.1
        · push_cast
          omega
        · omega

/-- No call transfers more than there is. -/
theorem transfer_le {fd offset request : Nat} {data : World → Bytes} (limit : ∀ t, (data t).length ≤ request) :
    Prog.Holds (transfer x text counts fd offset data) (fun count _ => count ≤ request) (fun _ _ => True) (fun _ => True) w := by
  refine holds_primitive x (K := fun _ => True) (fun _ _ _ _ => trivial) (fun _ _ => trivial) trivial (fun t _ => ?_)
    fun _ _ _ => trivial
  have bound : min (counts t.tick) (data t).length ≤ (request : Int) := by
    have := limit t
    omega
  rw [Prog.holds_bind, Prog.holds_read]
  dsimp only [id]
  split
  · exact bound
  · exact bound

theorem closing_keeps {α : Type} {m : Exec α} {Q : α → World → Prop} (stable : ∀ a s t, Quiet s t → Q a s → Q a t)
    (quiet : ∀ s t, Quiet s t → I s → I t) (stop : ∀ a t, Q a t → I t) (h : Prog.Holds m Q (fun _ => I) I w) :
    Prog.Holds (closing x m) Q (fun _ => I) I w := by
  unfold closing
  rw [Prog.holds_ensure]
  have closes {K : World → Prop} {t : World} (stable : ∀ s t, Quiet s t → K s → K t) (stop : ∀ t, K t → I t)
      (now : K t) : Prog.Holds (primitive x (pure ())) (fun _ => K) (fun _ => I) I t :=
    ((reads_checkName x).keeps stable stop now).mono (fun _ _ h => h.1) (fun _ _ h => h) fun _ h => h
  refine h.mono (fun a t held => closes (stable a) (stop a) held) (fun _ t held => ?_) fun _ h => h
  exact closes quiet (fun _ h => h) held

theorem Filled.quiet {s t : World} {fd : Nat} {bytes : Bytes} (h : Filled fd bytes s) (quiet : Quiet s t) :
    Filled fd bytes t := by
  unfold Filled
  rw [quiet.disk]
  exact h

theorem Filled.amend {t : World} {fd : Nat} {bytes : Bytes} {f : Inode → Inode} (h : Filled fd bytes t)
    (content : ∀ file, (f file).content = file.content) : Filled fd bytes (t.amend fd f) := by
  change (Function.update t.disk.files fd _ fd).content = _
  rw [Function.update_self, content]
  exact h

/-! ## The staged copy -/

/-- A copy of `source` to `dest` is under way, since `w`. -/
structure Copying (w : World) (source dest : Nat) (t : World) : Prop where
  origin : w.disk.dir.visible .canonical = some source
  canonical : t.disk.dir.visible .canonical = some source
  stage : t.disk.dir.visible .stage = some dest
  distinct : dest ≠ source
  kept : t.disk.files source = w.disk.files source

theorem Copying.quiet {s t : World} {source dest : Nat} (h : Copying w source dest s) (quiet : Quiet s t) :
    Copying w source dest t := by
  obtain ⟨origin, canonical, stage, distinct, kept⟩ := h
  exact ⟨origin, by rw [quiet.disk]; exact canonical, by rw [quiet.disk]; exact stage, distinct,
    by rw [quiet.disk]; exact kept⟩

theorem Copying.amend {t : World} {source dest : Nat} (h : Copying w source dest t) (f : Inode → Inode) :
    Copying w source dest (t.amend dest f) := by
  refine ⟨h.origin, h.canonical, h.stage, h.distinct, ?_⟩
  change Function.update t.disk.files dest _ source = _
  rw [Function.update_of_ne h.distinct.symm]
  exact h.kept

theorem copying_frame (source dest : Nat) : Frame dest (Copying w source dest) (fun _ => True) where
  stable _ _ quiet h := h.quiet quiet
  amend _ f h := h.amend f
  stop _ _ := trivial

theorem copying_born {source : Nat} (origin : w.disk.dir.visible .canonical = some source) {t : World}
    (same : t.disk = w.disk) : Copying w source t.disk.dir.next (t.born .stage) ∧ Filled t.disk.dir.next [] (t.born .stage) := by
  have older : source < t.disk.dir.next := by
    rw [same]
    exact w.disk.dir.visible_lt origin
  refine ⟨⟨origin, ?_, ?_, older.ne', ?_⟩, ?_⟩
  · change (t.disk.dir.create .stage).visible .canonical = _
    rw [Dir.visible_create, Function.update_of_ne (by decide), same]
    exact origin
  · change (t.disk.dir.create .stage).visible .stage = _
    rw [Dir.visible_create, Function.update_self]
  · change Function.update t.disk.files t.disk.dir.next _ source = _
    rw [Function.update_of_ne older.ne, same]
  · change (Function.update t.disk.files t.disk.dir.next _ t.disk.dir.next).content = _
    rw [Function.update_self]

/-- STAGE is a copy of what CANONICAL was and is. -/
def Copied (text : Journal → Bytes) (w t : World) : Prop :=
  ∃ source dest, w.disk.dir.visible .canonical = some source ∧ t.disk.dir.visible .canonical = some source ∧
    t.disk.files source = w.disk.files source ∧ t.disk.dir.visible .stage = some dest ∧
    contentBytes text (t.disk.files dest).content = contentBytes text (w.disk.files source).content ∧
    (contentBytes text (t.disk.files dest).content).length = (w.disk.files source).size

/-- The size of CANONICAL is the length of its content. -/
def Sized (text : Journal → Bytes) (w : World) : Prop :=
  ∀ i, w.disk.dir.visible .canonical = some i →
    (w.disk.files i).size = (contentBytes text (w.disk.files i).content).length

theorem copyStage_copies {rounds : Nat} (sized : Sized text w)
    (enough : ∀ i, w.disk.dir.visible .canonical = some i → (w.disk.files i).size < rounds) :
    Prog.Holds (copyStage x text counts rounds) (fun ended t => ended = true ∧ Copied text w t)
      (fun _ _ => True) (fun _ => True) w := by
  have unchanged (s t : World) (quiet : Quiet s t) (h : s.disk = w.disk) : t.disk = w.disk := quiet.disk.trans h
  have copied (s t : World) (quiet : Quiet s t) (h : Copied text w s) : Copied text w t := by
    unfold Copied at h ⊢
    rw [quiet.disk]
    exact h
  refine Prog.holds_bind_of ((reads_opened x .canonical).keeps unchanged (fun _ _ => trivial) rfl) ?_
  rintro source t ⟨same, seen, -⟩
  have origin : w.disk.dir.visible .canonical = some source := by
    rw [← same]
    exact seen
  refine closing_keeps (fun _ s t quiet h => ⟨h.1, copied s t quiet h.2⟩) (fun _ _ _ _ => trivial) (fun _ _ _ => trivial) ?_
  refine Prog.holds_bind_of (create_keeps x (K := fun t => t.disk = w.disk)
    (L := fun dest t => Copying w source dest t ∧ Filled dest [] t) unchanged (fun _ _ => trivial)
    (fun _ s t quiet h => ⟨h.1.quiet quiet, h.2.quiet quiet⟩) (fun _ _ _ => trivial) same
    (fun t same _ => copying_born origin same) (fun _ t h => ⟨h.1.amend _, h.2.amend fun _ => rfl⟩)
    fun _ t h => ⟨h.1.amend _, h.2.amend fun _ => rfl⟩) ?_
  rintro dest t ⟨started, -⟩
  refine closing_keeps (fun _ s t quiet h => ⟨h.1, copied s t quiet h.2⟩) (fun _ _ _ _ => trivial) (fun _ _ _ => trivial) ?_
  refine Prog.holds_bind_of ((reads_status x .canonical).keeps
    (K := fun t => Copying w source dest t ∧ Filled dest [] t)
    (fun s t quiet h => ⟨h.1.quiet quiet, h.2.quiet quiet⟩) (fun _ _ => trivial) started) ?_
  rintro before t ⟨now, stat, -⟩
  have size : before.size = (w.disk.files source).size := by
    have found : t.disk.statOf source = before := by
      have seen : t.disk.stat .canonical = some before := stat
      rw [Disk.stat, now.1.canonical] at seen
      exact Option.some.inj seen
    rw [← found, ← now.1.kept]
    rfl
  have small : before.size < rounds := by
    rw [size]
    exact enough source origin
  have length : before.size = (contentBytes text (w.disk.files source).content).length := size.trans (sized source origin)
  refine Prog.holds_bind_of ((reads_demand _ _).keeps
    (K := fun t => Copying w source dest t ∧ Filled dest [] t)
    (fun s t quiet h => ⟨h.1.quiet quiet, h.2.quiet quiet⟩) (fun _ _ => trivial) now) ?_
  rintro - t ⟨now, -⟩
  have loop : Prog.Holds (copyLoop x text counts source dest rounds 0 before.size)
      (fun ended t => ended = true ∧ Copying w source dest t ∧
        Filled dest (contentBytes text (w.disk.files source).content) t) (fun _ _ => True) (fun _ => True) t := by
    refine copyLoop_fills (copying_frame source dest) (fun t h => by rw [h.kept]) (by omega) (by omega) (by omega) now.1 ?_
    rw [List.take_zero]
    exact now.2
  refine Prog.holds_bind_of loop ?_
  rintro _ t ⟨rfl, held, filled⟩
  have done : Copied text w t :=
    ⟨source, dest, origin, held.canonical, held.kept, held.stage, by rw [filled]; rfl, by rw [filled, ← size, length]; rfl⟩
  refine Prog.holds_bind_of ((reads_same x .canonical before).keeps copied (fun _ _ => trivial) done) fun _ t same => ?_
  have looked : Reads (primitive x (Prog.read fun w => w.disk.statOf dest)) fun _ _ => True :=
    (reads_primitive x (reads_view fun v => v.disk.statOf dest)).mono fun _ _ _ => trivial
  refine Prog.holds_bind_of (looked.keeps copied (fun _ _ => trivial) same.1) fun after t seen => ?_
  refine Prog.holds_bind_of ((reads_demand _ _).keeps copied (fun _ _ => trivial) seen.1) fun _ t independent => ?_
  exact ⟨rfl, independent.1⟩

/-! ## The journal -/

/-- JOURNAL names the file it named, with the content it had. -/
def Kept (w t : World) : Prop :=
  t.disk.dir.visible .journal = w.disk.dir.visible .journal ∧
    ∀ i, w.disk.dir.visible .journal = some i →
      (t.disk.files i).content = (w.disk.files i).content ∧ (t.disk.files i).stored = (w.disk.files i).stored

/-- JOURNAL names a synced file with exactly these bytes. -/
def Written (data : Bytes) (t : World) : Prop :=
  ∃ i, t.disk.dir.visible .journal = some i ∧ (t.disk.files i).content = .other data ∧
    (t.disk.files i).stored = .other data

/-- The new file of `write_journal` is there, and is not the journal. -/
structure Writing (w : World) (fd : Nat) (t : World) : Prop where
  kept : Kept w t
  named : t.disk.dir.visible .journalNew = some fd
  fresh : ∀ i, w.disk.dir.visible .journal = some i → fd ≠ i

theorem Kept.quiet {s t : World} (h : Kept w s) (quiet : Quiet s t) : Kept w t := by
  unfold Kept
  rw [quiet.disk]
  exact h

theorem Written.quiet {s t : World} {data : Bytes} (h : Written data s) (quiet : Quiet s t) : Written data t := by
  unfold Written
  rw [quiet.disk]
  exact h

theorem Writing.quiet {s t : World} {fd : Nat} (h : Writing w fd s) (quiet : Quiet s t) : Writing w fd t :=
  ⟨h.kept.quiet quiet, by rw [quiet.disk]; exact h.named, h.fresh⟩

theorem Writing.amend {t : World} {fd : Nat} (h : Writing w fd t) (f : Inode → Inode) : Writing w fd (t.amend fd f) := by
  refine ⟨⟨h.kept.1, fun i seen => ?_⟩, h.named, h.fresh⟩
  change (Function.update t.disk.files fd _ i).content = _ ∧ (Function.update t.disk.files fd _ i).stored = _
  rw [Function.update_of_ne (h.fresh i seen).symm]
  exact h.kept.2 i seen

theorem Writing.fsynced {t : World} {fd : Nat} {n : Name} (h : Writing w fd t) : Writing w fd (t.fsynced n fd) := by
  obtain ⟨kept, named, fresh⟩ := h.amend fun file => { file with stored := file.content }
  exact ⟨kept, named, fresh⟩

theorem Filled.fsynced {t : World} {fd : Nat} {bytes : Bytes} {n : Name} (h : Filled fd bytes t) :
    Filled fd bytes (t.fsynced n fd) :=
  h.amend (f := fun file => { file with stored := file.content }) fun _ => rfl

/-- A new time stamp is no new content. -/
theorem touch_content (d : Disk) (i j : Nat) :
    ((d.touch i).files j).content = (d.files j).content ∧ ((d.touch i).files j).stored = (d.files j).stored := by
  change (Function.update d.files i _ j).content = _ ∧ (Function.update d.files i _ j).stored = _
  by_cases same : j = i
  · subst same
    rw [Function.update_self]
    exact ⟨rfl, rfl⟩
  · rw [Function.update_of_ne same]
    exact ⟨rfl, rfl⟩

theorem Kept.unlinked {t : World} (h : Kept w t) (i : Nat) : Kept w (t.unlinked .journalNew i) := by
  refine ⟨?_, fun j seen => ?_⟩
  · change (t.disk.dir.unlink .journalNew).visible .journal = _
    rw [Dir.visible_unlink, Function.update_of_ne (by decide)]
    exact h.1
  · change ((t.disk.touch i).files j).content = _ ∧ ((t.disk.touch i).files j).stored = _
    rw [(touch_content t.disk i j).1, (touch_content t.disk i j).2]
    exact h.2 j seen

theorem writing_born {t : World} (h : Kept w t) :
    Writing w t.disk.dir.next (t.born .journalNew) ∧ Filled t.disk.dir.next [] (t.born .journalNew) := by
  have older (i : Nat) (seen : w.disk.dir.visible .journal = some i) : i < t.disk.dir.next :=
    t.disk.dir.visible_lt (h.1.trans seen)
  refine ⟨⟨⟨?_, fun i seen => ?_⟩, ?_, fun i seen => (older i seen).ne'⟩, ?_⟩
  · change (t.disk.dir.create .journalNew).visible .journal = _
    rw [Dir.visible_create, Function.update_of_ne (by decide)]
    exact h.1
  · change (Function.update t.disk.files t.disk.dir.next _ i).content = _ ∧
      (Function.update t.disk.files t.disk.dir.next _ i).stored = _
    rw [Function.update_of_ne (older i seen).ne]
    exact h.2 i seen
  · change (t.disk.dir.create .journalNew).visible .journalNew = _
    rw [Dir.visible_create, Function.update_self]
  · change (Function.update t.disk.files t.disk.dir.next _ t.disk.dir.next).content = _
    rw [Function.update_self]

/-- The rename gives JOURNAL the new file, which is complete and synced. -/
theorem Writing.renamed {t : World} {fd i : Nat} {data : Bytes} (h : Writing w fd t) (filled : Filled fd data t)
    (synced : (t.disk.files fd).stored = .other data) (seen : t.disk.dir.visible .journalNew = some i) :
    Written data (t.renamed .journalNew .journal i) := by
  obtain rfl : fd = i := Option.some.inj (h.named.symm.trans seen)
  have other : t.disk.dir.visible .journal ≠ some fd := by
    rw [h.kept.1]
    exact fun same => h.fresh fd same rfl
  refine ⟨fd, ?_, ?_, ?_⟩
  · change (t.disk.dir.rename .journalNew .journal).visible .journal = _
    rw [Dir.rename_of_visible _ seen other, Dir.visible_push]
    simp [Change.apply]
  · exact (touch_content t.disk fd fd).1.trans filled
  · exact (touch_content t.disk fd fd).2.trans synced

/-- Where `write_journal` may stop. -/
def Safe (value : Document) (w t : World) : Prop :=
  Kept w t ∨ ∃ data, JournalText.writeJournal value = .ok data ∧ Written data t

theorem writeJournal_writes (value : Document) :
    Prog.Holds (writeJournal x text counts value)
      (fun _ t => ∃ data, JournalText.writeJournal value = .ok data ∧ Written data t ∧ t.disk.dir.pending = [])
      (fun _ => Safe value w) (Safe value w) w := by
  have kept (s t : World) (quiet : Quiet s t) (h : Kept w s) : Kept w t := h.quiet quiet
  have early (t : World) (h : Kept w t) : Safe value w t := Or.inl h
  have start : Kept w w := ⟨rfl, fun _ _ => ⟨rfl, rfl⟩⟩
  refine Prog.holds_bind_of ((reads_lift _).keeps kept early start) ?_
  rintro data t ⟨now, encoded⟩
  have late (t : World) (h : Written data t) : Safe value w t := Or.inr ⟨data, encoded, h⟩
  refine Prog.holds_bind_of (remove_keeps x kept early early now (fun _ h _ => h) fun t i h _ => h.unlinked i) ?_
  intro _ t now
  refine Prog.holds_bind_of (create_keeps x (L := fun fd t => Writing w fd t ∧ Filled fd [] t) kept early
    (fun _ s t quiet h => ⟨h.1.quiet quiet, h.2.quiet quiet⟩) (fun _ t h => early t h.1.kept) now
    (fun t h _ => writing_born h) (fun _ t h => ⟨h.1.amend _, h.2.amend fun _ => rfl⟩)
    fun _ t h => ⟨h.1.amend _, h.2.amend fun _ => rfl⟩) ?_
  rintro fd t ⟨⟨writing, empty⟩, -⟩
  -- Complete and synced, but not yet the journal.
  let Ready (t : World) : Prop := Writing w fd t ∧ Filled fd data t ∧ (t.disk.files fd).stored = .other data
  have ready (s t : World) (quiet : Quiet s t) (h : Ready s) : Ready t :=
    ⟨h.1.quiet quiet, h.2.1.quiet quiet, by rw [quiet.disk]; exact h.2.2⟩
  have filling : Prog.Holds (closing x do
      writeLoop x text counts fd 0 data
      fsyncFile x .journalNew fd) (fun _ => Ready) (fun _ => Safe value w) (Safe value w) t := by
    refine closing_keeps (fun _ => ready) (fun s t quiet h => ?_) (fun _ t h => early t h.1.kept) ?_
    · rcases h with h | ⟨data, encoded, h⟩
      · exact Or.inl (h.quiet quiet)
      · exact Or.inr ⟨data, encoded, h.quiet quiet⟩
    · have loop : Prog.Holds (writeLoop x text counts fd 0 data) (fun _ t => Writing w fd t ∧ Filled fd data t)
          (fun _ => Safe value w) (Safe value w) t :=
        writeLoop_fills fd 0 data ⟨fun _ _ quiet h => h.quiet quiet, fun _ f h => h.amend f,
          fun t h => early t h.kept⟩ writing empty
      refine Prog.holds_bind_of loop fun _ t now => ?_
      refine fsyncFile_keeps x (fun s t quiet h => ⟨h.1.quiet quiet, h.2.quiet quiet⟩)
        (fun t (h : Writing w fd t ∧ Filled fd data t) => early t h.1.kept) (fun t h => early t h.1.kept) now fun t h => ?_
      have synced : ((t.fsynced .journalNew fd).disk.files fd).stored = .other data := by
        change (Function.update t.disk.files fd _ fd).stored = _
        rw [Function.update_self]
        exact h.2
      exact ⟨h.1.fsynced, h.2.fsynced, synced⟩
  refine Prog.holds_bind_of filling fun _ t now => ?_
  refine Prog.holds_bind_of (replace_keeps x ready (fun t h => early t h.1.kept) late now
    fun t i _ h seen _ _ => h.1.renamed h.2.1 h.2.2 seen) fun _ t now => ?_
  refine (syncDirectory_keeps x (L := fun t => Written data t ∧ t.disk.dir.pending = []) (fun s t quiet h => h.quiet quiet)
    late (fun t h => late t h.1) now fun t h => ?_).mono (fun _ t h => ⟨data, encoded, h⟩) (fun _ _ h => h) fun _ h => h
  exact ⟨h, rfl⟩

end

/-- A copy of any size ends in as many rounds as there are bytes, with the whole
content or an exception, as every chunk leaves less and never less than nothing;
and wherever a journal write stops, the journal is the old one or the whole new
one, the latter for good when it returns. -/
theorem partial_transfers_are_exact (x : Session) (text : Journal → Bytes) (counts : Nat → Int) :
    (∀ w rounds, Sized text w → (∀ i, w.disk.dir.visible .canonical = some i → (w.disk.files i).size < rounds) →
      Prog.Holds (copyStage x text counts rounds) (fun ended t => ended = true ∧ Copied text w t)
        (fun _ _ => True) (fun _ => True) w) ∧
    (∀ w source dest offset remaining,
      Prog.Holds (copyFileRange x text counts source dest offset (min remaining (1024 * 1024)).toNat)
        (fun copied _ => 0 < copied → 0 ≤ remaining - copied ∧ remaining - copied < remaining)
        (fun _ _ => True) (fun _ => True) w) ∧
    ∀ w value, Prog.Holds (writeJournal x text counts value)
      (fun _ t => ∃ data, JournalText.writeJournal value = .ok data ∧ Written data t ∧ t.disk.dir.pending = [])
      (fun _ => Safe value w) (Safe value w) w := by
  refine ⟨fun w rounds sized enough => copyStage_copies sized enough, fun w source dest offset remaining => ?_,
    fun w value => writeJournal_writes value⟩
  refine (transfer_le fun t => ?_).mono (fun _ _ bound more => remaining_decreases more bound) (fun _ _ h => h) fun _ h => h
  exact List.length_take_le _ _

/-! Three bytes, of which the kernel copies at most two at a time. -/

def Sample.chunked : World := { CertRenewer.Sample.start with
  disk := ⟨0, fun _ => ⟨0, true, 0o600, abc, abc, 3, 0, 0, .store [1, 2, 3], .store [1, 2, 3]⟩, CertRenewer.Sample.dir⟩ }

theorem sample_copy_is_exact :
    (copyStage (CertRenewer.Sample.session []) (fun _ => []) (fun _ => 2) 4 Sample.chunked).1 = .ok true ∧
      Copied (fun _ => []) Sample.chunked
        (copyStage (CertRenewer.Sample.session []) (fun _ => []) (fun _ => 2) 4 Sample.chunked).2 := by
  have copied (x : Session) (w : World) (sized : Sized (fun _ => []) w)
      (small : ∀ i, w.disk.dir.visible .canonical = some i → (w.disk.files i).size < 4)
      (ends : (copyStage x (fun _ => []) (fun _ => 2) 4 w).1 = .ok true) :
      Copied (fun _ => []) w (copyStage x (fun _ => []) (fun _ => 2) 4 w).2 :=
    (((partial_transfers_are_exact x (fun _ => []) (fun _ => 2)).1 w 4 sized small).ok (Prog.eq_of_fst ends)).2
  have ends : (copyStage (CertRenewer.Sample.session []) (fun _ => []) (fun _ => 2) 4 Sample.chunked).1 = .ok true := by
    decide +kernel
  exact ⟨ends, copied _ _ (fun _ _ => rfl) (fun _ _ => Nat.lt_succ_self 3) ends⟩

end CertRenewer.Transfers
