import CertRenewer.Exclusion

/-!
# The journal comes first and goes last

No stage and no rollback is ever left without a journal, whatever a power loss
drops. What can be left is a temporary journal that a first journal write was
cut off at, and then nothing was done for its transaction yet.
-/

namespace CertRenewer

open Crash

/-- Since the lock was taken, no stop was issued. -/
def Undisturbed : List Entry → Prop
  | [] => True
  | e :: older => e.event = .acquired ∨ (e.event ≠ .stopIssued ∧ Undisturbed older)

/-- There was a journal when the lock was last taken. -/
def Resumed : List Entry → Prop
  | [] => False
  | e :: older =>
    match e.event with
    | .acquired => e.disk.dir.visible .journal ≠ none
    | _ => Resumed older

/-- The last transaction was cut off in the write of its first journal: the
canonical store is the one it began over, and the operation that began it issued
no stop. While the power holds none was issued since; with power losses, only by
an operation that found the journal when it took the lock. -/
structure Interrupted (g : Setting) (w : World) (newer : List Entry) (e : Entry) (older : List Entry)
    (i : Nat) : Prop where
  trace : w.trace = newer ++ e :: older
  founds : Founds e
  last : ∀ s ∈ newer, ¬ Founds s
  before : e.disk.dir.visible .canonical = some i
  canonical : w.disk.dir.visible .canonical = some i
  content : (w.disk.files i).content = (e.disk.files i).content
  undisturbed : Undisturbed older
  since : ∀ front s back, newer = front ++ s :: back → s.event = .stopIssued →
    s.disk.dir.visible .journal ≠ none ∧ Resumed back ∧ g.powered = false

/-- With the lock taken, `_no_transaction` does not turn the operation away. -/
def Passes (x : Session) (w : World) : Prop :=
  ∀ t e u, acquire x w = (.ok (), t) → noTransaction x t = (.raised e, u) →
    e ≠ .operation "recovery required before another operation"

section
variable {g : Setting} {x : Session} {w t : World} {tr : List Entry} {i : Nat} {c : Content}

theorem Excluded.undisturbed {newer : List Entry} (h : Excluded g (newer ++ tr)) (free : Unjournalled tr) :
    Undisturbed tr := by
  induction tr generalizing newer with
  | nil => trivial
  | cons e older ih =>
    obtain ⟨journal, acquired | rest⟩ := free
    · exact Or.inl acquired
    · refine Or.inr ⟨fun stop => (h.entry.stops stop).1 journal, @ih (newer ++ [e]) ?_ rest⟩
      rwa [List.append_assoc]

theorem Unmoved.unjournalled {d : Disk} (h : Unmoved d tr) (free : Unjournalled tr) :
    d.dir.visible .journal = none := by
  induction tr with
  | nil => exact h.elim
  | cons e older ih =>
    obtain ⟨journal, rest⟩ := free
    unfold Unmoved at h
    split at h
    · rw [← h]
      exact journal
    · rename_i other
      exact ih h (rest.resolve_left other)

/-- An operation over a journal that it found is not the one that began the
transaction: that one had seen none. -/
theorem Unmoved.resumed {d : Disk} {back older : List Entry} {e : Entry}
    (h : Unmoved d (back ++ e :: older)) (journal : d.dir.visible .journal ≠ none) (founds : Founds e)
    (free : Unjournalled older) : Resumed back := by
  induction back with
  | nil =>
    obtain ⟨⟨k, event⟩, _⟩ := founds
    have before : Unmoved d older := by simpa [Unmoved, event] using h
    exact absurd (before.unjournalled free) journal
  | cons b back ih =>
    have h : Unmoved d (b :: (back ++ e :: older)) := h
    by_cases acquired : b.event = .acquired
    · simp only [Unmoved, acquired] at h
      simp only [Resumed, acquired, h]
      exact journal
    · have rest : Unmoved d (back ++ e :: older) := by
        unfold Unmoved at h
        split at h
        · exact absurd ‹_› acquired
        · exact h
      unfold Resumed
      split
      · exact absurd ‹_› acquired
      · exact ih rest

/-- Where the last transaction began. -/
theorem Founded.split (h : Founded i c tr) : ∃ newer e older, tr = newer ++ e :: older ∧ Founds e ∧
    (∀ s ∈ newer, ¬ Founds s ∧ ∃ ns, s.disk.dir.Image ns ∧ ns .journal = none) ∧
    e.disk.dir.visible .canonical = some i ∧ (e.disk.files i).content = c ∧ Unjournalled older := by
  induction tr with
  | nil => exact h.elim
  | cons e older ih =>
    rcases h with ⟨founds, rest⟩ | ⟨other, possible, founded⟩
    · exact ⟨[], e, older, rfl, founds, by simp, rest⟩
    · obtain ⟨newer, b, old, split, founds, last, rest⟩ := ih founded
      refine ⟨e :: newer, b, old, by rw [split]; rfl, founds, fun s member => ?_, rest⟩
      rcases List.mem_cons.mp member with rfl | member
      · exact ⟨other, possible⟩
      · exact last s member

theorem Unpublished.since {newer older : List Entry} {e : Entry} (h : Unpublished (newer ++ e :: older))
    (last : ∀ s ∈ newer, ¬ Founds s) : ∀ s ∈ newer, s.disk.dir.visible .journal = none := by
  induction newer with
  | nil => simp
  | cons s newer ih =>
    rcases h with founds | ⟨free, rest⟩
    · exact absurd founds (last s (by simp))
    · intro r member
      rcases List.mem_cons.mp member with rfl | member
      · exact free
      · exact ih rest (fun r hr => last r (by simp [hr])) r member

theorem Leads.interrupted {moves : List Move} (leads : Leads g moves w)
    (free : w.disk.dir.visible .journal = none) (left : w.disk.dir.visible .journalNew ≠ none) :
    ∃ newer e older i, Interrupted g w newer e older i := by
  have inv := leads.inv
  obtain ⟨i, c, canonical, sealed, founded⟩ :=
    inv.budding.founded _ w.disk.dir.image_visible free (Or.inr (Or.inl left))
  obtain ⟨newer, e, older, split, founds, last, before, content, fresh⟩ := founded.split
  have excluded := leads.excluded
  rw [split] at excluded
  refine ⟨newer, e, older, i, split, founds, fun s member => (last s member).1, before, canonical, ?_, ?_,
    fun front s back parts stop => ?_⟩
  · rw [content]
    exact (inv.synced i c sealed).2.1
  · have split : Excluded g ((newer ++ [e]) ++ older) := by rwa [List.append_assoc]
    exact split.undisturbed fresh
  · have member : s ∈ newer := by simp [parts]
    obtain ⟨_, ns, image, missing⟩ := last s member
    obtain ⟨found, backed⟩ : s.disk.dir.visible .journal ≠ none ∧
        (Anchored s.disk ∨ Unmoved s.disk (back ++ e :: older)) := by
      rw [parts, List.append_assoc] at excluded
      exact excluded.entry.stops stop
    refine ⟨found, ?_, Bool.eq_false_iff.mpr fun powered => found ?_⟩
    · rcases backed with ⟨l, anchored⟩ | unmoved
      · -- the journal's name was not durable yet
        rw [anchored ns image] at missing
        cases missing
      · exact unmoved.resumed found founds fresh
    · have unpublished := inv.budding.unpublished powered free left
      rw [split] at unpublished
      exact unpublished.since (fun r member => (last r member).1) s member

/-- A step that reads fails only where the system call does. -/
theorem primitive_fails {α : Type} (f : World → α) :
    Prog.Holds (primitive x (Prog.read f)) (fun _ _ => True) (fun e _ => e = .os) (fun _ => True) t :=
  Prog.holds_interrupted (m := Prog.read f) _ trivial (fun _ => ⟨rfl, trivial⟩)
    fun _ _ _ _ => ⟨rfl, trivial⟩

theorem exists_fails (n : Name) :
    Prog.Holds (exists_ x n) (fun _ _ => True) (fun e _ => e = .os) (fun _ => True) t :=
  Prog.holds_bind_of (primitive_fails fun _ => ()) fun _ _ _ => primitive_fails _

/-- Where nothing of a transaction is left, the next operation may go on. -/
theorem passes_of_vacant (vacant : ∀ n ∈ transactionNames, w.disk.dir.visible n = none) :
    Passes x w := by
  intro t e u acquired failed
  have locks := ((acquire_locks (w := w) x).ok acquired).1
  have look (n : Name) (other : n ≠ .lock) (free : w.disk.dir.visible n = none) {t : World}
      (ht : Locks w t) :
      Prog.Holds (do if ← exists_ x n then refuse "recovery required before another operation")
        (fun _ => Locks w) (fun e _ => e = .os) (fun _ => True) t := by
    refine Prog.holds_bind_of (((reads_exists x n t).and (exists_fails n)).mono
      (fun _ _ h => And.intro (ht.quiet h.1.1) h.1.2) (fun _ _ h => h.2) fun _ _ => trivial)
      fun b u looked => ?_
    obtain ⟨hu, found⟩ := looked
    have found : b = (t.disk.dir.visible n).isSome := found
    rw [ht.names n other, free] at found
    rw [found]
    exact hu
  have checked : Prog.Holds (noTransaction x) (fun _ => Locks w) (fun e _ => e = .os) (fun _ => True) t := by
    simp only [noTransaction, List.forM]
    refine Prog.holds_bind_of (look .journal (by decide) (vacant _ (by decide)) locks) fun _ t ht => ?_
    refine Prog.holds_bind_of (look .journalNew (by decide) (vacant _ (by decide)) ht) fun _ t ht => ?_
    refine Prog.holds_bind_of (look .stage (by decide) (vacant _ (by decide)) ht) fun _ t ht => ?_
    exact Prog.holds_bind_of (look .rollback (by decide) (vacant _ (by decide)) ht) fun _ t ht => ht
  rw [checked.raised failed]
  exact fun no => by cases no

/-- Without a journal nothing of a transaction is left but a temporary journal,
and then the transaction was cut off in the write of its first journal. Where
that is not there either, the next operation may go on. -/
theorem journal_comes_first_and_goes_last (h : Reachable g w)
    (free : w.disk.dir.visible .journal = none) :
    w.disk.dir.visible .stage = none ∧ w.disk.dir.visible .rollback = none ∧
    (w.disk.dir.visible .journalNew ≠ none → ∃ newer e older i, Interrupted g w newer e older i) ∧
    (w.disk.dir.visible .journalNew = none → ∀ x : Session, Passes x w.fresh) := by
  obtain ⟨moves, leads⟩ := h
  obtain ⟨stage, rollback⟩ := (leads.inv.images _ w.disk.dir.image_visible).vacant free
  refine ⟨stage, rollback, leads.interrupted free, fun temporary x => passes_of_vacant fun n member => ?_⟩
  simp only [transactionNames, List.mem_cons, List.not_mem_nil, or_false] at member
  rcases member with rfl | rfl | rfl | rfl
  · exact free
  · exact temporary
  · exact stage
  · exact rollback

/-- An installation that was killed while it wrote its first journal. -/
theorem installation_is_interrupted : ∃ w newer e older i,
    w.disk.dir.visible .journalNew = some 2 ∧ Interrupted (Sample.setting true) w newer e older i := by
  let moves : List Move := [.operate (Sample.session [(45, .killAfter)]) (.install Sample.request)]
  have leads : Leads (Sample.setting true) moves (run moves Sample.start) :=
    Sample.leads (by simp [moves, Move.On, Move.Powered, Sample.session])
  have left : (run moves Sample.start).disk.dir.visible .journal = none ∧
      (run moves Sample.start).disk.dir.visible .journalNew = some 2 := by decide +kernel
  obtain ⟨newer, e, older, i, interrupted⟩ :=
    (journal_comes_first_and_goes_last ⟨moves, leads⟩ left.1).2.2.1 (by rw [left.2]; simp)
  exact ⟨_, newer, e, older, i, left.2, interrupted⟩

/-- An installation killed before the rename of its first journal was synced, a
recovery that found the journal and was killed when it had stopped the service,
and a power loss that dropped the rename. -/
theorem service_is_stopped_beside_a_lone_temporary_journal :
    ∃ w, Reachable (Sample.setting false) w ∧ w.disk.dir.visible .journal = none ∧
      w.disk.dir.visible .journalNew ≠ none ∧ ∃ newer e older, w.trace = newer ++ e :: older ∧
        Founds e ∧ ∃ s ∈ newer, s.event = .stopIssued := by
  let moves : List Move := [.operate (Sample.session [(51, .killAfter)]) (.install Sample.request),
    .operate (Sample.session [(70, .killAfter)]) (.recover false),
    .powerLoss [true] (fun _ => .other []) ⟨true, true, false⟩]
  have leads : Leads (Sample.setting false) moves (run moves Sample.start) :=
    Sample.leads (by simp [moves, Move.On, Sample.session])
  have found : (run moves Sample.start).disk.dir.visible .journal = none ∧
      (run moves Sample.start).disk.dir.visible .journalNew = some 2 ∧
      ((run moves Sample.start).trace.take 4).any (fun e => decide (e.event = .stopIssued)) = true ∧
      ((run moves Sample.start).trace.drop 4).head?.any (fun e =>
        decide (e.event = .created .journalNew 2 ∧ e.disk.dir.visible .journal = none)) = true := by
    decide +kernel
  obtain ⟨free, left, stopped, founds⟩ := found
  obtain ⟨e, head, event⟩ := (Option.any_eq_true _ _).mp founds
  obtain ⟨s, member, stop⟩ := List.any_eq_true.mp stopped
  obtain ⟨rest, tail⟩ := List.head?_eq_some_iff.mp head
  refine ⟨_, ⟨moves, leads⟩, free, by rw [left]; simp, _, e, rest, ?_, ?_, s, member, of_decide_eq_true stop⟩
  · rw [← tail, List.take_append_drop]
  · obtain ⟨created, before⟩ := of_decide_eq_true event
    exact ⟨⟨2, created⟩, before⟩

end

end CertRenewer
