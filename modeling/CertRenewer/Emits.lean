import CertRenewer.Rules

/-!
# What a step puts on record

`Emits P m` says that whatever `m` puts on the trace, however it ends, satisfies
`P`; `Logs P m` says in addition that `m` neither takes nor gives up the lock and
expects of the service what was expected before it. Each step asks `P` of its own
events only, so that a step with no event is allowed everywhere.
-/

namespace CertRenewer

open Crash

variable {α β : Type} {P : Entry → Prop}

/-- Only entries with `P` are new. -/
def Notes (P : Entry → Prop) (w t : World) : Prop :=
  ∃ new, t.trace = new ++ w.trace ∧ ∀ e ∈ new, P e

theorem Notes.refl (P : Entry → Prop) (w : World) : Notes P w w := ⟨[], rfl, by simp⟩

theorem Notes.trans {w t u : World} (h : Notes P w t) (k : Notes P t u) : Notes P w u := by
  obtain ⟨new, hn, old⟩ := h
  obtain ⟨newer, hm, recent⟩ := k
  refine ⟨newer ++ new, by rw [hm, hn, List.append_assoc], fun e he => ?_⟩
  rcases List.mem_append.mp he with mem | mem
  · exact recent e mem
  · exact old e mem

theorem Notes.suffix {w t : World} (h : Notes P w t) : w.trace <:+ t.trace := by
  obtain ⟨new, hn, _⟩ := h
  exact ⟨new, hn.symm⟩

def Emits (P : Entry → Prop) (m : Exec α) : Prop := Prog.Yields (Notes P) m fun _ _ => True

/-- Only entries with `P` are new, and the executor stands to the lock and to the
service as it did. -/
structure Marks (P : Entry → Prop) (w t : World) : Prop where
  new : Notes P w t
  held : t.held = w.held
  locked : t.process.locked = w.process.locked
  expectStopped : t.process.expectStopped = w.process.expectStopped

theorem Marks.refl (P : Entry → Prop) (w : World) : Marks P w w := ⟨Notes.refl P w, rfl, rfl, rfl⟩

theorem Marks.trans {w t u : World} (h : Marks P w t) (k : Marks P t u) : Marks P w u :=
  ⟨h.new.trans k.new, k.held.trans h.held, k.locked.trans h.locked,
    k.expectStopped.trans h.expectStopped⟩

theorem Marks.mono {P' : Entry → Prop} {w t : World} (h : Marks P w t) (weaken : ∀ e, P e → P' e) :
    Marks P' w t := by
  obtain ⟨⟨new, hn, old⟩, held, locked, expectStopped⟩ := h
  exact ⟨⟨new, hn, fun e he => weaken e (old e he)⟩, held, locked, expectStopped⟩

/-- A step without events leaves the trace alone. -/
theorem Marks.silent {w t : World} (h : Marks (fun _ => False) w t) : t.trace = w.trace := by
  obtain ⟨new, hn, none⟩ := h.new
  rw [hn, List.eq_nil_iff_forall_not_mem.mpr none]
  rfl

/-- The event may be put on record whatever the world is. -/
def Always (P : Entry → Prop) (e : Event) : Prop :=
  ∀ disk service process, P ⟨e, disk, service, process⟩

def Service.down : Service := ⟨false, false, false⟩

theorem Service.ext {s t : Service} (up : s.up = t.up) (java : s.java = t.java)
    (keytool : s.keytool = t.keytool) : s = t := by
  cases s
  cases t
  simp_all

/-- A proof that the service is stopped may be put on record when it is. -/
def Proven (P : Entry → Prop) : Prop := ∀ disk process, P ⟨.provenStopped, disk, .down, process⟩

theorem Always.proven (h : Always P .provenStopped) : Proven P := fun disk process => h disk _ process

def Logs (P : Entry → Prop) (m : Exec α) : Prop := Prog.Yields (Marks P) m fun _ _ => True

section
variable {m : Exec α}

theorem logs_of {S : α → World → Prop} (h : Prog.Yields (Marks P) m S) : Logs P m :=
  h.mono fun _ _ _ => trivial

theorem logs_pure (a : α) : Logs P (pure a) := logs_of (Prog.yields_pure (Marks.refl P) a)

theorem logs_raise (e : Error) : Logs P (Prog.raise e : Exec α) :=
  logs_of (Prog.yields_raise (Marks.refl P) e)

theorem logs_lift (r : Result α) : Logs P (lift r) :=
  logs_of (Prog.yields_ofExcept (Marks.refl P) r)

theorem logs_demand (p : Prop) [Decidable p] (message : String) : Logs P (demand p message) :=
  logs_of (Prog.yields_guard (Marks.refl P) p _)

theorem logs_guard (p : Prop) [Decidable p] (e : Error) : Logs P (Prog.guard p e : Exec Unit) :=
  logs_of (Prog.yields_guard (Marks.refl P) p e)

theorem logs_read (f : World → α) : Logs P (Prog.read f) := fun w => ⟨Marks.refl P w, trivial⟩

theorem logs_update {f : World → World} (kept : ∀ w, (f w).trace = w.trace ∧ (f w).held = w.held ∧
    (f w).process.locked = w.process.locked ∧
    (f w).process.expectStopped = w.process.expectStopped) : Logs P (Prog.update f) := fun w =>
  ⟨⟨⟨[], (kept w).1, by simp⟩, (kept w).2.1, (kept w).2.2.1, (kept w).2.2.2⟩, trivial⟩

theorem logs_emit {e : Event} (h : Always P e) : Logs P (emit e) := fun w =>
  ⟨⟨⟨[⟨e, w.disk, w.service, w.process⟩], rfl, by simpa using h _ _ _⟩, rfl, rfl, rfl⟩, trivial⟩

theorem logs_bind {f : β → Exec α} {m : Exec β} (h : Logs P m) (hf : ∀ b, Logs P (f b)) :
    Logs P (m >>= f) :=
  logs_of (Prog.yields_bind (fun _ _ _ p q => p.trans q) h hf fun _ _ _ _ _ t => t)

theorem logs_handle {h : Error → Exec α} (first : Logs P m) (rescue : ∀ e, Logs P (h e)) :
    Logs P (Prog.handle m h) :=
  logs_of (Prog.yields_handle (fun _ _ _ p q => p.trans q) first rescue fun _ _ _ _ t => t)

theorem logs_primitive (x : Session) (h : Logs P m) : Logs P (primitive x m) :=
  yields_primitive x (fun _ _ _ p q => p.trans q) (fun _ => ⟨⟨[], rfl, by simp⟩, rfl, rfl, rfl⟩)
    (fun _ _ t => t) h

theorem logs_ite {c : Prop} [Decidable c] {m' : Exec α} (yes : Logs P m) (no : Logs P m') :
    Logs P (if c then m else m') := by
  split
  · exact yes
  · exact no

/-! ## Steps that take the lock, or change what is expected of the service -/

theorem Logs.emits (h : Logs P m) : Emits P m := fun w =>
  (h w).mono (fun _ _ ht => ⟨ht.1.new, trivial⟩) (fun _ _ ht => ht.new) fun _ ht => ht.new

theorem emits_of {S : α → World → Prop} (h : Prog.Yields (Notes P) m S) : Emits P m :=
  h.mono fun _ _ _ => trivial

theorem emits_update {f : World → World} (kept : ∀ w, (f w).trace = w.trace) :
    Emits P (Prog.update f) := fun w => ⟨⟨[], kept w, by simp⟩, trivial⟩

theorem emits_bind {f : β → Exec α} {m : Exec β} (h : Emits P m) (hf : ∀ b, Emits P (f b)) :
    Emits P (m >>= f) :=
  emits_of (Prog.yields_bind (fun _ _ _ p q => p.trans q) h hf fun _ _ _ _ _ t => t)

/-- The rest may rely on what the first step returns. -/
theorem emits_bind_of {f : β → Exec α} {m : Exec β} {S : β → Prop}
    (h : Prog.Yields (Notes P) m fun b _ => S b) (hf : ∀ b, S b → Emits P (f b)) :
    Emits P (m >>= f) := fun _ =>
  h.then (fun _ ht => ⟨fun _ => ht, ht⟩) fun b t ht hb => (hf b hb t).mono
    (fun _ _ hu => ⟨ht.trans hu.1, trivial⟩) (fun _ _ hu => ht.trans hu) fun _ hu => ht.trans hu

theorem yields_lift (r : Result α) : Prog.Yields (Notes P) (lift r) fun a _ => r = .ok a :=
  Prog.yields_ofExcept (Notes.refl P) r

theorem yields_demand (p : Prop) [Decidable p] (message : String) :
    Prog.Yields (Notes P) (demand p message) fun _ _ => p := Prog.yields_guard (Notes.refl P) p _

theorem emits_handle {h : Error → Exec α} (first : Emits P m) (rescue : ∀ e, Emits P (h e)) :
    Emits P (Prog.handle m h) :=
  emits_of (Prog.yields_handle (fun _ _ _ p q => p.trans q) first rescue fun _ _ _ _ t => t)

theorem emits_ensure {f : Exec Unit} (h : Emits P m) (last : Emits P f) :
    Emits P (Prog.ensure m f) := by
  intro w
  rw [Prog.holds_ensure]
  have after (t : World) (ht : Notes P w t) :
      Prog.Holds f (fun _ u => Notes P w u) (fun _ u => Notes P w u) (fun u => Notes P w u) t :=
    (last t).mono (fun _ u hu => ht.trans hu.1) (fun _ u hu => ht.trans hu) fun u hu => ht.trans hu
  exact (h w).mono
    (fun _ t ht => (after t ht.1).mono (fun _ _ hu => ⟨hu, trivial⟩) (fun _ _ hu => hu) fun _ hu => hu)
    (fun _ t ht => after t ht) fun t ht => ht

theorem emits_primitive (x : Session) (h : Emits P m) : Emits P (primitive x m) :=
  yields_primitive x (fun _ _ _ p q => p.trans q) (fun _ => ⟨[], rfl, by simp⟩) (fun _ _ t => t) h

theorem emits_ite {c : Prop} [Decidable c] {m' : Exec α} (yes : Emits P m) (no : Emits P m') :
    Emits P (if c then m else m') := by
  split
  · exact yes
  · exact no

/-- What a step that only looks found, beside what it puts on record. -/
theorem Reads.yields {S : α → View → Prop} (h : Reads m S) (emits : Emits P m) :
    Prog.Yields (Notes P) m fun a w => S a w.view := fun w =>
  ((h w).and (emits w)).mono (fun _ _ both => ⟨both.2.1, both.1.2⟩) (fun _ _ both => both.2)
    fun _ both => both.2

end

/-! ## Kinds of events -/

/-- What a write of the journal puts on record. -/
def Event.scribes : Event → Bool
  | .journalWrite _ | .unlinked .journalNew | .created .journalNew _ | .syncedFile .journalNew _
  | .renamed .journalNew .journal _ | .syncedDirectory => true
  | _ => false

/-- What leaves the lock, and what is known of the service, as they are. -/
def Event.calm : Event → Bool
  | .startIssued | .stopIssued | .provenStopped | .acquired | .released => false
  | e => e.common

/-- An import, or a store's name given to a file. -/
def Event.stores : Event → Bool
  | .keytool _ (.importcert _) => true
  | .created n _ | .linked n _ | .renamed _ n _ => n.isStore
  | _ => false

/-- What may happen whether or not the service is stopped. -/
def Event.idle (e : Event) : Bool := e.calm && !e.stores

/-- What taking the lock and giving it up put on record. -/
def Event.guards : Event → Bool
  | .created .lock _ | .syncedDirectory | .acquired | .released | .provenStopped => true
  | _ => false

theorem Event.calm_of_scribes {e : Event} (h : e.scribes = true) : e.calm = true := by
  unfold Event.scribes at h
  split at h
  · rfl
  · rfl
  · rfl
  · rfl
  · rfl
  · rfl
  · cases h

theorem Event.idle_of_scribes {e : Event} (h : e.scribes = true) : e.idle = true := by
  unfold Event.scribes at h
  split at h
  · rfl
  · rfl
  · rfl
  · rfl
  · rfl
  · rfl
  · cases h

theorem Event.common_of_calm {e : Event} (h : e.calm = true) : e.common = true := by
  unfold Event.calm at h
  split at h
  · cases h
  · cases h
  · cases h
  · cases h
  · cases h
  · exact h

theorem Event.calm_of_idle {e : Event} (h : e.idle = true) : e.calm = true := by
  simp only [Event.idle, Bool.and_eq_true] at h
  exact h.1

/-- What allows every common event allows the kinds above. -/
theorem always_calm (common : ∀ e, e.common = true → Always P e) (e : Event) (h : e.calm = true) :
    Always P e := common e (Event.common_of_calm h)

theorem always_idle (common : ∀ e, e.common = true → Always P e) (e : Event) (h : e.idle = true) :
    Always P e := always_calm common e (Event.calm_of_idle h)

theorem always_guards (common : ∀ e, e.common = true → Always P e) (e : Event) (h : e.guards = true) :
    Always P e := by
  refine common e ?_
  unfold Event.guards at h
  split at h
  · rfl
  · rfl
  · rfl
  · rfl
  · rfl
  · cases h

/-! ## Steps that only look -/

section
variable (x : Session)

theorem logs_checkName : Logs P (checkName x) := logs_primitive x (logs_pure ())

theorem logs_status (n : Name) : Logs P (status x n) := by
  refine logs_bind (logs_checkName x) fun _ => logs_primitive x (logs_bind (logs_read _) fun d => ?_)
  cases d.stat n with
  | none => exact logs_raise _
  | some s => exact logs_bind (logs_demand _ _) fun _ => logs_pure s

theorem logs_exists (n : Name) : Logs P (exists_ x n) :=
  logs_bind (logs_checkName x) fun _ => logs_primitive x (logs_read _)

theorem logs_same (n : Name) (expected : Stat) : Logs P (same x n expected) :=
  logs_bind (logs_status x n) fun _ => logs_demand _ _

theorem logs_checkOpened (n : Name) (i : Nat) : Logs P (checkOpened x n i) :=
  logs_bind (logs_primitive x (logs_read _)) fun _ =>
    logs_bind (logs_status x n) fun _ => logs_demand _ _

theorem logs_opened (n : Name) : Logs P (opened x n) := by
  refine logs_bind (logs_checkName x) fun _ => logs_bind (logs_primitive x ?_) fun i => ?_
  · refine logs_bind (logs_read _) fun d => ?_
    cases d.dir.visible n with
    | none => exact logs_raise _
    | some i => exact logs_pure i
  · exact logs_bind (logs_checkOpened x n i) fun _ => logs_pure i

theorem logs_readJournal : Logs P (readJournal x) := by
  refine logs_bind (logs_opened x .journal) fun i => ?_
  refine logs_bind (logs_primitive x (logs_read _)) fun file => ?_
  cases file.content with
  | journal j => exact logs_pure j
  | store _ => exact logs_raise _
  | other _ => exact logs_raise _

theorem logs_processes : Logs P (processes x) := logs_primitive x (logs_read _)

theorem logs_running : Logs P (running x) := logs_primitive x (logs_read _)

theorem logs_noKeytool : Logs P (noKeytool x) :=
  logs_bind (logs_processes x) fun _ => logs_demand _ _

/-- A proof that the service is stopped is the one thing it puts on record. -/
theorem stopped_proves (w : World) : Prog.Holds (stopped x)
    (fun _ t => Quiet w t ∧ Marks (fun e => e = ⟨.provenStopped, w.disk, .down, w.process⟩) w t ∧
      t.trace = ⟨.provenStopped, w.disk, .down, w.process⟩ :: w.trace)
    (fun _ => Marks (fun _ => False) w) (Marks (fun _ => False) w) w := by
  refine Prog.holds_bind_of (((reads_processes x w).and (logs_processes x w)).mono (fun b t h =>
    (⟨h.1.1, h.2.1, h.1.2⟩ : Quiet w t ∧ Marks (fun _ => False) w t ∧
      b = (w.service.java, w.service.keytool)))
    (fun _ _ h => h.2) fun _ h => h.2) fun ⟨java, keytool⟩ t ⟨same, marks, seen⟩ => ?_
  rw [Prog.holds_bind]
  refine (Prog.holds_guard _ _).mpr ⟨fun none => ?_, fun _ => marks⟩
  refine Prog.holds_bind_of (((reads_running x t).and (logs_running x t)).mono (fun b u h =>
    (⟨same.trans h.1.1, marks.trans h.2.1, h.1.2⟩ : Quiet w u ∧ Marks (fun _ => False) w u ∧
      b = t.service.up))
    (fun _ _ h => marks.trans h.2) fun _ h => marks.trans h.2) fun up u ⟨same', marks, up'⟩ => ?_
  rw [Prog.holds_bind]
  refine (Prog.holds_guard _ _).mpr ⟨fun down => ?_, fun _ => marks⟩
  have stopped : u.service = .down := by
    rw [same.service] at up'
    rw [same'.service]
    obtain ⟨rfl, rfl⟩ := Prod.mk.inj seen
    subst up'
    simp only [Bool.and_eq_true, Bool.not_eq_true'] at none down
    exact Service.ext down none.1 none.2
  have trace : (u.log .provenStopped).trace =
      ⟨.provenStopped, w.disk, .down, w.process⟩ :: w.trace := by
    rw [World.log, marks.silent, stopped, same'.disk, same'.process]
  exact ⟨same'.trans (quiet_log rfl rfl), ⟨⟨[_], trace, by simp⟩, marks.held, marks.locked,
    marks.expectStopped⟩, trace⟩

theorem logs_stopped (proven : Proven P) : Logs P (stopped x) := fun w =>
  (stopped_proves x w).mono
    (fun _ _ h => ⟨h.2.1.mono (by rintro _ rfl; exact proven _ _), trivial⟩)
    (fun _ _ h => h.mono fun _ no => no.elim) fun _ h => h.mono fun _ no => no.elim

theorem logs_assertLocked : Logs P assertLocked :=
  logs_bind (logs_read _) fun _ => logs_demand _ _

theorem logs_getJournal : Logs P getJournal := by
  refine logs_bind (logs_read _) fun p => ?_
  cases p.journal with
  | none => exact logs_raise _
  | some j => exact logs_pure j

theorem logs_clock : Logs P (clock x) :=
  logs_bind (logs_primitive x (logs_read _)) fun _ =>
    logs_bind (logs_primitive x (logs_read _)) fun _ => logs_pure _

theorem logs_list (n : Name) (listed : Always P (.keytool n .list)) : Logs P (keytool x n .list) := by
  refine logs_bind logs_assertLocked fun _ => logs_bind (logs_demand _ _) fun _ => ?_
  refine logs_bind (logs_primitive x (logs_pure ())) fun _ => logs_primitive x ?_
  refine logs_bind (logs_emit listed) fun _ => logs_bind (logs_read _) fun d => ?_
  cases d.inode n with
  | none => exact logs_raise _
  | some file =>
    simp only
    cases x.host.listing file.content with
    | none => exact logs_raise _
    | some output => exact logs_pure output

theorem logs_collect (n : Name) (listed : Always P (.keytool n .list)) : Logs P (collect x n) := by
  refine logs_bind logs_assertLocked fun _ => logs_bind (logs_demand _ _) fun _ => ?_
  refine logs_bind (logs_status x n) fun _ => logs_bind (logs_list x n listed) fun _ => ?_
  exact logs_bind (logs_same x n _) fun _ => logs_lift _

theorem logs_collectId (n : Name) (listed : Always P (.keytool n .list)) : Logs P (collectId x n) :=
  logs_bind (logs_collect x n listed) fun _ => logs_lift _

theorem logs_noTransaction : Logs P (noTransaction x) := by
  have absent (n : Name) (message : String) :
      Logs P (do if ← exists_ x n then refuse message) :=
    logs_bind (logs_exists x n) fun _ => logs_ite (logs_raise _) (logs_pure _)
  simp only [noTransaction, List.forM]
  refine logs_bind (absent .journal _) fun _ => logs_bind (absent .journalNew _) fun _ => ?_
  refine logs_bind (absent .stage _) fun _ => logs_bind (absent .rollback _) fun _ => logs_pure _

/-! ## Steps that change the disk -/

theorem logs_create (n : Name) (created : ∀ i, Always P (.created n i)) : Logs P (create x n) := by
  refine logs_bind (logs_checkName x) fun _ => ?_
  refine logs_bind (logs_primitive x ?_) fun i => ?_
  · refine logs_bind (logs_read _) fun d => ?_
    cases d.dir.visible n with
    | some _ => exact logs_raise _
    | none =>
      refine logs_bind (logs_emit (created _)) fun _ => ?_
      exact logs_bind (logs_update fun _ => ⟨rfl, rfl, rfl, rfl⟩) fun _ => logs_pure _
  refine logs_bind (logs_primitive x (logs_update fun _ => ⟨rfl, rfl, rfl, rfl⟩)) fun _ => ?_
  refine logs_bind (logs_primitive x (logs_update fun _ => ⟨rfl, rfl, rfl, rfl⟩)) fun _ => ?_
  exact logs_bind (logs_checkOpened x n i) fun _ => logs_pure _

theorem logs_write (i : Nat) (content : Content) (size : Nat) : Logs P (write x i content size) :=
  logs_bind (logs_primitive x (logs_bind (logs_read _) fun _ => logs_update fun _ => ⟨rfl, rfl, rfl, rfl⟩))
    fun _ => logs_primitive x (logs_update fun _ => ⟨rfl, rfl, rfl, rfl⟩)

theorem logs_fsyncFile (n : Name) (i : Nat) (synced : Always P (.syncedFile n i)) :
    Logs P (fsyncFile x n i) :=
  logs_primitive x (logs_bind (logs_emit synced) fun _ => logs_update fun _ => ⟨rfl, rfl, rfl, rfl⟩)

theorem logs_syncFile (n : Name) (synced : ∀ i, Always P (.syncedFile n i)) : Logs P (syncFile x n) :=
  logs_bind (logs_opened x n) fun i => logs_fsyncFile x n i (synced i)

theorem logs_syncDirectory (synced : Always P .syncedDirectory) : Logs P (syncDirectory x) :=
  logs_primitive x (logs_bind (logs_emit synced) fun _ => logs_update fun _ => ⟨rfl, rfl, rfl, rfl⟩)

theorem logs_replace (source target : Name) (renamed : ∀ i, Always P (.renamed source target i)) :
    Logs P (replace x source target) := by
  refine logs_bind (logs_demand _ _) fun _ => ?_
  refine logs_bind (logs_status x source) fun _ => logs_primitive x ?_
  refine logs_bind (logs_read _) fun d => ?_
  cases d.dir.visible source with
  | none => exact logs_raise _
  | some i => exact logs_bind (logs_emit (renamed i)) fun _ => logs_update fun _ => ⟨rfl, rfl, rfl, rfl⟩

theorem logs_remove (n : Name) (unlinked : Always P (.unlinked n)) : Logs P (remove x n) := by
  refine logs_bind (logs_demand _ _) fun _ => ?_
  refine logs_bind (logs_exists x n) fun b => logs_ite ?_ (logs_pure _)
  refine logs_bind (logs_status x n) fun _ => logs_primitive x ?_
  refine logs_bind (logs_read _) fun d => ?_
  cases d.dir.visible n with
  | none => exact logs_raise _
  | some i => exact logs_bind (logs_emit unlinked) fun _ => logs_update fun _ => ⟨rfl, rfl, rfl, rfl⟩

theorem logs_linkRollback (linked : ∀ i, Always P (.linked .rollback i)) : Logs P (linkRollback x) := by
  refine logs_bind (logs_status x .canonical) fun _ => logs_primitive x ?_
  refine logs_bind (logs_read _) fun d => ?_
  cases d.dir.visible .canonical with
  | none => exact logs_raise _
  | some i =>
    cases d.dir.visible .rollback with
    | some _ => exact logs_raise _
    | none => exact logs_bind (logs_emit (linked i)) fun _ => logs_update fun _ => ⟨rfl, rfl, rfl, rfl⟩

theorem logs_writeJournal (v : Journal) (scribes : ∀ e, e.scribes = true → Always P e) :
    Logs P (writeJournal x v) := by
  refine logs_bind (logs_emit (scribes _ rfl)) fun _ => ?_
  refine logs_bind (logs_primitive x (logs_read _)) fun size => ?_
  refine logs_bind (logs_remove x _ (scribes _ rfl)) fun _ => ?_
  refine logs_bind (logs_create x _ fun _ => scribes _ rfl) fun i => ?_
  refine logs_bind (logs_write x i _ size) fun _ => ?_
  refine logs_bind (logs_fsyncFile x _ i (scribes _ rfl)) fun _ => ?_
  refine logs_bind (logs_replace x _ _ fun _ => scribes _ rfl) fun _ => ?_
  exact logs_syncDirectory x (scribes _ rfl)

theorem logs_phase (p : Phase) (f : Journal → Journal) (scribes : ∀ e, e.scribes = true → Always P e) :
    Logs P (phase x p f) := by
  refine logs_bind logs_getJournal fun j => ?_
  refine logs_bind (logs_update fun _ => ⟨rfl, rfl, rfl, rfl⟩) fun _ => ?_
  exact logs_bind (logs_lift _) fun _ => logs_writeJournal x _ scribes

/-! ## The service and the lock -/

theorem logs_stop (stop : Always P .stopIssued) (proven : Proven P) :
    Logs P (CertRenewer.stop x) := by
  refine logs_bind (logs_noKeytool x) fun _ => ?_
  refine logs_bind (logs_primitive x ?_) fun _ => logs_stopped x proven
  refine logs_bind (logs_emit stop) fun _ => ?_
  exact logs_bind (logs_read _) fun _ => logs_update fun _ => ⟨rfl, rfl, rfl, rfl⟩

theorem logs_start (start : Always P .startIssued) : Logs P (CertRenewer.start x) := by
  refine logs_bind (logs_noKeytool x) fun _ => ?_
  refine logs_bind (logs_primitive x ?_) fun _ => ?_
  · exact logs_bind (logs_emit start) fun _ => logs_update fun _ => ⟨rfl, rfl, rfl, rfl⟩
  · refine logs_bind (logs_running x) fun _ => logs_bind (logs_demand _ _) fun _ => ?_
    exact logs_bind (logs_processes x) fun _ => logs_demand _ _

end

section
variable (x : Session) (idle : ∀ e, e.idle = true → Always P e)
include idle

theorem logs_establish : Logs P (establishLiveVerifiedDurability x) := by
  refine logs_bind logs_getJournal fun j => logs_bind (logs_demand _ _) fun _ => ?_
  refine logs_bind (logs_status x .journal) fun info => ?_
  refine logs_bind (logs_syncFile x .journal fun _ => idle _ rfl) fun _ => ?_
  refine logs_bind (logs_same x .journal info) fun _ => ?_
  exact logs_bind (logs_syncDirectory x (idle _ rfl)) fun _ => logs_same x .journal info

theorem logs_finishLiveVerified : Logs P (finishLiveVerified x) := by
  refine logs_bind logs_getJournal fun j => logs_bind (logs_demand _ _) fun _ => ?_
  refine logs_bind (logs_remove x .rollback (idle _ rfl)) fun _ => ?_
  refine logs_bind (logs_syncDirectory x (idle _ rfl)) fun _ => ?_
  refine logs_bind (logs_remove x .journal (idle _ rfl)) fun _ => ?_
  exact logs_syncDirectory x (idle _ rfl)

end

/-! ## The two halves of taking the lock -/

/-- `acquire` up to the lock's file. -/
def findLock (x : Session) : Exec Unit := do
  primitive x (pure ())
  primitive x (pure ())
  if !(← exists_ x .lock) then
    let _ ← create x .lock
    syncDirectory x
  let i ← primitive x do
    let d ← Prog.read World.disk
    match d.dir.visible .lock with
    | none => Prog.raise .os
    | some i => pure i
  let expected ← status x .lock
  demand (i = expected.ino) "executor lock replaced"

def takeLock (x : Session) : Exec Unit := primitive x do
  let w ← Prog.read id
  Prog.guard (!w.held) .os
  emit .acquired
  setProcess fun p => { p with locked := true, expectStopped := false }

theorem bind_three {α β γ δ : Type} (p : Exec α) (q : Exec β) (d : α → β → Exec γ) (k : γ → Exec δ) :
    (p >>= fun a => q >>= fun b => d a b) >>= k = p >>= fun a => q >>= fun b => d a b >>= k := by
  simp only [Prog.bind_assoc]

theorem acquire_eq (x : Session) :
    acquire x = findLock x >>= fun _ => takeLock x >>= fun _ => noKeytool x := by
  unfold acquire findLock takeLock
  simp only [Prog.bind_assoc]
  congr 1; funext _
  congr 1; funext _
  congr 1; funext b
  cases b with
  | true => exact (bind_three _ _ _ _).symm
  | false =>
    refine Eq.symm ((bind_three _ _ _ _).trans ?_)
    congr 1; funext _
    congr 1; funext _
    exact bind_three _ _ _ _

theorem logs_findLock (x : Session) (created : ∀ i, Always P (.created .lock i))
    (synced : Always P .syncedDirectory) : Logs P (findLock x) := by
  have nothing : Logs P (primitive x (pure ())) := logs_primitive x (logs_pure ())
  refine logs_bind nothing fun _ => logs_bind nothing fun _ => ?_
  refine logs_bind (logs_exists x .lock) fun b => ?_
  have rest : Logs P (do
      let i ← primitive x do
        let d ← Prog.read World.disk
        match d.dir.visible .lock with
        | none => Prog.raise .os
        | some i => pure i
      let expected ← status x .lock
      demand (i = expected.ino) "executor lock replaced") := by
    refine logs_bind (logs_primitive x (logs_bind (logs_read _) fun d => ?_)) fun i => ?_
    · cases d.dir.visible .lock with
      | none => exact logs_raise _
      | some i => exact logs_pure i
    exact logs_bind (logs_status x .lock) fun _ => logs_demand _ _
  cases b with
  | true => exact rest
  | false =>
    refine logs_bind (logs_create x .lock created) fun _ => ?_
    exact logs_bind (logs_syncDirectory x synced) fun _ => rest

theorem logs_begin (x : Session) (idle : ∀ e, e.idle = true → Always P e) (expected : PublicKeystoreState) :
    Logs P (begin_ x expected) := by
  refine logs_bind (logs_noTransaction x) fun _ => logs_bind (logs_status x .canonical) fun _ => ?_
  refine logs_bind (logs_collect x .canonical (idle _ rfl)) fun _ => ?_
  refine logs_bind (logs_same x .canonical _) fun _ => ?_
  refine logs_bind (logs_lift _) fun _ => logs_bind (logs_demand _ _) fun _ => ?_
  refine logs_bind (logs_demand _ _) fun _ => logs_bind (logs_read _) fun _ => ?_
  refine logs_bind (logs_update fun _ => ⟨rfl, rfl, rfl, rfl⟩) fun _ => ?_
  refine logs_bind (logs_running x) fun _ => logs_bind (logs_lift _) fun _ => ?_
  refine logs_bind (logs_update fun _ => ⟨rfl, rfl, rfl, rfl⟩) fun _ => ?_
  exact logs_bind (logs_phase x _ _ fun e h => idle e (Event.idle_of_scribes h)) fun _ => logs_pure _

section
variable (x : Session) (guards : ∀ e, e.guards = true → Always P e)
include guards

theorem emits_acquire : Emits P (acquire x) := by
  rw [acquire_eq]
  refine emits_bind (logs_findLock x (fun _ => guards _ rfl) (guards _ rfl)).emits fun _ => ?_
  refine emits_bind (emits_primitive x ?_) fun _ => (logs_noKeytool x).emits
  refine emits_bind (logs_read _).emits fun _ => emits_bind (logs_guard _ _).emits fun _ => ?_
  exact emits_bind (logs_emit (guards _ rfl)).emits fun _ => emits_update fun _ => rfl

theorem emits_release : Emits P (release x) := by
  refine emits_bind (logs_read _).emits fun p => emits_ite ?_ (logs_pure _).emits
  refine emits_bind (emits_handle ?_ fun _ => ?_) fun _ => ?_
  · refine emits_bind (logs_noKeytool x).emits fun _ => ?_
    exact emits_ite (logs_stopped x (guards .provenStopped rfl).proven).emits (logs_pure _).emits
  · exact emits_bind (emits_update fun _ => rfl) fun _ => (logs_raise _).emits
  · exact emits_bind (logs_emit (guards .released rfl)).emits fun _ => emits_update fun _ => rfl

theorem emits_locked {body : Exec α} (h : Emits P body) : Emits P (locked x body) :=
  emits_ensure
    (emits_handle (emits_bind (emits_acquire x guards) fun _ => h) fun _ => (logs_raise _).emits)
    (emits_release x guards)

end

theorem emits_resumeService (x : Session) (common : ∀ e, e.common = true → Always P e)
    (startup : Bool) : Emits P (resumeService x startup) := by
  refine emits_bind (logs_stopped x (common .provenStopped rfl).proven).emits fun _ => ?_
  refine emits_bind (logs_status x .canonical).emits fun before => ?_
  refine emits_bind (logs_collect x .canonical (common _ rfl)).emits fun state => ?_
  refine emits_bind (logs_lift _).emits fun seen => emits_bind logs_getJournal.emits fun j => ?_
  have tail : Emits P (do
      same x .canonical before
      let again ← lift (publicId x.host.lib (← collect x .canonical))
      demand (again = seen) "canonical changed while restoring service") := by
    refine emits_bind (logs_same x .canonical before).emits fun _ => ?_
    refine emits_bind (logs_collect x .canonical (common _ rfl)).emits fun state => ?_
    exact emits_bind (logs_lift _).emits fun _ => (logs_demand _ _).emits
  split
  · refine emits_bind (logs_start x (common _ rfl)).emits fun _ => ?_
    exact emits_bind (emits_update fun _ => rfl) fun _ => tail
  · exact tail

end CertRenewer
