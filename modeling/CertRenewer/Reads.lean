import CertRenewer.Tidy

/-!
# Steps that only look

Most steps of an operation look at the disk, the service or the executor itself
and change none of them. `Reads m P` says that `m` is such a step however it
ends, and that a value it returns satisfies `P` of what it looked at.
-/

namespace CertRenewer

open Crash

/-- What a step can look at. -/
structure View where
  disk : Disk
  process : Process
  service : Service

def World.view (w : World) : View := ⟨w.disk, w.process, w.service⟩

@[simp] theorem World.view_disk (w : World) : w.view.disk = w.disk := rfl
@[simp] theorem World.view_process (w : World) : w.view.process = w.process := rfl
@[simp] theorem World.view_service (w : World) : w.view.service = w.service := rfl

/-- Events that no request has a part in. -/
def Event.common : Event → Bool
  | .keytool _ (.importcert _) | .keytool _ (.certreq _ _) | .stageVerified _ _ _ | .stamped _ => false
  | _ => true

/-- Only events with `P` are new. -/
def Extends (P : Event → Prop) (w t : World) : Prop :=
  ∃ new, t.trace = new ++ w.trace ∧ ∀ e ∈ new, P e.event

theorem Extends.refl (P : Event → Prop) (w : World) : Extends P w w := ⟨[], rfl, by simp⟩

theorem Extends.trans {P : Event → Prop} {w t u : World} (h : Extends P w t) (k : Extends P t u) :
    Extends P w u := by
  obtain ⟨new, hn, old⟩ := h
  obtain ⟨newer, hm, recent⟩ := k
  refine ⟨newer ++ new, by rw [hm, hn, List.append_assoc], fun e he => ?_⟩
  rcases List.mem_append.mp he with mem | mem
  · exact recent e mem
  · exact old e mem

theorem Extends.mono {P P' : Event → Prop} {w t : World} (h : Extends P w t)
    (weaken : ∀ e, P e → P' e) : Extends P' w t := by
  obtain ⟨new, hn, old⟩ := h
  exact ⟨new, hn, fun e he => weaken _ (old e he)⟩

theorem Extends.suffix {P : Event → Prop} {w t : World} (h : Extends P w t) :
    w.trace <:+ t.trace := by
  obtain ⟨new, hn, _⟩ := h
  exact ⟨new, hn.symm⟩

structure Quiet (w t : World) : Prop extends Steady w t where
  process : t.process = w.process
  service : t.service = w.service
  common : Extends (fun e => e.common = true) w t

theorem Quiet.refl (w : World) : Quiet w w := ⟨Steady.refl w, rfl, rfl, Extends.refl _ w⟩

theorem Quiet.trans {w t u : World} (h : Quiet w t) (k : Quiet t u) : Quiet w u :=
  ⟨h.toSteady.trans k.toSteady, k.process.trans h.process, k.service.trans h.service,
    h.common.trans k.common⟩

theorem Quiet.view {w t : World} (h : Quiet w t) : t.view = w.view := by
  simp only [World.view, h.disk, h.process, h.service]

theorem quiet_tick (w : World) : Quiet w { w with tick := w.tick + 1 } :=
  ⟨⟨rfl, rfl, rfl, rfl, [], rfl, by simp⟩, rfl, rfl, [], rfl, by simp⟩

theorem steady_log {w : World} {e : Event} (plain : e.plain = true) : Steady w (w.log e) :=
  ⟨rfl, rfl, rfl, rfl, [⟨e, w.disk, w.service, w.process⟩], rfl, by simp [plain]⟩

theorem quiet_log {w : World} {e : Event} (plain : e.plain = true) (common : e.common = true) :
    Quiet w (w.log e) :=
  ⟨steady_log plain, rfl, rfl, [⟨e, w.disk, w.service, w.process⟩], rfl, by simp [common]⟩

variable {α β : Type}

def Reads (m : Exec α) (P : α → View → Prop) : Prop := Prog.Yields Quiet m fun a w => P a w.view

/-- A step that keeps the disk and the journal in memory, but may change the
service. -/
abbrev Steadies (m : Exec α) : Prop := Prog.Yields Steady m fun _ _ => True

section
variable {m : Exec α} {P P' : α → View → Prop}

theorem Reads.mono (h : Reads m P) (weaken : ∀ a v, P a v → P' a v) : Reads m P' :=
  Prog.Yields.mono h fun a w => weaken a w.view

theorem reads_pure (a : α) : Reads (pure a) fun b _ => b = a := Prog.yields_pure Quiet.refl a

theorem reads_lift (r : Result α) : Reads (lift r) fun a _ => r = .ok a :=
  Prog.yields_ofExcept Quiet.refl r

theorem reads_demand (p : Prop) [Decidable p] (message : String) :
    Reads (demand p message) fun _ _ => p := Prog.yields_guard Quiet.refl p _

theorem reads_refuse (message : String) : Reads (refuse message : Exec α) fun _ _ => False :=
  Prog.yields_raise Quiet.refl _

theorem reads_raise (e : Error) : Reads (Prog.raise e : Exec α) fun _ _ => False :=
  Prog.yields_raise Quiet.refl e

theorem reads_view (f : View → α) : Reads (Prog.read fun w => f w.view) fun a v => a = f v :=
  fun w => ⟨Quiet.refl w, rfl⟩

theorem reads_emit {e : Event} (plain : e.plain = true) (common : e.common = true) :
    Reads (emit e) fun _ _ => True := fun _ => ⟨quiet_log plain common, trivial⟩

/-- One primitive step within a relation that does not see the step counter. -/
theorem yields_primitive {R : World → World → Prop} {S : α → World → Prop} (x : Session)
    (trans : ∀ a b c, R a b → R b c → R a c) (tick : ∀ w : World, R w { w with tick := w.tick + 1 })
    (back : ∀ a (w : World), S a { w with tick := w.tick + 1 } → S a w) (h : Prog.Yields R m S) :
    Prog.Yields R (primitive x m) S := by
  intro w
  change Prog.Holds (Prog.interrupted .os m (x.oracle.verdict w.tick)) _ _ _ { w with tick := w.tick + 1 }
  have effect : Prog.Holds m (fun a t => R w t ∧ S a w) (fun _ t => R w t) (fun t => R w t)
      { w with tick := w.tick + 1 } :=
    (h _).mono (fun a t ht => ⟨trans _ _ _ (tick w) ht.1, back a w ht.2⟩)
      (fun _ t ht => trans _ _ _ (tick w) ht) (fun t ht => trans _ _ _ (tick w) ht)
  exact Prog.holds_interrupted _ effect (fun _ => ⟨tick w, tick w⟩) fun _ _ _ ht => ⟨ht.1, ht.1⟩

theorem reads_bind {f : β → Exec α} {m : Exec β} {S : β → View → Prop} {T : β → α → View → Prop}
    (h : Reads m S) (hf : ∀ b, Reads (f b) (T b)) :
    Reads (m >>= f) fun a v => ∃ b, S b v ∧ T b a v :=
  Prog.yields_bind (fun _ _ _ p q => p.trans q) h hf fun _ _ _ _ q ht => by
    rw [← q.view]
    exact ht

/-- The rest of a step may use what its first part found. -/
theorem reads_then {f : β → Exec α} {m : Exec β} {S : β → View → Prop} (h : Reads m S)
    (hf : ∀ b, Reads (f b) fun a v => S b v → P a v) : Reads (m >>= f) P :=
  (reads_bind h hf).mono fun _ _ ⟨_, hs, ht⟩ => ht hs

theorem reads_handle {h : Error → Exec α} (first : Reads m P) (rescue : ∀ e, Reads (h e) P) :
    Reads (Prog.handle m h) P :=
  (Prog.yields_handle (fun _ _ _ p q => p.trans q) first rescue fun _ _ _ q ht => by
    rw [← q.view]
    exact ht).mono fun _ _ either => either.elim id id

theorem reads_primitive (x : Session) (h : Reads m P) : Reads (primitive x m) P :=
  yields_primitive x (fun _ _ _ p q => p.trans q) quiet_tick (fun _ _ hs => hs) h

theorem Reads.steady (h : Reads m P) : Steadies m := fun w =>
  (h w).mono (fun _ _ q => ⟨q.1.toSteady, trivial⟩) (fun _ _ q => q.toSteady) fun _ q => q.toSteady

theorem steadies_bind {f : β → Exec α} {m : Exec β} (h : Steadies m) (hf : ∀ b, Steadies (f b)) :
    Steadies (m >>= f) :=
  (Prog.yields_bind (fun _ _ _ p q => p.trans q) h hf fun _ _ _ _ _ ht => ht).mono
    fun _ _ _ => trivial

theorem steadies_primitive (x : Session) (h : Steadies m) : Steadies (primitive x m) :=
  yields_primitive x (fun _ _ _ p q => p.trans q) (fun w => (quiet_tick w).toSteady)
    (fun _ _ hs => hs) h

/-! ## In front of the rest

`K` is what holds at this point and survives a step that only looks; `I` is what
has to hold wherever the operation stops. -/

variable {K I : World → Prop} {Q : α → World → Prop} {w : World}

theorem Reads.keeps {S : α → View → Prop} (h : Reads m S)
    (stable : ∀ s t, Quiet s t → K s → K t) (stop : ∀ t, K t → I t) (now : K w) :
    Prog.Holds m (fun a t => K t ∧ S a t.view) (fun _ => I) I w :=
  (h w).mono (fun a t q => ⟨stable w t q.1 now, by rw [q.1.view]; exact q.2⟩)
    (fun _ t q => stop t (stable w t q now)) fun t q => stop t (stable w t q now)

theorem Steadies.keeps (h : Steadies m) (stable : ∀ s t, Steady s t → K s → K t)
    (stop : ∀ t, K t → I t) (now : K w) : Prog.Holds m (fun _ => K) (fun _ => I) I w :=
  (h w).mono (fun _ t q => stable w t q.1 now) (fun _ t q => stop t (stable w t q now))
    fun t q => stop t (stable w t q now)

/-- One primitive step: what held before it is what a failure before its effect
leaves, what holds after it what a failure after its effect leaves. -/
theorem holds_primitive (x : Session) {S : α → World → Prop}
    (stable : ∀ s t, Quiet s t → K s → K t) (stop : ∀ t, K t → I t) (now : K w)
    (effect : ∀ t, K t → Prog.Holds m S (fun _ => I) I t) (after : ∀ a t, S a t → I t) :
    Prog.Holds (primitive x m) S (fun _ => I) I w := by
  have ticked : K { w with tick := w.tick + 1 } := stable _ _ (quiet_tick w) now
  exact Prog.holds_interrupted _ (effect _ ticked) (fun _ => ⟨stop _ ticked, stop _ ticked⟩)
    fun _ a t hs => ⟨after a t hs, after a t hs⟩

end

/-! ## The looking steps of the executor -/

section
variable (x : Session)

theorem reads_checkName : Reads (checkName x) fun _ _ => True :=
  (reads_primitive x (reads_pure ())).mono fun _ _ _ => trivial

theorem reads_status (n : Name) :
    Reads (status x n) fun s v => v.disk.stat n = some s ∧ s.safe n v.disk.dev = true := by
  refine reads_then (reads_checkName x) fun _ => reads_primitive x ?_
  refine reads_then (reads_view View.disk) fun d => ?_
  cases found : d.stat n with
  | none => exact (reads_raise _).mono fun _ _ no => no.elim
  | some s =>
    refine reads_then (reads_demand _ _) fun _ => (reads_pure s).mono ?_
    rintro _ v rfl safe rfl _
    exact ⟨found, safe⟩

theorem reads_exists (n : Name) :
    Reads (exists_ x n) fun b v => b = (v.disk.dir.visible n).isSome :=
  reads_then (reads_checkName x) fun _ =>
    (reads_primitive x (reads_view fun v => (v.disk.dir.visible n).isSome)).mono fun _ _ h _ => h

theorem reads_same (n : Name) (expected : Stat) :
    Reads (same x n expected) fun _ v =>
      v.disk.stat n = some expected ∧ expected.safe n v.disk.dev = true :=
  reads_then (reads_status x n) fun s => (reads_demand (s = expected) _).mono fun _ _ eq found => by
    subst eq
    exact found

theorem reads_checkOpened (n : Name) (i : Nat) :
    Reads (checkOpened x n i) fun _ v => ∃ s, v.disk.stat n = some s ∧ s.safe n v.disk.dev = true := by
  refine reads_then (reads_primitive x (reads_view fun v => v.disk.statOf i)) fun opened => ?_
  refine reads_then (reads_status x n) fun named => ?_
  exact (reads_demand (opened = named) _).mono fun _ _ _ found _ => ⟨named, found⟩

theorem reads_opened (n : Name) : Reads (opened x n) fun i v => v.disk.dir.visible n = some i ∧
    ∃ s, v.disk.stat n = some s ∧ s.safe n v.disk.dev = true := by
  refine reads_then (reads_checkName x) fun _ => ?_
  refine reads_then (S := fun i v => v.disk.dir.visible n = some i)
    (reads_primitive x (reads_then (reads_view View.disk) fun d => ?_)) fun i =>
      reads_then (reads_checkOpened x n i) fun _ => ?_
  · cases seen : d.dir.visible n with
    | none => exact (reads_raise _).mono fun _ _ no => no.elim
    | some i =>
      refine (reads_pure i).mono ?_
      rintro _ v rfl rfl
      exact seen
  · refine (reads_pure i).mono ?_
    rintro _ v rfl safe seen _
    exact ⟨seen, safe⟩

theorem reads_readJournal : Reads (readJournal x) fun j v =>
    ∃ i, v.disk.dir.visible .journal = some i ∧ (v.disk.files i).content = .journal j := by
  refine reads_then (reads_opened x .journal) fun i => ?_
  refine reads_then (reads_primitive x (reads_view fun v => v.disk.files i)) fun file => ?_
  cases content : file.content with
  | journal j =>
    refine (reads_pure j).mono ?_
    rintro _ v rfl rfl seen
    exact ⟨i, seen.1, content⟩
  | store _ => exact (reads_raise _).mono fun _ _ no => no.elim
  | other _ => exact (reads_raise _).mono fun _ _ no => no.elim

theorem reads_processes :
    Reads (processes x) fun b v => b = (v.service.java, v.service.keytool) :=
  reads_primitive x (reads_view fun v => (v.service.java, v.service.keytool))

theorem reads_running : Reads (running x) fun b v => b = v.service.up :=
  reads_primitive x (reads_view fun v => v.service.up)

theorem reads_noKeytool : Reads (noKeytool x) fun _ v => v.service.keytool = false := by
  refine reads_then (reads_processes x) fun ⟨java, keytool⟩ => ?_
  refine (reads_demand _ _).mono ?_
  rintro _ v none eq
  obtain ⟨_, rfl⟩ := Prod.mk.inj eq
  simpa using none

theorem reads_stopped : Reads (stopped x) fun _ v =>
    v.service.java = false ∧ v.service.keytool = false ∧ v.service.up = false := by
  refine reads_then (reads_processes x) fun ⟨java, keytool⟩ => ?_
  refine reads_then (reads_demand _ _) fun _ => reads_then (reads_running x) fun up => ?_
  refine reads_then (reads_demand _ _) fun _ => (reads_emit rfl rfl).mono ?_
  rintro _ v _ down rfl none eq
  obtain ⟨rfl, rfl⟩ := Prod.mk.inj eq
  simpa [and_assoc] using And.intro none down

theorem reads_assertLocked : Reads assertLocked fun _ v => v.process.locked = true := by
  refine reads_then (reads_view View.process) fun p => (reads_demand _ _).mono ?_
  rintro _ v locked rfl
  exact locked

theorem reads_getJournal : Reads getJournal fun j v => v.process.journal = some j := by
  refine reads_then (reads_view View.process) fun p => ?_
  cases held : p.journal with
  | none => exact (reads_refuse _).mono fun _ _ no => no.elim
  | some j =>
    refine (reads_pure j).mono ?_
    rintro _ v rfl rfl
    exact held

theorem reads_clock : Reads (clock x) fun _ _ => True := by
  have tick : Reads (primitive x (Prog.read fun w => x.oracle.clock w.tick)) fun _ _ => True :=
    reads_primitive x fun w => ⟨Quiet.refl w, trivial⟩
  exact reads_then tick fun _ => reads_then tick fun _ => (reads_pure _).mono fun _ _ _ _ _ => trivial

theorem reads_list (n : Name) : Reads (keytool x n .list) fun output v =>
    ∃ file, v.disk.inode n = some file ∧ x.host.listing file.content = some output := by
  refine reads_then reads_assertLocked fun _ => reads_then (reads_demand _ _) fun _ => ?_
  refine reads_then (reads_primitive x (reads_pure ())) fun _ => ?_
  refine reads_primitive x (reads_then (reads_emit rfl rfl) fun _ => ?_)
  refine reads_then (reads_view View.disk) fun d => ?_
  cases found : d.inode n with
  | none => exact (reads_raise _).mono fun _ _ no => no.elim
  | some file =>
    simp only
    cases listed : x.host.listing file.content with
    | none => exact (reads_raise _).mono fun _ _ no => no.elim
    | some output =>
      refine (reads_pure output).mono ?_
      rintro _ v rfl rfl _ _ _ _
      exact ⟨file, found, listed⟩

/-- What a collection found: the name's file, and the state its content shows. -/
def Found (d : Disk) (n : Name) (state : PublicKeystoreState) : Prop :=
  ∃ i, d.dir.visible n = some i ∧ x.host.read (d.files i).content = some state

theorem reads_collect (n : Name) : Reads (collect x n) fun state v => Found x v.disk n state := by
  refine reads_then reads_assertLocked fun _ => reads_then (reads_demand _ _) fun _ => ?_
  refine reads_then (reads_status x n) fun before => reads_then (reads_list x n) fun data => ?_
  refine reads_then (reads_same x n before) fun _ => (reads_lift _).mono ?_
  rintro state v parsed _ ⟨file, inode, listed⟩ _ _ _
  obtain ⟨i, seen, rfl⟩ := Option.map_eq_some_iff.mp inode
  refine ⟨i, seen, ?_⟩
  simp only [Host.read, listed, parsed]

theorem reads_collectId (n : Name) : Reads (collectId x n) fun id v =>
    ∃ i, v.disk.dir.visible n = some i ∧ x.host.Reads (v.disk.files i).content id := by
  refine reads_then (reads_collect x n) fun state => (reads_lift _).mono ?_
  rintro id v named ⟨i, seen, read⟩
  exact ⟨i, seen, state, read, named⟩

theorem reads_absent (n : Name) (message : String) :
    Reads (do if ← exists_ x n then refuse message) fun _ v => v.disk.dir.visible n = none := by
  refine reads_then (reads_exists x n) fun b => ?_
  cases b with
  | true => exact (reads_refuse _).mono fun _ _ no => no.elim
  | false =>
    refine (reads_pure ()).mono fun _ v _ eq => ?_
    simpa using eq.symm

theorem reads_noTransaction : Reads (noTransaction x) fun _ v =>
    v.disk.dir.visible .journal = none ∧ v.disk.dir.visible .journalNew = none ∧
      v.disk.dir.visible .stage = none ∧ v.disk.dir.visible .rollback = none := by
  simp only [noTransaction, List.forM]
  refine reads_then (reads_absent x .journal _) fun _ => ?_
  refine reads_then (reads_absent x .journalNew _) fun _ => ?_
  refine reads_then (reads_absent x .stage _) fun _ => ?_
  refine reads_then (reads_absent x .rollback _) fun _ => (reads_pure ()).mono ?_
  exact fun _ v _ rollback stage new journal => ⟨journal, new, stage, rollback⟩

/-! ## The service -/

theorem steadies_service (f : Service → Service) : Steadies (setService f) :=
  fun _ => ⟨⟨rfl, rfl, rfl, rfl, [], rfl, by simp⟩, trivial⟩

/-- A change of the executor object that leaves its journal and its lock. -/
theorem steadies_process {f : Process → Process}
    (kept : ∀ p, (f p).journal = p.journal ∧ (f p).locked = p.locked) : Steadies (setProcess f) :=
  fun w => ⟨⟨rfl, (kept w.process).1, (kept w.process).2, rfl, [], rfl, by simp⟩, trivial⟩

theorem steadies_certreq (n : Name) (dname ext : String) :
    Steadies (keytool x n (.certreq dname ext)) := by
  refine steadies_bind reads_assertLocked.steady fun _ => ?_
  refine steadies_bind (reads_demand _ _).steady fun _ => ?_
  refine steadies_bind (reads_primitive x (reads_pure ())).steady fun _ => ?_
  exact steadies_primitive x (steadies_bind (fun w => ⟨steady_log rfl, trivial⟩) fun _ =>
    fun w => ⟨Steady.refl w, trivial⟩)

theorem steadies_stop : Steadies (stop x) := by
  refine steadies_bind (reads_noKeytool x).steady fun _ => ?_
  refine steadies_bind (steadies_primitive x ?_) fun _ => (reads_stopped x).steady
  refine steadies_bind (reads_emit rfl rfl).steady fun _ => ?_
  exact steadies_bind (fun w => ⟨Steady.refl w, trivial⟩) fun _ => steadies_service _

theorem steadies_start : Steadies (start x) := by
  refine steadies_bind (reads_noKeytool x).steady fun _ => ?_
  refine steadies_bind (steadies_primitive x ?_) fun _ => ?_
  · exact steadies_bind (reads_emit rfl rfl).steady fun _ => steadies_service _
  · refine steadies_bind (reads_running x).steady fun up => ?_
    refine steadies_bind (reads_demand _ _).steady fun _ => ?_
    exact steadies_bind (reads_processes x).steady fun _ => (reads_demand _ _).steady

theorem steadies_resumeService (startup : Bool) : Steadies (resumeService x startup) := by
  refine steadies_bind (reads_stopped x).steady fun _ => ?_
  refine steadies_bind (reads_status x .canonical).steady fun before => ?_
  refine steadies_bind (reads_collect x .canonical).steady fun state => ?_
  refine steadies_bind (reads_lift _).steady fun seen => ?_
  refine steadies_bind reads_getJournal.steady fun j => ?_
  have tail : Steadies (do
      same x .canonical before
      let again ← lift (publicId x.host.lib (← collect x .canonical))
      demand (again = seen) "canonical changed while restoring service") := by
    refine steadies_bind (reads_same x .canonical before).steady fun _ => ?_
    refine steadies_bind (reads_collect x .canonical).steady fun state => ?_
    exact steadies_bind (reads_lift _).steady fun _ => (reads_demand _ _).steady
  split
  · refine steadies_bind (steadies_start x) fun _ => ?_
    exact steadies_bind (steadies_process fun _ => ⟨rfl, rfl⟩) fun _ => tail
  · exact tail

end

end CertRenewer
