import CertRenewer.Sharing

/-!
# One service at a time

Each call of a service process is one of those it may make, whatever the other
processes do in between. So every run, of any number of them, keeps what each
keeps.
-/

namespace CertRenewer.Listener

open Concurrent

/-! ## The program -/

open Concurrent.Process hiding ask
open Machine

section
variable {T : Prop} {i k n : Nat} {m t : Machine} {d : Status} {u : Nat}

def Invariant (T : Prop) (m : Machine) : Prop := m.Inv ∧ (T → m.Tidy)

abbrev contract (T : Prop) (i : Nat) : Contract Machine := ⟨Invariant T, Seen i, Within i⟩

/-- The rule for one call that fails alike before and after its effect. -/
theorem asks {c : Call} {H : Machine → Prop} {Q : Answer c → Machine → Prop} {E : Fault → Machine → Prop}
    (stable : ∀ m t, Seen i m t → H m → H t) (here : H m) (fails : ∀ m e, H m → E e m)
    (done : ∀ m n, H m → m.Inv → m.Unused n → Within i m (m.perform i n c).2 ∧
      (∀ a, (m.perform i n c).1 = .ok a → Q a (m.perform i n c).2) ∧ ∀ e, E e (m.perform i n c).2) :
    Upholds platform i (contract T i) Q E (ask c) m := by
  refine upholds_ask stable here ?_ ?_
  · intro m e known inv _
    exact ⟨.refl inv.1, fails m e known⟩
  · rintro m r t known inv ⟨n, unused, run⟩
    obtain ⟨within, value, failure⟩ := done m n known inv.1 unused
    rw [run] at within value failure
    exact ⟨within, value, fun e _ => failure e, fun e _ => failure e⟩

/-- The rule for a call that only looks. -/
theorem reads {c : Call} {H : Machine → Prop} {Q : Answer c → Machine → Prop} {E : Fault → Machine → Prop}
    (looks : ∀ (m : Machine) (n : Nat), (m.perform i n c).2 = m)
    (stable : ∀ m t, Seen i m t → H m → H t) (here : H m) (fails : ∀ m e, H m → E e m)
    (value : ∀ m n a, H m → (m.perform i n c).1 = .ok a → Q a m) :
    Upholds platform i (contract T i) Q E (ask c) m := by
  refine asks stable here fails ?_
  intro m n known inv _
  rw [looks m n]
  exact ⟨.refl inv, fun a run => value m n a known run, fun e => fails m e known⟩

theorem looks_stat (name : Entry) (m : Machine) (n : Nat) : (m.perform i n (.stat name)).2 = m := by
  simp only [perform]
  split <;> rfl

theorem looks_fstat (m : Machine) (n : Nat) : (m.perform i n .fstat).2 = m := by
  simp only [perform]
  split <;> rfl

/-- The `finally` block can be entered. -/
structure Cleanable (i : Nat) (m : Machine) : Prop where
  identity : (m.instances i).locals.identity ≠ none → m.Holds i
  listener : (m.instances i).locals.listener = false → m.Quiet i

theorem Cleanable.seen (h : Seen i m t) (c : Cleanable i m) : Cleanable i t := by
  refine ⟨?_, ?_⟩
  · intro set
    rw [h.own] at set
    exact h.holds (c.identity set)
  · intro unset
    rw [h.own] at unset
    have quiet := c.listener unset
    unfold Machine.Quiet at quiet ⊢
    rwa [h.own]

/-! ### Up to the lock -/

/-- A process without a socket; `b` says whether its `lock` is set. -/
structure Early (d : Status) (i u : Nat) (b : Bool) (m : Machine) : Prop where
  directory : m.directory = d
  umask : m.umask = u
  own : ∃ l, m.instances i = ⟨u, l, none, ⟨b, false, none⟩⟩

theorem Early.seen {b : Bool} (h : Seen i m t) (early : Early d i u b m) : Early d i u b t := by
  obtain ⟨l, own⟩ := early.own
  exact ⟨h.directory.trans early.directory, h.umask.trans early.umask, l, h.own.trans own⟩

theorem Early.cleanable {b : Bool} (early : Early d i u b m) : Cleanable i m := by
  obtain ⟨l, own⟩ := early.own
  refine ⟨?_, ?_⟩
  · intro set
    rw [own] at set
    exact absurd rfl set
  · intro _ e open_
    rw [own] at open_
    cases open_

/-- `p` neither gets nor gives away anything. -/
abbrev StaysEarly (T : Prop) (d : Status) (i u : Nat) {α : Type} (p : Program α) : Prop :=
  Keeps platform i (contract T i) (Early d i u false) p

theorem staysEarly_ask {c : Call} (change : ∀ m n, Early d i u false m → m.Inv → m.Unused n →
    Within i m (m.perform i n c).2 ∧ ∃ l, (m.perform i n c).2.instances i =
      ⟨u, l, none, ⟨false, false, none⟩⟩) :
    StaysEarly T d i u (ask c) := by
  intro m early
  refine asks (fun _ _ h early => early.seen h) early (fun _ _ h => h) ?_
  intro m n early inv unused
  obtain ⟨within, own⟩ := change m n early inv unused
  have kept : Early d i u false (m.perform i n c).2 :=
    ⟨within.directory.trans early.directory, within.umask.trans early.umask, own⟩
  exact ⟨within, fun _ _ => kept, fun _ => kept⟩

theorem staysEarly_stat (name : Entry) : StaysEarly T d i u (ask (.stat name)) := by
  refine staysEarly_ask fun m n early inv _ => ?_
  rw [looks_stat]
  exact ⟨.refl inv, early.own⟩

theorem staysEarly_fstat : StaysEarly T d i u (ask .fstat) := by
  refine staysEarly_ask fun m n early inv _ => ?_
  rw [looks_fstat]
  exact ⟨.refl inv, early.own⟩

theorem staysEarly_create : StaysEarly T d i u (ask (.create 0o600)) := by
  refine staysEarly_ask fun m n early inv unused => ?_
  cases absent : m.entry .lock with
  | some k =>
    simp only [perform, absent]
    exact ⟨.refl inv, early.own⟩
  | none =>
    obtain ⟨l, own⟩ := early.own
    refine ⟨within_create inv unused absent ?_, some n, ?_⟩
    · intro tidy
      rw [own, ← early.umask]
      exact tidy.umask
    · simp only [perform, absent]
      rw [setInstance_self, own]

theorem staysEarly_openLock : StaysEarly T d i u (ask .openLock) := by
  refine staysEarly_ask fun m n early inv _ => ?_
  simp only [perform]
  split
  · rename_i k named
    split
    · obtain ⟨l, own⟩ := early.own
      refine ⟨within_setInstance inv ?_ ?_ ?_, some k, by rw [setInstance_self, own]⟩
      · rintro _ ⟨⟩
        exact named
      · intro k' held
        exact named.symm.trans (inv.locks i k' (inv.holders i k' held))
      · intro e open_
        rw [own] at open_
        cases open_
    · exact ⟨.refl inv, early.own⟩
  · exact ⟨.refl inv, early.own⟩

theorem staysEarly_close : StaysEarly T d i u (ask .close) := by
  refine staysEarly_ask fun m n early inv _ => ?_
  obtain ⟨l, own⟩ := early.own
  refine ⟨within_release inv rfl ?_, none, by simp only [perform]; rw [setInstance_self, own]⟩
  intro e open_
  rw [own] at open_
  cases open_

/-- The owner and mode a created lock gets are those it has. -/
theorem staysEarly_lockNode {c : Call} (change : Node → Node)
    (sets : ∀ (m : Machine) (n : Nat), (m.perform i n c).2 = match (m.instances i).lock with
      | some k => m.setNode k (change (m.node k))
      | none => m)
    (keeps : ∀ file : Node, file.mode = 0o600 → file.uid = 0 → file.gid = 0 → change file = file) :
    StaysEarly T d i u (ask c) := by
  refine staysEarly_ask fun m n early inv _ => ?_
  rw [sets]
  split
  · rename_i k opened
    have named := inv.locks i k opened
    refine ⟨within_lockNode inv named fun tidy => ?_, early.own⟩
    obtain ⟨-, mode, uid, gid, -⟩ := tidy.lock k named
    exact keeps _ mode uid gid
  · exact ⟨.refl inv, early.own⟩

theorem staysEarly_fchown : StaysEarly T d i u (ask (.fchown 0 0)) := by
  refine staysEarly_lockNode (fun file => { file with uid := 0, gid := 0 }) (fun m n => ?_) ?_
  · cases opened : (m.instances i).lock <;> simp only [perform, opened]
  · rintro ⟨⟩ _ rfl rfl
    rfl

theorem staysEarly_fchmod : StaysEarly T d i u (ask (.fchmod 0o600)) := by
  refine staysEarly_lockNode (fun file => { file with mode := 0o600 }) (fun m n => ?_) ?_
  · cases opened : (m.instances i).lock <;> simp only [perform, opened]
  · rintro ⟨⟩ rfl _ _
    rfl

theorem staysEarly_find (name : Entry) : StaysEarly T d i u (find name) := by
  refine Keeps.handle ((staysEarly_stat name).bind fun _ => keeps_pure _) fun e => ?_
  cases e <;> exact fun _ early => early

theorem staysEarly_openSocketLock : StaysEarly T d i u openSocketLock := by
  refine (staysEarly_find .lock).bind fun found => Keeps.bind ?_ fun expected =>
    staysEarly_fstat.bind fun actual => ?_
  · cases found with
    | none =>
      refine staysEarly_create.bind fun _ => Keeps.handle ?_ fun e =>
        staysEarly_close.bind fun _ => keeps_raised e
      exact staysEarly_fchown.bind fun _ => staysEarly_fchmod.bind fun _ => staysEarly_stat .lock
    | some expected => exact staysEarly_openLock.bind fun _ => keeps_pure expected
  · split
    · exact staysEarly_close.bind fun _ => keeps_raised _
    · exact keeps_pure ()

/-! ### With the lock -/

/-- Process `i` is as `v` says, quiet, and has the lock on file `k`. -/
structure Holding (d : Status) (i k : Nat) (v : Instance) (m : Machine) : Prop where
  directory : m.directory = d
  own : m.instances i = v
  named : m.entry .lock = some k
  held : m.holder k = some i
  quiet : ∀ e, v.socket = some e → e.listening = false

variable {v w : Instance}

theorem Holding.holds (h : Holding d i k v m) : m.Holds i := ⟨k, h.named, h.held⟩

theorem Holding.machine_quiet (h : Holding d i k v m) : m.Quiet i := by
  intro e open_
  rw [h.own] at open_
  exact h.quiet e open_

theorem Holding.seen (s : Seen i m t) (h : Holding d i k v m) : Holding d i k v t :=
  ⟨s.directory.trans h.directory, s.own.trans h.own, s.lock k h.named, (s.holders k).2 h.held, h.quiet⟩

theorem Holding.cleanable (h : Holding d i k v m) : Cleanable i m :=
  ⟨fun _ => h.holds, fun _ => h.machine_quiet⟩

theorem Holding.within (h : Holding d i k v m) (inv : m.Inv) (lock : w.lock = some k)
    (listens : ∀ e, w.socket = some e → e.listening = true → ∃ n, e.bound = some n ∧
      m.entry .socket = some n ∧ m.Published n) : Within i m (m.setInstance i w) := by
  refine within_setInstance inv ?_ ?_ ?_
  · intro l opened
    rw [lock] at opened
    cases opened
    exact h.named
  · intro l theirs
    rw [lock]
    exact h.named.symm.trans (inv.locks i l (inv.holders i l theirs))
  · intro e open_ on
    obtain ⟨n, bound, named, published⟩ := listens e open_ on
    exact ⟨n, bound, h.holds, named, published⟩

/-- A call by which the process changes only itself; `F` is about the rest. -/
theorem holding_ask {c : Call} {F : Machine → Prop} {P : Answer c → Prop}
    (sets : ∀ (m : Machine) (n : Nat), m.instances i = v → (m.perform i n c).2 = m.setInstance i w)
    (value : ∀ (m : Machine) (n : Nat) a, m.instances i = v → (m.perform i n c).1 = .ok a → P a)
    (lock : w.lock = some k) (quiet : ∀ e, w.socket = some e → e.listening = false)
    (stable : ∀ m t, Seen i m t → Holding d i k v m → F m → F t)
    (frame : ∀ m, F m → F (m.setInstance i w)) (h : Holding d i k v m) (hf : F m) :
    Upholds platform i (contract T i) (fun a m => P a ∧ Holding d i k w m ∧ F m)
      (fun _ => Cleanable i) (ask c) m := by
  refine asks (H := fun m => Holding d i k v m ∧ F m) ?_ ⟨h, hf⟩ (fun _ _ h => h.1.cleanable) ?_
  · intro m t s both
    exact ⟨both.1.seen s, stable m t s both.1 both.2⟩
  · rintro m n ⟨h, hf⟩ inv -
    rw [sets m n h.own]
    have now : Holding d i k w (m.setInstance i w) :=
      ⟨h.directory, setInstance_self w, h.named, h.held, quiet⟩
    refine ⟨h.within inv lock ?_, ?_, fun _ => now.cleanable⟩
    · intro e open_ on
      rw [quiet e open_] at on
      cases on
    · intro a run
      exact ⟨value m n a h.own run, now, frame m hf⟩

theorem flock_upholds (early : Early d i u true m) :
    Upholds platform i (contract T i)
      (fun _ m => ∃ k, Holding d i k ⟨u, some k, none, ⟨true, false, none⟩⟩ m)
      (fun _ => Cleanable i) (ask .flock) m := by
  refine asks (fun _ _ h early => early.seen h) early (fun _ _ early => early.cleanable) ?_
  intro m n early inv _
  obtain ⟨l, own⟩ := early.own
  have quiet (e : Endpoint) (no : (none : Option Endpoint) = some e) : e.listening = false := by cases no
  cases l with
  | none =>
    simp only [perform, own]
    exact ⟨.refl inv, (fun _ no => by cases no), fun _ => early.cleanable⟩
  | some k =>
    have opened : (m.instances i).lock = some k := by rw [own]
    have named := inv.locks i k opened
    cases held : m.holder k with
    | none =>
      simp only [perform, own, held]
      have now : Holding d i k ⟨u, some k, none, ⟨true, false, none⟩⟩
          { m with holder := Function.update m.holder k (some i) } :=
        ⟨early.directory, own, named, by simp, quiet⟩
      exact ⟨within_flock inv opened held, fun _ _ => ⟨k, now⟩, fun _ => now.cleanable⟩
    | some j =>
      simp only [perform, own, held]
      refine ⟨.refl inv, ?_, fun _ => early.cleanable⟩
      intro _ run
      split at run
      · rename_i same
        rw [same] at held
        exact ⟨k, early.directory, own, named, held, quiet⟩
      · cases run

theorem keeps_holding_find (name : Entry) :
    Keeps platform i (contract T i) (Holding d i k v) (find name) := by
  have looking : Keeps platform i (contract T i) (Holding d i k v) (ask (.stat name)) := fun m h =>
    reads (looks_stat name) (fun _ _ s h => h.seen s) h (fun _ _ h => h) fun _ _ _ h _ => h
  refine Keeps.handle (looking.bind fun _ => keeps_pure _) fun e => ?_
  cases e <;> exact fun _ h => h

theorem keeps_holding_unlink : Keeps platform i (contract T i) (Holding d i k v) (ask .unlink) := by
  intro m h
  refine asks (fun _ _ s h => h.seen s) h (fun _ _ h => h) ?_
  intro m n h inv _
  cases named : m.entry .socket with
  | none =>
    simp only [perform, named]
    exact ⟨.refl inv, fun _ _ => h, fun _ => h⟩
  | some l =>
    simp only [perform, named]
    have now : Holding d i k v (m.setEntry .socket none) :=
      ⟨h.directory, h.own, by simpa [setEntry] using h.named, h.held, h.quiet⟩
    exact ⟨within_unlink inv h.holds h.machine_quiet, fun _ _ => now, fun _ => now⟩

theorem keeps_holding_removeStaleSocket :
    Keeps platform i (contract T i) (Holding d i k v) (removeStaleSocket d) := by
  refine (keeps_holding_find .socket).bind fun found => ?_
  cases found with
  | none => exact keeps_pure ()
  | some existing => exact (keeps_guard _ _).bind fun _ => keeps_holding_unlink

/-- `executor.sock` is file `n`, apart from the lock `k`. -/
structure Named (k n : Nat) (file : Node) (m : Machine) : Prop where
  socket : m.entry .socket = some n
  apart : n ≠ k
  node : m.node n = file

theorem Named.seen {file : Node} (s : Seen i m t) (h : Holding d i k v m) (named : Named k n file m) :
    Named k n file t := by
  have elsewhere : m.entry .lock ≠ some n := by
    rw [h.named]
    exact fun same => named.apart (Option.some.inj same).symm
  exact ⟨(s.socket h.holds).trans named.socket, named.apart,
    (s.nodes h.holds n named.socket elsewhere).trans named.node⟩

/-- The instance during the set-up of its socket. -/
def binding (u k : Nat) (e : Endpoint) (identity : Option (Nat × Nat)) : Instance :=
  ⟨u, some k, some e, ⟨true, true, identity⟩⟩

/-- The file `bind` makes, once it has the group `g`. -/
def socketNode (d : Status) (g : Nat) : Node := ⟨.socket, 0o660, 0, g, d.dev, 0⟩

theorem bind_upholds (h : Holding d i k (binding 0o117 k {} none) m) :
    Upholds platform i (contract T i)
      (fun _ m => ∃ n, Holding d i k (binding 0o117 k ⟨some n, false⟩ none) m ∧
        Named k n (socketNode d 0) m)
      (fun _ m => ∃ e, Holding d i k (binding 0o117 k e none) m) (ask .bind) m := by
  refine asks (fun _ _ s h => h.seen s) h (fun _ _ h => ⟨_, h⟩) ?_
  intro m n h inv unused
  have within := within_bind (i := i) inv unused h.holds h.machine_quiet (by rw [h.own]; rfl)
  refine ⟨within, ?_⟩
  cases absent : m.entry .socket with
  | some l =>
    simp only [perform, h.own, absent]
    exact ⟨(fun _ no => by cases no), fun _ => ⟨_, h⟩⟩
  | none =>
    simp only [perform, h.own, absent, binding]
    have now : Holding d i k (binding 0o117 k ⟨some n, false⟩ none)
        (((m.setNode n ⟨.socket, masked 0o777 0o117, 0, 0, m.directory.dev, 0⟩).setEntry
          .socket (some n)).setInstance i ⟨0o117, some k, some ⟨some n, false⟩, ⟨true, true, none⟩⟩) := by
      refine ⟨h.directory, setInstance_self _, ?_, h.held, ?_⟩
      · simpa [setInstance, setEntry, setNode] using h.named
      · rintro _ ⟨⟩
        rfl
    refine ⟨fun _ _ => ⟨n, now, ?_, ?_, ?_⟩, fun _ => ⟨_, now⟩⟩
    · simp [setInstance, setEntry]
    · rintro rfl
      exact unused.1 .lock h.named
    · simp [setInstance, setEntry, setNode, socketNode, masked, h.directory]

/-- A call that sets the owner or the mode of `executor.sock`. -/
theorem socketNode_ask {c : Call} {file : Node} (change : Node → Node)
    (sets : ∀ (m : Machine) (l : Nat), m.entry .socket = some n →
      (m.perform i l c).2 = m.setNode n (change (m.node n)))
    (keeps : ∀ s : Status, s.bindable d → ∀ file : Node,
      (file.kind, file.mode, file.uid, file.gid, file.dev) = (s.kind, s.mode, s.uid, s.gid, s.dev) →
      (change file).kind = s.kind ∧ (change file).mode = 0o660 ∧ (change file).uid = 0 ∧
        ((change file).gid = 0 ∨ (change file).gid = d.gid) ∧ (change file).dev = s.dev ∧
        (change file).outside = file.outside)
    (h : Holding d i k v m) (named : Named k n file m) :
    Upholds platform i (contract T i)
      (fun _ m => Holding d i k v m ∧ Named k n (change file) m) (fun _ => Cleanable i) (ask c) m := by
  refine asks (H := fun m => Holding d i k v m ∧ Named k n file m) ?_ ⟨h, named⟩
    (fun _ _ h => h.1.cleanable) ?_
  · intro m t s both
    exact ⟨both.1.seen s, both.2.seen s both.1⟩
  · rintro m l ⟨h, named⟩ inv -
    rw [sets m l named.socket]
    have apart : m.entry .lock ≠ some n := by
      rw [h.named]
      exact fun same => named.apart (Option.some.inj same).symm
    have now : Holding d i k v (m.setNode n (change (m.node n))) :=
      ⟨h.directory, h.own, h.named, h.held, h.quiet⟩
    refine ⟨within_socketNode inv h.holds h.machine_quiet named.socket apart ?_,
      fun _ _ => ⟨now, named.socket, named.apart, by simp [setNode, named.node]⟩, fun _ => now.cleanable⟩
    intro tidy
    have bindable := tidy.socket n named.socket
    rw [h.directory] at bindable ⊢
    obtain ⟨kind, mode, uid, gid, dev, outside⟩ := keeps _ bindable (m.node n) rfl
    obtain ⟨isSocket, -, -, -, nlink, device⟩ := bindable
    rw [status_setNode_self]
    refine ⟨kind.trans isSocket, mode, uid, gid, ?_, dev.trans device⟩
    rw [outside]
    exact nlink

theorem chown_upholds {g : Nat} (h : Holding d i k v m) (named : Named k n (socketNode d g) m) :
    Upholds platform i (contract T i)
      (fun _ m => Holding d i k v m ∧ Named k n (socketNode d d.gid) m) (fun _ => Cleanable i)
      (ask (.chown 0 d.gid)) m := by
  refine socketNode_ask (fun file => { file with uid := 0, gid := d.gid }) ?_ ?_ h named
  · intro m l socket
    simp only [perform, socket]
  · rintro s ⟨kind, mode, -⟩ file same
    simp only [Prod.mk.injEq] at same
    exact ⟨same.1, same.2.1.trans mode, rfl, Or.inr rfl, same.2.2.2.2, rfl⟩

theorem chmod_upholds {g : Nat} (h : Holding d i k v m) (named : Named k n (socketNode d g) m) :
    Upholds platform i (contract T i)
      (fun _ m => Holding d i k v m ∧ Named k n (socketNode d g) m) (fun _ => Cleanable i)
      (ask (.chmod 0o660)) m := by
  refine socketNode_ask (fun file => { file with mode := 0o660 }) ?_ ?_ h named
  · intro m l socket
    simp only [perform, socket]
  · rintro s ⟨kind, -, uid, gid, -⟩ file same
    simp only [Prod.mk.injEq] at same
    refine ⟨same.1, rfl, same.2.2.1.trans uid, ?_, same.2.2.2.2, rfl⟩
    rw [same.2.2.2.1]
    exact gid

theorem listen_upholds {identity : Option (Nat × Nat)}
    (h : Holding d i k (binding u k ⟨some n, false⟩ identity) m)
    (named : Named k n (socketNode d d.gid) m) :
    Upholds platform i (contract T i) (fun _ => Cleanable i) (fun _ => Cleanable i) (ask .listen) m := by
  refine asks (H := fun m => Holding d i k (binding u k ⟨some n, false⟩ identity) m ∧
    Named k n (socketNode d d.gid) m) ?_ ⟨h, named⟩ (fun _ _ h => h.1.cleanable) ?_
  · intro m t s both
    exact ⟨both.1.seen s, both.2.seen s both.1⟩
  · rintro m l ⟨h, named⟩ inv -
    simp only [perform, h.own, binding]
    have now : Cleanable i (m.setInstance i ⟨u, some k, some ⟨some n, true⟩, ⟨true, true, identity⟩⟩) := by
      refine ⟨fun _ => ⟨k, h.named, h.held⟩, fun unset => ?_⟩
      rw [setInstance_self] at unset
      cases unset
    refine ⟨h.within inv rfl ?_, fun _ _ => now, fun _ => now⟩
    rintro _ ⟨⟩ -
    refine ⟨n, rfl, named.socket, ?_, ?_, ?_, ?_, ?_⟩
    all_goals simp [status, named.node, socketNode, h.directory]
    simp [linked, named.socket, h.named, Ne.symm named.apart]

theorem keepLock_upholds (early : Early d i u false m) :
    Upholds platform i (contract T i) (fun _ => Early d i u true) (fun _ => Cleanable i)
      (ask .keepLock) m := by
  refine asks (fun _ _ h early => early.seen h) early (fun _ _ early => early.cleanable) ?_
  intro m n early inv _
  obtain ⟨l, own⟩ := early.own
  simp only [perform]
  have now : Early d i u true (m.setInstance i
      { m.instances i with locals := { (m.instances i).locals with lock := true } }) :=
    ⟨early.directory, early.umask, l, by rw [setInstance_self, own]⟩
  refine ⟨within_setInstance inv (inv.locks i) (inv.holders i) ?_, fun _ _ => now,
    fun _ => now.cleanable⟩
  intro e open_
  rw [own] at open_
  cases open_

/-- From the socket to its name: `bind` under the narrow umask, which is put
back in either case. -/
theorem binding_upholds (h : Holding d i k (binding u k {} none) m) :
    Upholds platform i (contract T i)
      (fun _ m => ∃ n, Holding d i k (binding u k ⟨some n, false⟩ none) m ∧ Named k n (socketNode d 0) m)
      (fun _ => Cleanable i)
      (do
        let previousUmask ← ask (.umask 0o117)
        (ask .bind).ensure (do let _ ← ask (.umask previousUmask))) m := by
  have restored {m : Machine} {e : Endpoint} {F : Machine → Prop}
      (stable : ∀ m t, Seen i m t → Holding d i k (binding 0o117 k e none) m → F m → F t)
      (frame : ∀ m v, F m → F (m.setInstance i v)) (h : Holding d i k (binding 0o117 k e none) m)
      (hf : F m) : Upholds platform i (contract T i)
        (fun _ m => Holding d i k (binding u k e none) m ∧ F m) (fun _ => Cleanable i)
        (do let _ ← ask (.umask u)) m := by
    refine upholds_bind.2 ((holding_ask (P := fun _ => True) (w := binding u k e none) ?_
      (fun _ _ _ _ _ => trivial) rfl h.quiet stable (fun m => frame m _) h hf).mono
      (fun _ _ h => h.2) fun _ _ h => h)
    intro m n own
    simp only [perform, own, binding]
  refine upholds_bind.2 ((holding_ask (F := fun _ => True) (P := fun a => a = u)
    (w := binding 0o117 k {} none) ?_ ?_ rfl h.quiet (fun _ _ _ _ _ => trivial)
    (fun _ _ => trivial) h trivial).mono ?_ fun _ _ h => h)
  · intro m n own
    simp only [perform, own, binding]
  · intro m n a own run
    simp only [perform, own, binding, Except.ok.injEq] at run
    exact run.symm
  · rintro _ m ⟨rfl, h, -⟩
    refine upholds_ensure.2 ((bind_upholds h).mono ?_ ?_)
    · rintro _ m ⟨n, h, named⟩
      refine (restored (F := Named k n (socketNode d 0)) (fun _ _ s h named => named.seen s h)
        (fun _ _ named => ⟨named.1, named.2, named.3⟩) h named).mono ?_ fun _ _ h => h
      exact fun _ _ both => ⟨n, both⟩
    · rintro _ m ⟨e, h⟩
      exact (restored (F := fun _ => True) (fun _ _ _ _ _ => trivial) (fun _ _ _ => trivial) h
        trivial).mono (fun _ _ both => both.1.cleanable) fun _ _ h => h

/-- From the name to the first client. -/
theorem settling_upholds (h : Holding d i k (binding u k ⟨some n, false⟩ none) m)
    (named : Named k n (socketNode d 0) m) :
    Upholds platform i (contract T i) (fun _ => Cleanable i) (fun _ => Cleanable i)
      (do
        let created ← ask (.stat .socket)
        guard (created.bindable d) (.operation "unsafe newly bound executor socket")
        ask (.keepIdentity created.dev created.ino)
        ask (.chown 0 d.gid)
        ask (.chmod 0o660)
        let settled ← ask (.stat .socket)
        guard ((settled.dev, settled.ino) = (created.dev, created.ino) ∧ settled.kind = .socket ∧
            settled.mode = 0o660 ∧ (settled.uid, settled.gid, settled.nlink) = (0, d.gid, 1))
          (.operation "executor socket changed during setup")
        ask .listen) m := by
  have look {m : Machine} {w : Instance} {file : Node} (h : Holding d i k w m) (named : Named k n file m) :
      Upholds platform i (contract T i) (fun _ m => Holding d i k w m ∧ Named k n file m)
        (fun _ => Cleanable i) (ask (.stat .socket)) m :=
    reads (H := fun m => Holding d i k w m ∧ Named k n file m) (looks_stat .socket)
      (fun _ _ s both => ⟨both.1.seen s, both.2.seen s both.1⟩) ⟨h, named⟩
      (fun _ _ h => h.1.cleanable) fun _ _ _ h _ => h
  refine upholds_bind.2 ((look h named).mono ?_ fun _ _ h => h)
  rintro created m ⟨h, named⟩
  refine upholds_bind.2 ((upholds_guard _ _).2 ⟨fun _ => ?_, fun _ => h.cleanable⟩)
  refine upholds_bind.2 ((holding_ask (F := Named k n (socketNode d 0)) (P := fun _ => True)
    (w := binding u k ⟨some n, false⟩ (some (created.dev, created.ino))) ?_ (fun _ _ _ _ _ => trivial)
    rfl h.quiet (fun _ _ s h named => named.seen s h) (fun _ named => ⟨named.1, named.2, named.3⟩) h
    named).mono ?_ fun _ _ h => h)
  · intro m l own
    simp only [perform, own, binding]
  rintro _ m ⟨-, h, named⟩
  refine upholds_bind.2 ((chown_upholds h named).mono ?_ fun _ _ h => h)
  rintro _ m ⟨h, named⟩
  refine upholds_bind.2 ((chmod_upholds h named).mono ?_ fun _ _ h => h)
  rintro _ m ⟨h, named⟩
  refine upholds_bind.2 ((look h named).mono ?_ fun _ _ h => h)
  rintro settled m ⟨h, named⟩
  refine upholds_bind.2 ((upholds_guard _ _).2 ⟨fun _ => ?_, fun _ => h.cleanable⟩)
  exact listen_upholds h named

theorem setUp_upholds (early : Early d i u false m) :
    Upholds platform i (contract T i) (fun _ => Cleanable i) (fun _ => Cleanable i) (setUp d) m := by
  have look {m : Machine} (early : Early d i u false m) : Upholds platform i (contract T i)
      (fun _ => Early d i u false) (fun _ => Cleanable i) (ask .fstatDirectory) m :=
    reads (fun _ _ => rfl) (fun _ _ s h => h.seen s) early (fun _ _ h => h.cleanable)
      fun _ _ _ h _ => h
  refine upholds_bind.2 ((look early).mono (fun first m early => ?_) fun _ _ h => h)
  refine upholds_bind.2 ((look early).mono (fun second m early => ?_) fun _ _ h => h)
  refine upholds_bind.2 ((upholds_guard _ _).2 ⟨fun _ => ?_, fun _ => early.cleanable⟩)
  refine upholds_bind.2 ((staysEarly_openSocketLock m early).mono (fun _ m early => ?_)
    fun _ _ early => early.cleanable)
  refine upholds_bind.2 ((keepLock_upholds early).mono (fun _ m early => ?_) fun _ _ h => h)
  refine upholds_bind.2 ((flock_upholds early).mono ?_ fun _ _ h => h)
  rintro _ m ⟨k, h⟩
  refine upholds_bind.2 ((keeps_holding_removeStaleSocket m h).mono (fun _ m h => ?_)
    fun _ _ h => h.cleanable)
  have quiet (e : Endpoint) (new : some ({} : Endpoint) = some e) : e.listening = false := by
    cases new
    rfl
  refine upholds_bind.2 ((holding_ask (F := fun _ => True) (P := fun _ => True)
    (w := ⟨u, some k, some {}, ⟨true, false, none⟩⟩) ?_ (fun _ _ _ _ _ => trivial) rfl quiet
    (fun _ _ _ _ _ => trivial) (fun _ _ => trivial) h trivial).mono ?_ fun _ _ h => h)
  · intro m n own
    simp only [perform, own]
  rintro _ m ⟨-, h, -⟩
  refine upholds_bind.2 ((holding_ask (F := fun _ => True) (P := fun _ => True)
    (w := binding u k {} none) ?_ (fun _ _ _ _ _ => trivial) rfl quiet
    (fun _ _ _ _ _ => trivial) (fun _ _ => trivial) h trivial).mono ?_ fun _ _ h => h)
  · intro m n own
    simp only [perform, own, binding]
  rintro _ m ⟨-, h, -⟩
  have bound := binding_upholds (T := T) h
  rw [upholds_bind] at bound
  refine upholds_bind.2 (bound.mono ?_ fun _ _ h => h)
  intro previousUmask m bound
  refine upholds_bind.2 (bound.mono ?_ fun _ _ h => h)
  rintro _ m ⟨n, h, named⟩
  exact settling_upholds h named

/-! ### The end -/

/-- Inside the `finally` block, the listener closed. -/
structure Closing (i : Nat) (v : Locals) (m : Machine) : Prop where
  quiet : m.Quiet i
  identity : v.identity ≠ none → m.Holds i

theorem Closing.seen {v : Locals} (s : Seen i m t) (h : Closing i v m) : Closing i v t := by
  refine ⟨?_, fun set => s.holds (h.identity set)⟩
  intro e open_
  rw [s.own] at open_
  exact h.quiet e open_

theorem closeListener_upholds {v : Locals} (h : v.identity ≠ none → m.Holds i) :
    Upholds platform i (contract T i) (fun _ => Closing i v) (fun _ _ => True)
      (ask .closeListener) m := by
  refine asks (H := fun m => v.identity ≠ none → m.Holds i) (fun _ _ s h set => s.holds (h set)) h
    (fun _ _ _ => trivial) ?_
  intro m n h inv _
  simp only [perform]
  refine ⟨within_setInstance inv (inv.locks i) (inv.holders i) (fun _ no => by cases no), ?_,
    fun _ => trivial⟩
  refine fun _ _ => ⟨?_, h⟩
  intro e open_
  rw [setInstance_self] at open_
  cases open_

theorem removeOwnSocket_upholds {v : Locals} :
    Keeps platform i (contract T i) (Closing i v) (removeOwnSocket v.identity) := by
  cases set : v.identity with
  | none => exact keeps_pure ()
  | some identity =>
    have looking : Keeps platform i (contract T i) (Closing i v) (ask (.stat .socket)) := fun m h =>
      reads (looks_stat .socket) (fun _ _ s h => h.seen s) h (fun _ _ h => h) fun _ _ _ h _ => h
    have removing : Keeps platform i (contract T i) (Closing i v) (ask .unlink) := by
      intro m h
      refine asks (fun _ _ s h => h.seen s) h (fun _ _ h => h) ?_
      intro m n h inv _
      cases named : m.entry .socket with
      | none =>
        simp only [perform, named]
        exact ⟨.refl inv, fun _ _ => h, fun _ => h⟩
      | some l =>
        simp only [perform, named]
        have holds : m.Holds i := h.identity (by rw [set]; exact fun no => by cases no)
        have now : Closing i v (m.setEntry .socket none) := by
          refine ⟨h.quiet, fun _ => ?_⟩
          obtain ⟨k, lock, held⟩ := holds
          exact ⟨k, by simpa [setEntry] using lock, held⟩
        exact ⟨within_unlink inv holds h.quiet, fun _ _ => now, fun _ => now⟩
    refine Keeps.handle (looking.bind fun existing => removing.when) fun e => ?_
    cases e <;> exact fun _ h => h

theorem cleanUp_upholds (h : Cleanable i m) :
    Upholds platform i (contract T i) (fun _ _ => True) (fun _ _ => True) cleanUp m := by
  refine upholds_bind.2 ((reads (c := .locals)
    (Q := fun v m => Cleanable i m ∧ (m.instances i).locals = v) (fun _ _ => rfl)
    (fun _ _ s h => h.seen s) h (fun _ _ _ => trivial) ?_).mono ?_ fun _ _ h => h)
  · intro m n v h run
    exact ⟨h, Except.ok.inj run⟩
  rintro v m ⟨h, rfl⟩
  refine upholds_bind.2 (Upholds.mono (Q := fun _ => Closing i (m.instances i).locals) ?_ ?_
    fun _ _ h => h)
  · refine (upholds_when _ _).2 ⟨fun _ => closeListener_upholds h.identity, fun unset => ?_⟩
    exact ⟨h.listener (by simpa using unset), h.identity⟩
  intro _ t closing
  refine upholds_bind.2 ((removeOwnSocket_upholds t closing).mono (fun _ t closing => ?_)
    fun _ _ _ => trivial)
  refine upholds_bind.2 (Upholds.mono (Q := fun _ _ => True) ?_ (fun _ t _ => ?_) fun _ _ h => h)
  · refine (upholds_when _ _).2 ⟨fun _ => ?_, fun _ => trivial⟩
    refine asks (fun _ _ s h => h.seen s) closing (fun _ _ _ => trivial) ?_
    intro m n closing inv _
    exact ⟨within_release inv rfl closing.quiet, fun _ _ => trivial, fun _ => trivial⟩
  · exact reads (H := fun _ => True) (fun _ _ => rfl) (fun _ _ _ _ => trivial) trivial
      (fun _ _ _ => trivial) fun _ _ _ _ _ => trivial

theorem keeps_serveClients (rounds : Nat) :
    Keeps platform i (contract T i) (Cleanable i) (serveClients rounds) := by
  have waiting {c : Call} (looks : ∀ (m : Machine) (n : Nat), (m.perform i n c).2 = m) :
      Keeps platform i (contract T i) (Cleanable i) (ask c) := fun m h =>
    reads looks (fun _ _ s h => h.seen s) h (fun _ _ h => h) fun _ _ _ h _ => h
  induction rounds with
  | zero => exact keeps_raised _
  | succ rounds ih =>
    exact (waiting fun _ _ => rfl).bind fun _ => (waiting fun _ _ => rfl).bind fun _ => ih

/-- A process that is not there. -/
def Idle (i : Nat) (m : Machine) : Prop := m.instances i = ⟨m.umask, none, none, {}⟩

theorem serveForever_upholds (rounds : Nat) (idle : Idle i m) :
    Upholds platform i (contract T i) (fun _ _ => True) (fun _ _ => True) (serveForever rounds) m := by
  have stable (m t : Machine) (s : Seen i m t) (idle : Idle i m) : Idle i t := by
    unfold Idle at idle ⊢
    rw [s.own, s.umask]
    exact idle
  refine upholds_bind.2 (Upholds.mono (Q := fun d m => Idle i m ∧ m.directory = d) ?_ ?_
    fun _ _ h => h)
  · refine upholds_bind.2 ((reads (c := .statDirectory) (Q := fun d m => Idle i m ∧ m.directory = d)
      (fun _ _ => rfl) stable idle (fun _ _ _ => trivial) ?_).mono ?_ fun _ _ h => h)
    · intro m n d idle run
      exact ⟨idle, Except.ok.inj run⟩
    · intro d m both
      exact upholds_bind.2 ((upholds_guard _ _).2 ⟨fun _ => both, fun _ => trivial⟩)
  rintro d m ⟨idle, here⟩
  refine upholds_bind.2 ((reads (c := .openDirectory)
    (H := fun m => Idle i m ∧ m.directory = d) (Q := fun _ m => Idle i m ∧ m.directory = d)
    (fun _ _ => rfl) ?_ ⟨idle, here⟩ (fun _ _ _ => trivial) fun _ _ _ h _ => h).mono ?_ fun _ _ h => h)
  · intro m t s both
    exact ⟨stable m t s both.1, s.directory.trans both.2⟩
  rintro _ m ⟨idle, here⟩
  have served : Upholds platform i (contract T i) (fun _ => Cleanable i) (fun _ => Cleanable i)
      ((do
        setUp d
        serveClients rounds : Program Unit).handle fun e => .raised e.reported) m :=
    upholds_handle.2 (upholds_bind.2 ((setUp_upholds ⟨here, rfl, none, idle⟩).mono
      (fun _ m h => keeps_serveClients rounds m h) fun _ _ h => h))
  exact upholds_ensure.2 (served.mono (fun _ _ h => cleanUp_upholds h) fun _ _ h => cleanUp_upholds h)

end

/-! ## Every run -/

/-- Nothing runs and nothing is locked; the directory holds what it holds. -/
structure Fresh (m : Machine) : Prop where
  idle : ∀ i, Idle i m
  free : ∀ k, m.holder k = none

def isService (p : Program Unit) : Prop := ∃ rounds, p = serveForever rounds

theorem compatible (T : Prop) : Concurrent.Compatible platform isService (fun m => Fresh m ∧ (T → m.Tidy))
    (Invariant T) Seen Within Idle where
  initially m start := by
    have idle := start.1.idle
    refine ⟨⟨⟨?_, ?_, ?_⟩, start.2⟩, idle⟩
    · intro i k opened
      rw [idle i] at opened
      cases opened
    · intro i k held
      rw [start.1.free k] at held
      cases held
    · intro i e open_
      rw [idle i] at open_
      cases open_
  refl := Seen.refl
  trans _ _ _ _ := Seen.trans
  others _ _ _ _ other _ := Within.seen other
  keeps _ _ _ inv within := ⟨within.inv, fun started => within.tidy (inv.2 started)⟩
  environment _ _ _ no := no.elim
  ends i m inv := by
    refine ⟨within_release inv.1 rfl (fun _ no => by cases no), ?_⟩
    exact setInstance_self _
  idle i m t s idle := by
    unfold Idle at idle ⊢
    rw [s.own, s.umask]
    exact idle
  upholds i m p _ idle known := by
    obtain ⟨rounds, rfl⟩ := known
    exact serveForever_upholds rounds idle

end CertRenewer.Listener
