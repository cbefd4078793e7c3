import CertRenewer.Serving

/-!
# Starting again

Whatever the services before it left, having failed or been killed anywhere, a
service that starts alone and meets no trouble gets to listen.
-/

namespace CertRenewer.Listener

open Concurrent
open Concurrent.Process hiding ask
open Machine

section
variable {d : Status} {i k n u : Nat} {m t : Machine} {v w : Instance}

/-- Only process `i` is there, and what it finds is in order. -/
structure Solo (d : Status) (i : Nat) (m : Machine) : Prop where
  directory : m.directory = d
  inv : m.Inv
  tidy : m.Tidy
  others : ∀ j, j ≠ i → Idle j m

theorem Solo.within (solo : Solo d i m) (h : Within i m t) : Solo d i t := by
  refine ⟨h.directory.trans solo.directory, h.inv, h.tidy solo.tidy, ?_⟩
  intro j other
  unfold Idle
  rw [h.others j other, h.umask]
  exact solo.others j other

/-- There is always an inode left. -/
theorem Solo.unused (solo : Solo d i m) : ∃ n, m.Unused n := by
  let bound := (m.instances i).socket.bind Endpoint.bound
  refine ⟨(m.entry .lock).getD 0 + (m.entry .socket).getD 0 + (m.instances i).lock.getD 0 +
    bound.getD 0 + 1, ?_, ?_⟩
  · intro name same
    have value := congrArg (Option.getD · 0) same
    cases name <;> simp only [Option.getD_some] at value <;> omega
  · intro j
    by_cases own : j = i
    · subst own
      refine ⟨fun same => ?_, fun e open_ same => ?_⟩
      · have value := congrArg (Option.getD · 0) same
        simp only [Option.getD_some] at value
        omega
      · have known : bound = e.bound := by simp only [bound, open_, Option.bind_some]
        rw [← known] at same
        have value := congrArg (Option.getD · 0) same
        simp only [Option.getD_some] at value
        omega
    · rw [solo.others j own]
      exact ⟨(fun no => by cases no), fun _ no => by cases no⟩

/-- One call that cannot fail here; the contract says where it leads. -/
theorem solo_ask {c : Call} {Q Q' : Answer c → Machine → Prop} {E E' : Fault → Machine → Prop}
    (upholds : Upholds platform i (contract True i) Q' E' (ask c) m) (solo : Solo d i m)
    (fine : ∀ n, ∃ a, (m.perform i n c).1 = .ok a)
    (next : ∀ a n t, m.Unused n → m.perform i n c = (.ok a, t) → Solo d i t → Q' a t → Q a t) :
    Alone platform i Q E (ask c) m := by
  refine alone_ask ?_ ?_ ?_
  · obtain ⟨n, unused⟩ := solo.unused
    exact ⟨_, _, n, unused, rfl⟩
  · rintro a t ⟨n, unused, run⟩
    obtain ⟨within, now⟩ := upholds.answered (Seen.refl i m) ⟨solo.inv, fun _ => solo.tidy⟩
      ⟨n, unused, run⟩
    exact next a n t unused run (solo.within within) now
  · rintro e t ⟨n, unused, run⟩
    obtain ⟨a, ok⟩ := fine n
    rw [run] at ok
    cases ok

/-- A call that looks. -/
theorem solo_look {c : Call} {a : Answer c} {Q : Answer c → Machine → Prop} {E : Fault → Machine → Prop}
    (solo : Solo d i m) (answer : ∀ n, m.perform i n c = (.ok a, m)) (next : Q a m) :
    Alone platform i Q E (ask c) m := by
  refine alone_ask ?_ ?_ ?_
  · obtain ⟨n, unused⟩ := solo.unused
    exact ⟨_, _, n, unused, rfl⟩
  · rintro b t ⟨n, -, run⟩
    rw [answer n] at run
    cases run
    exact next
  · rintro e t ⟨n, -, run⟩
    rw [answer n] at run
    cases run

theorem solo_find {name : Entry} {Q : Option Status → Machine → Prop} {E : Fault → Machine → Prop}
    (solo : Solo d i m) (next : Q ((m.entry name).map m.status) m) :
    Alone platform i Q E (find name) m := by
  refine alone_handle.2 (alone_bind.2 ?_)
  cases named : m.entry name with
  | some k =>
    rw [named] at next
    exact solo_look solo (fun n => by simp only [perform, named]) next
  | none =>
    rw [named] at next
    refine alone_ask ?_ ?_ ?_
    · obtain ⟨n, unused⟩ := solo.unused
      exact ⟨_, _, n, unused, rfl⟩
    · rintro a t ⟨n, -, run⟩
      simp only [perform, named] at run
      cases run
    · rintro e t ⟨n, -, run⟩
      simp only [perform, named] at run
      cases run
      exact next

/-! ## The lock -/

/-- The lock file is open, and as it has to be. -/
theorem solo_openSocketLock {Q : Unit → Machine → Prop} {E : Fault → Machine → Prop}
    (solo : Solo d i m) (early : Early d i u false m)
    (next : ∀ t, Solo d i t → Early d i u false t → (∃ k, (t.instances i).lock = some k) → Q () t) :
    Alone platform i Q E openSocketLock m := by
  have checked {t : Machine} {k : Nat} {expected : Status} (solo : Solo d i t)
      (early : Early d i u false t) (opened : (t.instances i).lock = some k)
      (same : expected = t.status k) : Alone platform i Q E (do
        let actual ← ask .fstat
        if expected.kind ≠ .regular ∨ expected.mode ≠ 0o600 ∨
            (expected.uid, expected.gid, expected.nlink) ≠ (0, 0, 1) ∨
            (actual.dev, actual.ino) ≠ (expected.dev, expected.ino) then
          ask .close
          .raised (.operation "unsafe executor socket lock")) t := by
    refine alone_bind.2 (solo_look (a := t.status k) solo (fun n => by simp only [perform, opened]) ?_)
    obtain ⟨kind, mode, uid, gid, nlink⟩ := solo.tidy.lock k (solo.inv.locks i k opened)
    subst same
    rw [if_neg (by simp [kind, mode, uid, gid, nlink])]
    exact next t solo early ⟨k, opened⟩
  have set {c : Call} {Q : Answer c → Machine → Prop} {E : Fault → Machine → Prop} {t : Machine} {k : Nat}
      (stays : StaysEarly True d i u (ask c)) (answer : ∀ (m : Machine) (n : Nat),
        (m.instances i).lock = some k → ∃ a file, m.perform i n c = (.ok a, m.setNode k file))
      (solo : Solo d i t) (early : Early d i u false t) (opened : (t.instances i).lock = some k)
      (next : ∀ a t', Solo d i t' → Early d i u false t' → (t'.instances i).lock = some k → Q a t') :
      Alone platform i Q E (ask c) t := by
    refine solo_ask (stays t early) solo ?_ ?_
    · intro n
      obtain ⟨a, file, run⟩ := answer t n opened
      exact ⟨a, by rw [run]⟩
    · intro a n t' _ run solo' early'
      obtain ⟨b, file, run'⟩ := answer t n opened
      rw [run'] at run
      cases run
      exact next a _ solo' early' opened
  refine alone_bind.2 (solo_find solo (alone_bind.2 ?_))
  cases named : m.entry .lock with
  | some k =>
    refine alone_bind.2 (solo_ask (staysEarly_openLock m early) solo ?_ ?_)
    · intro n
      obtain ⟨kind, -⟩ := solo.tidy.lock k named
      have regular : (m.node k).kind = .regular := kind
      exact ⟨(), by simp only [perform, named, regular, true_or, if_true]⟩
    · intro _ n t _ run solo' early'
      obtain ⟨kind, -⟩ := solo.tidy.lock k named
      have regular : (m.node k).kind = .regular := kind
      simp only [perform, named, regular, true_or, if_true] at run
      cases run
      refine checked solo' early' (k := k) ?_ rfl
      rw [setInstance_self]
  | none =>
    refine alone_bind.2 (solo_ask (staysEarly_create m early) solo ?_ ?_)
    · intro n
      exact ⟨(), by simp only [perform, named]⟩
    · intro _ n t _ run solo' early'
      have opened : (t.instances i).lock = some n := by
        simp only [perform, named] at run
        cases run
        rw [setInstance_self]
      refine alone_handle.2 (alone_bind.2 (set staysEarly_fchown (fun m l opened =>
        ⟨(), { m.node n with uid := 0, gid := 0 }, by simp only [perform, opened]⟩) solo' early' opened fun _ t solo early opened => ?_))
      refine alone_bind.2 (set staysEarly_fchmod (fun m l opened =>
        ⟨(), { m.node n with mode := 0o600 }, by simp only [perform, opened]⟩) solo early opened fun _ t solo early opened => ?_)
      have here := solo.inv.locks i n opened
      exact solo_look (a := t.status n) solo (fun l => by simp only [perform, here])
        (checked solo early opened rfl)

/-! ## The socket -/

/-- The lock is free for the only process. -/
theorem Solo.free (solo : Solo d i m) (k : Nat) : m.holder k = none ∨ m.holder k = some i := by
  cases held : m.holder k with
  | none => exact Or.inl rfl
  | some j =>
    by_cases own : j = i
    · subst own
      exact Or.inr rfl
    · have opened := solo.inv.holders j k held
      rw [solo.others j own] at opened
      cases opened

theorem solo_removeStaleSocket {Q : Unit → Machine → Prop} {E : Fault → Machine → Prop}
    (solo : Solo d i m) (h : Holding d i k v m)
    (next : ∀ t, Solo d i t → Holding d i k v t → t.entry .socket = none → Q () t) :
    Alone platform i Q E (removeStaleSocket d) m := by
  refine alone_bind.2 (solo_find solo ?_)
  cases named : m.entry .socket with
  | none => exact next m solo h named
  | some l =>
    have bindable := solo.tidy.socket l named
    rw [solo.directory] at bindable
    refine alone_bind.2 ((alone_guard _ _).2 ⟨fun _ => ?_, fun no => absurd bindable no⟩)
    refine solo_ask (keeps_holding_unlink m h) solo (fun n => ⟨(), by simp only [perform, named]⟩) ?_
    intro _ n t _ run solo' h'
    refine next t solo' h' ?_
    simp only [perform, named] at run
    cases run
    simp [setEntry]

/-- A call of the process about itself, the rest as it was. -/
theorem solo_own {c : Call} {F : Machine → Prop} {Q : Answer c → Machine → Prop} {a : Answer c}
    {E : Fault → Machine → Prop}
    (sets : ∀ (m : Machine) (n : Nat), m.instances i = v → m.perform i n c = (.ok a, m.setInstance i w))
    (lock : w.lock = some k) (quiet : ∀ e, w.socket = some e → e.listening = false)
    (frame : ∀ m w, F m → F (m.setInstance i w)) (solo : Solo d i m) (h : Holding d i k v m) (hf : F m)
    (next : ∀ t, Solo d i t → Holding d i k w t → F t → Q a t) :
    Alone platform i Q E (ask c) m := by
  have upholds := holding_ask (T := True) (F := fun _ => True) (P := fun _ => True)
    (fun m n own => by rw [sets m n own]) (fun _ _ _ _ _ => trivial) lock quiet
    (fun _ _ _ _ _ => trivial) (fun _ _ => trivial) h trivial
  refine solo_ask upholds solo (fun n => ⟨a, by rw [sets m n h.own]⟩) ?_
  intro b n t _ run solo' now
  rw [sets m n h.own] at run
  cases run
  exact next _ solo' now.2.1 (frame m w hf)

theorem Named.linked {g : Nat} (named : Named k n (socketNode d g) m) (h : Holding d i k v m) :
    m.status n = ⟨.socket, 0o660, 0, g, 1, d.dev, n⟩ := by
  simp [status, named.node, socketNode, Machine.linked, named.socket, h.named, Ne.symm named.apart]

theorem solo_binding {Q : Unit → Machine → Prop} {E : Fault → Machine → Prop} (solo : Solo d i m)
    (h : Holding d i k (binding 0o117 k {} none) m) (absent : m.entry .socket = none)
    (next : ∀ n t, Solo d i t → Holding d i k (binding 0o117 k ⟨some n, false⟩ none) t →
      Named k n (socketNode d 0) t → Q () t) : Alone platform i Q E (ask .bind) m := by
  have fine (n : Nat) : ∃ a, (m.perform i n .bind).1 = .ok a :=
    ⟨(), by simp only [perform, h.own, absent, binding]⟩
  refine solo_ask (bind_upholds h) solo fine ?_
  rintro _ n t - - solo' ⟨n, h, named⟩
  exact next n t solo' h named

/-- Process `i` listens on the socket clients find. -/
def Serves (i : Nat) (m : Machine) : Prop :=
  ∃ n, (m.instances i).socket = some ⟨some n, true⟩ ∧ m.entry .socket = some n ∧ m.Published n

/-- Alone and without trouble the set-up gets to a listening socket. -/
theorem solo_setUp {E : Fault → Machine → Prop} (solo : Solo d i m) (early : Early d i u false m) :
    Alone platform i (fun _ t => Serves i t ∧ t.directory = d) E (setUp d) m := by
  have looks : ∀ n, m.perform i n .fstatDirectory = (.ok m.directory, m) := fun _ => rfl
  refine alone_bind.2 (solo_look solo looks (alone_bind.2 (solo_look solo looks ?_)))
  rw [solo.directory]
  refine alone_bind.2 ((alone_guard _ _).2 ⟨fun _ => ?_, fun no => absurd rfl no⟩)
  refine alone_bind.2 (solo_openSocketLock solo early fun m solo early opened => ?_)
  obtain ⟨k, opened⟩ := opened
  refine alone_bind.2 (solo_ask (keepLock_upholds early) solo (fun n => ⟨(), rfl⟩) ?_)
  intro _ n t _ run solo' early'
  have opened' : (t.instances i).lock = some k := by
    simp only [perform] at run
    cases run
    rw [setInstance_self]
    exact opened
  refine alone_bind.2 (solo_ask (flock_upholds early') solo' ?_ ?_)
  · intro n
    refine ⟨(), ?_⟩
    rcases solo'.free k with free | mine
    · simp only [perform, opened', free]
    · simp only [perform, opened', mine, if_true]
  rintro _ _ m - - solo ⟨k, h⟩
  refine alone_bind.2 (solo_removeStaleSocket solo h fun m solo h absent => ?_)
  have quiet (e : Endpoint) (new : some ({} : Endpoint) = some e) : e.listening = false := by
    cases new
    rfl
  refine alone_bind.2 (solo_own (a := ()) (F := fun m => m.entry .socket = none)
    (w := ⟨u, some k, some {}, ⟨true, false, none⟩⟩) (fun m n own => by simp only [perform, own]) rfl
    quiet (fun _ _ hf => hf) solo h absent fun m solo h absent => ?_)
  refine alone_bind.2 (solo_own (a := ()) (F := fun m => m.entry .socket = none)
    (w := binding u k {} none) (fun m n own => by simp only [perform, own, binding]) rfl quiet
    (fun _ _ hf => hf) solo h absent fun m solo h absent => ?_)
  refine alone_bind.2 (solo_own (a := u) (F := fun m => m.entry .socket = none)
    (w := binding 0o117 k {} none) (fun m n own => by simp only [perform, own, binding]) rfl quiet
    (fun _ _ hf => hf) solo h absent fun m solo h absent => ?_)
  refine alone_bind.2 (alone_ensure.2 (solo_binding solo h absent fun n m solo h named => ?_))
  have frame (file : Node) (m : Machine) (w : Instance) (named : Named k n file m) :
      Named k n file (m.setInstance i w) := ⟨named.1, named.2, named.3⟩
  refine alone_bind.2 (solo_own (a := 0o117) (F := Named k n (socketNode d 0))
    (w := binding u k ⟨some n, false⟩ none) (fun m n own => by simp only [perform, own, binding]) rfl
    h.quiet (frame _) solo h named fun m solo h named => ?_)
  have created := named.linked h
  refine alone_bind.2 (solo_look (a := m.status n) solo
    (fun l => by simp only [perform, named.socket]) ?_)
  rw [created]
  refine alone_bind.2 ((alone_guard _ _).2 ⟨fun _ => ?_, fun no => absurd ?_ no⟩)
  · refine alone_bind.2 (solo_own (a := ()) (F := Named k n (socketNode d 0))
      (w := binding u k ⟨some n, false⟩ (some (d.dev, n)))
      (fun m n own => by simp only [perform, own, binding]) rfl h.quiet (frame _) solo h named
      fun m solo h named => ?_)
    refine alone_bind.2 (solo_ask (chown_upholds h named) solo
      (fun l => ⟨(), by simp only [perform, named.socket]⟩) ?_)
    rintro _ _ m - - solo ⟨h, named⟩
    refine alone_bind.2 (solo_ask (chmod_upholds h named) solo
      (fun l => ⟨(), by simp only [perform, named.socket]⟩) ?_)
    rintro _ _ m - - solo ⟨h, named⟩
    refine alone_bind.2 (solo_look (a := m.status n) solo
      (fun l => by simp only [perform, named.socket]) ?_)
    rw [named.linked h]
    refine alone_bind.2 ((alone_guard _ _).2 ⟨fun _ => ?_, fun no => absurd ?_ no⟩)
    · refine solo_ask (listen_upholds h named) solo
        (fun l => ⟨(), by simp only [perform, h.own, binding]⟩) ?_
      intro _ l t _ run solo' _
      have listening : (t.instances i).socket = some ⟨some n, true⟩ := by
        simp only [perform, h.own, binding] at run
        cases run
        rw [setInstance_self]
      obtain ⟨l, bound, -, here, published⟩ := solo'.inv.listens i _ listening rfl
      cases bound
      exact ⟨⟨n, listening, here, published⟩, solo'.directory⟩
    · exact ⟨rfl, rfl, rfl, rfl⟩
  · exact ⟨rfl, rfl, rfl, Or.inl rfl, rfl, rfl⟩

/-- The directory that `_validate_socket_directory` accepts. -/
structure Status.Proper (d : Status) : Prop where
  kind : d.kind = .directory
  uid : d.uid = 0
  mode : d.mode = 0o750

theorem solo_serveForever (rounds : Nat) (solo : Solo d i m) (idle : Idle i m) (proper : d.Proper) :
    Comes platform i (fun t => Serves i t ∧ t.directory = d) (serveForever rounds) m := by
  have here := solo.directory
  subst here
  refine Alone.comes (alone_bind.2 (solo_look solo (fun _ => rfl) ?_))
  refine alone_bind.2 ((alone_guard _ _).2
    ⟨fun _ => ?_, fun no => no ⟨proper.kind, proper.uid, proper.mode⟩⟩)
  change Comes platform i (fun t => Serves i t ∧ t.directory = m.directory) (ask .openDirectory >>= _) m
  refine Alone.comes (solo_look (a := ()) solo
    (fun n => by simp only [perform, proper.kind, if_true]) ?_)
  exact Comes.ensure (Comes.handle (Alone.comes ((solo_setUp solo ⟨rfl, rfl, none, idle⟩).mono
    (fun _ _ serves => comes_here serves) fun _ _ no => no)))

end

/-! ## Every run -/

/-- An empty socket directory, as a container starts with it. -/
def Sample.machine : Machine where
  directory := ⟨.directory, 0o750, 0, 1000, 2, 5, 1⟩
  umask := 0o022
  node _ := ⟨.regular, 0o644, 0, 0, 5, 1⟩
  entry _ := none
  holder _ := none
  instances _ := ⟨0o022, none, none, {}⟩

theorem Sample.fresh : Fresh machine := ⟨fun _ => rfl, fun _ => rfl⟩

theorem Sample.tidy : machine.Tidy :=
  ⟨by decide, (fun _ no => by cases no), fun _ no => by cases no⟩

theorem Sample.proper : machine.directory.Proper := ⟨rfl, rfl, rfl⟩

/-- However many services start, fail, are killed and start again, and in
whatever order they take their steps: one that listens listens on the socket
that `executor.sock` names, which is as clients need it, and is the only one. -/
theorem listening_service_is_alone {w : System Nat Call Answer Fault Unit Machine}
    (run : Reachable platform isService Fresh w) {i : Nat} {e : Endpoint}
    (socket : (w.state.instances i).socket = some e) (listening : e.listening = true) :
    (∃ k, e.bound = some k ∧ w.state.entry .socket = some k ∧ w.state.Published k) ∧
      ∀ j f, (w.state.instances j).socket = some f → f.listening = true → j = i := by
  have run' : Reachable platform isService (fun m => Fresh m ∧ (False → m.Tidy)) w :=
    run.mono fun _ fresh => ⟨fresh, False.elim⟩
  have inv := ((compatible False).reachable_sound run').invariant.1
  obtain ⟨k, bound, holds, named, published⟩ := inv.listens i e socket listening
  refine ⟨⟨k, bound, named, published⟩, ?_⟩
  intro j f theirs on
  obtain ⟨-, -, holds', -⟩ := inv.listens j f theirs on
  exact holds'.unique holds

/-- The first service of a container, which clients can reach. -/
theorem sample_serving : ∃ w : System Nat Call Answer Fault Unit Machine,
    Reachable platform isService (fun m => Fresh m ∧ m.Tidy) w ∧ Serves 0 w.state ∧
      w.state.directory = Sample.machine.directory ∧ ∀ j, j ≠ 0 → w.process j = none := by
  have solo : Solo Sample.machine.directory 0 Sample.machine :=
    ⟨rfl, ((compatible True).initially _ ⟨Sample.fresh, fun _ => Sample.tidy⟩).1.1, Sample.tidy,
      fun _ _ => rfl⟩
  have started : Reachable platform isService (fun m => Fresh m ∧ m.Tidy) _ :=
    (Reachable.initial Sample.machine ⟨Sample.fresh, Sample.tidy⟩).next
      (.start _ 0 (serveForever 1) rfl ⟨1, rfl⟩)
  obtain ⟨w, run, ⟨serves, directory⟩, others⟩ := started.comes (i := 0) (by simp)
    (solo_serveForever 1 solo rfl Sample.proper)
  exact ⟨w, run, serves, directory,
    fun j other => (others j other).trans (Function.update_of_ne other _ _)⟩

theorem sample_listening_service : ∃ w : System Nat Call Answer Fault Unit Machine,
    Reachable platform isService Fresh w ∧ ∃ k,
      ((w.state.instances 0).socket = some ⟨some k, true⟩ ∧
        ∃ l, some k = some l ∧ w.state.entry .socket = some l ∧ w.state.Published l) ∧
      ∀ j f, (w.state.instances j).socket = some f → f.listening = true → j = 0 := by
  obtain ⟨w, run, ⟨k, listening, -⟩, -⟩ := sample_serving
  replace run : Reachable platform isService Fresh w := run.mono fun _ start => start.1
  obtain ⟨found, alone⟩ := listening_service_is_alone run listening rfl
  exact ⟨w, run, k, ⟨listening, found⟩, alone⟩

/-- Every state that tidy starts lead to is as tidy. -/
theorem tidy_sound {w : System Nat Call Answer Fault Unit Machine}
    (run : Reachable platform isService (fun m => Fresh m ∧ m.Tidy) w) :
    Compatible.Sound platform (Invariant True) Seen Within Idle w :=
  (compatible True).reachable_sound (run.mono fun _ start => ⟨start.1, fun _ => start.2⟩)

/-- However the services before it ended, a service that starts alone in what
they left, and meets no trouble, comes to serve. -/
theorem service_starts_again {w : System Nat Call Answer Fault Unit Machine}
    (run : Reachable platform isService (fun m => Fresh m ∧ m.Tidy) w)
    (ended : ∀ j, w.process j = none) (proper : w.state.directory.Proper) (i rounds : Nat) :
    Comes platform i (Serves i) (serveForever rounds) w.state := by
  have sound := tidy_sound run
  have idle (j : Nat) : Idle j w.state := sound.idle j (ended j)
  have solo : Solo w.state.directory i w.state :=
    ⟨rfl, sound.invariant.1, sound.invariant.2 trivial, fun j _ => idle j⟩
  exact (solo_serveForever rounds solo (idle i) proper).mono fun _ both => both.1

/-- A service is killed while it listens, and another finds its socket. -/
theorem sample_service_starts : ∃ w : System Nat Call Answer Fault Unit Machine,
    Reachable platform isService (fun m => Fresh m ∧ m.Tidy) w ∧ Serves 0 w.state ∧
      (w.state.ends 0).entry .socket ≠ none ∧
      Comes platform 1 (Serves 1) (serveForever 1) (w.state.ends 0) := by
  obtain ⟨w, run, serves, directory, others⟩ := sample_serving
  obtain ⟨k, listening, named, -⟩ := id serves
  have left : (w.state.ends 0).entry .socket ≠ none := by
    change w.state.entry .socket ≠ none
    rw [named]
    exact Option.some_ne_none k
  refine ⟨w, run, serves, left, ?_⟩
  have present : ∃ p, w.process 0 = some p := by
    rw [← Option.ne_none_iff_exists']
    intro absent
    rw [(tidy_sound run).idle 0 absent] at listening
    cases listening
  obtain ⟨p, present⟩ := present
  have killed : Step platform isService w ⟨w.state.ends 0, Function.update w.process 0 none⟩ :=
    .gone w 0 p present
  refine service_starts_again (run.next killed) ?_ ?_ 1 1
  · intro j
    change Function.update w.process 0 none j = none
    by_cases own : j = 0
    · rw [own, Function.update_self]
    · rw [Function.update_of_ne own, others j own]
  · change w.state.directory.Proper
    rw [directory]
    exact Sample.proper

end CertRenewer.Listener
