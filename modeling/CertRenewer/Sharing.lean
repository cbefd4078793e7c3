import CertRenewer.Listener

/-!
# What services may do to each other

What a service process may do to the shared directory while others run. Only
the process that has the lock touches `executor.sock`, and it gives the lock up
only when it no longer listens; so a listening socket is always the one that
`executor.sock` names.
-/

namespace CertRenewer.Listener

open Concurrent

namespace Machine

/-- The process that has `.executor-socket.lock`. -/
def Holds (m : Machine) (i : Nat) : Prop := ∃ k, m.entry .lock = some k ∧ m.holder k = some i

theorem Holds.unique {m : Machine} {i j : Nat} (hi : m.Holds i) (hj : m.Holds j) : i = j := by
  obtain ⟨k, named, held⟩ := hi
  obtain ⟨l, named', held'⟩ := hj
  obtain rfl : k = l := Option.some.inj (named.symm.trans named')
  exact Option.some.inj (held.symm.trans held')

/-- The socket clients are meant to find. -/
structure Published (m : Machine) (k : Nat) : Prop where
  kind : (m.status k).kind = .socket
  mode : (m.status k).mode = 0o660
  uid : (m.status k).uid = 0
  gid : (m.status k).gid = m.directory.gid
  nlink : (m.status k).nlink = 1

def Quiet (m : Machine) (i : Nat) : Prop := ∀ e, (m.instances i).socket = some e → e.listening = false

/-- A process listens on the socket that `executor.sock` names, and has the
lock. -/
structure Inv (m : Machine) : Prop where
  locks : ∀ i k, (m.instances i).lock = some k → m.entry .lock = some k
  holders : ∀ i k, m.holder k = some i → (m.instances i).lock = some k
  listens : ∀ i e, (m.instances i).socket = some e → e.listening = true →
    ∃ k, e.bound = some k ∧ m.Holds i ∧ m.entry .socket = some k ∧ m.Published k

/-- What a start accepts of an earlier one. -/
structure Tidy (m : Machine) : Prop where
  umask : masked 0o600 m.umask = 0o600
  lock : ∀ k, m.entry .lock = some k → (m.status k).kind = .regular ∧ (m.status k).mode = 0o600 ∧
    (m.status k).uid = 0 ∧ (m.status k).gid = 0 ∧ (m.status k).nlink = 1
  socket : ∀ k, m.entry .socket = some k → (m.status k).bindable m.directory

/-- What process `i` may do in one call. -/
structure Within (i : Nat) (m t : Machine) : Prop where
  directory : t.directory = m.directory
  umask : t.umask = m.umask
  others : ∀ j, j ≠ i → t.instances j = m.instances j
  holders : ∀ k j, j ≠ i → (t.holder k = some j ↔ m.holder k = some j)
  lock : ∀ k, m.entry .lock = some k → t.entry .lock = some k
  socket : ¬ m.Holds i → t.entry .socket = m.entry .socket
  nodes : ¬ m.Holds i → ∀ k, m.entry .socket = some k → m.entry .lock ≠ some k → t.node k = m.node k
  inv : t.Inv
  tidy : m.Tidy → t.Tidy

/-- What process `i` can see the others do between its calls. -/
structure Seen (i : Nat) (m t : Machine) : Prop where
  directory : t.directory = m.directory
  umask : t.umask = m.umask
  own : t.instances i = m.instances i
  holders : ∀ k, t.holder k = some i ↔ m.holder k = some i
  lock : ∀ k, m.entry .lock = some k → t.entry .lock = some k
  socket : m.Holds i → t.entry .socket = m.entry .socket
  nodes : m.Holds i → ∀ k, m.entry .socket = some k → m.entry .lock ≠ some k → t.node k = m.node k

variable {m t u : Machine} {i j k n : Nat}

theorem Seen.refl (i : Nat) (m : Machine) : Seen i m m :=
  ⟨rfl, rfl, rfl, fun _ => Iff.rfl, fun _ h => h, fun _ => rfl, fun _ _ _ _ => rfl⟩

theorem Seen.holds (h : Seen i m t) (has : m.Holds i) : t.Holds i := by
  obtain ⟨k, named, held⟩ := has
  exact ⟨k, h.lock k named, (h.holders k).2 held⟩

theorem Seen.trans (h : Seen i m t) (h' : Seen i t u) : Seen i m u := by
  refine ⟨h'.directory.trans h.directory, h'.umask.trans h.umask, h'.own.trans h.own,
    fun k => (h'.holders k).trans (h.holders k), fun k named => h'.lock k (h.lock k named), ?_, ?_⟩
  · intro has
    exact (h'.socket (h.holds has)).trans (h.socket has)
  · intro has k named apart
    have elsewhere : t.entry .lock ≠ some k := by
      intro same
      obtain ⟨l, locked, -⟩ := has
      rw [h.lock l locked] at same
      exact apart (locked.trans same)
    have still : t.entry .socket = some k := (h.socket has).trans named
    exact (h'.nodes (h.holds has) k still elsewhere).trans (h.nodes has k named apart)

theorem Within.seen (other : i ≠ j) (h : Within j m t) : Seen i m t := by
  refine ⟨h.directory, h.umask, h.others i other, fun k => h.holders k i other, h.lock, ?_, ?_⟩
  · intro has
    exact h.socket fun theirs => other (has.unique theirs)
  · intro has
    exact h.nodes fun theirs => other (has.unique theirs)

theorem Within.refl (inv : m.Inv) : Within i m m :=
  ⟨rfl, rfl, fun _ _ => rfl, fun _ _ _ => Iff.rfl, fun _ h => h, fun _ => rfl, fun _ _ _ _ => rfl, inv,
    fun h => h⟩

/-! ## The calls -/

theorem setInstance_self (v : Instance) : (m.setInstance i v).instances i = v := by
  simp [setInstance]

theorem setInstance_other (v : Instance) (other : j ≠ i) :
    (m.setInstance i v).instances j = m.instances j := by
  simp [setInstance, other]

theorem status_setNode {file : Node} {l : Nat} (other : l ≠ k) :
    (m.setNode k file).status l = m.status l := by
  have same : (m.setNode k file).node l = m.node l := by simp [setNode, other]
  unfold status
  rw [same]
  rfl

theorem status_setNode_self {file : Node} : (m.setNode k file).status k =
    ⟨file.kind, file.mode, file.uid, file.gid, file.outside + m.linked .lock k + m.linked .socket k,
      file.dev, k⟩ := by
  have same : (m.setNode k file).node k = file := by simp [setNode]
  unfold status
  rw [same]
  rfl

/-- A process changes nothing but itself. -/
theorem within_setInstance {v : Instance} (inv : m.Inv) (lock : ∀ k, v.lock = some k → m.entry .lock = some k)
    (held : ∀ k, m.holder k = some i → v.lock = some k)
    (listens : ∀ e, v.socket = some e → e.listening = true → ∃ k, e.bound = some k ∧ m.Holds i ∧
      m.entry .socket = some k ∧ m.Published k) : Within i m (m.setInstance i v) := by
  refine ⟨rfl, rfl, fun j other => setInstance_other v other, fun _ _ _ => Iff.rfl, fun _ h => h,
    fun _ => rfl, fun _ _ _ _ => rfl, ⟨?_, ?_, ?_⟩, fun h => ⟨h.umask, h.lock, h.socket⟩⟩
  · intro j k has
    by_cases same : j = i
    · subst same
      rw [setInstance_self] at has
      exact lock k has
    · rw [setInstance_other v same] at has
      exact inv.locks j k has
  · intro j k has
    by_cases same : j = i
    · subst same
      rw [setInstance_self]
      exact held k has
    · rw [setInstance_other v same]
      exact inv.holders j k has
  · intro j e has on
    by_cases same : j = i
    · subst same
      rw [setInstance_self] at has
      obtain ⟨k, bound, holds, named, published⟩ := listens e has on
      exact ⟨k, bound, holds, named, ⟨published.1, published.2, published.3, published.4, published.5⟩⟩
    · rw [setInstance_other v same] at has
      obtain ⟨k, bound, holds, named, published⟩ := inv.listens j e has on
      exact ⟨k, bound, holds, named, ⟨published.1, published.2, published.3, published.4, published.5⟩⟩

/-- Only the process with the lock can listen. -/
theorem Inv.quiet (inv : m.Inv) (has : m.Holds i) (quiet : m.Quiet i) (j : Nat) : m.Quiet j := by
  intro e open_
  by_contra on
  obtain ⟨-, -, theirs, -⟩ := inv.listens j e open_ (by simpa using on)
  obtain rfl := theirs.unique has
  exact on (quiet e open_)

/-- Nothing is said of a socket nobody listens on. -/
theorem Inv.of_quiet (locks : ∀ i k, (t.instances i).lock = some k → t.entry .lock = some k)
    (holders : ∀ i k, t.holder k = some i → (t.instances i).lock = some k)
    (quiet : ∀ i, t.Quiet i) : t.Inv := by
  refine ⟨locks, holders, ?_⟩
  intro i e has on
  rw [quiet i e has] at on
  cases on

theorem within_flock (inv : m.Inv) (opened : (m.instances i).lock = some k) (free : m.holder k = none) :
    Within i m { m with holder := Function.update m.holder k (some i) } := by
  have named := inv.locks i k opened
  refine ⟨rfl, rfl, fun _ _ => rfl, ?_, fun _ h => h, fun _ => rfl, fun _ _ _ _ => rfl,
    ⟨inv.locks, ?_, ?_⟩, fun h => ⟨h.umask, h.lock, h.socket⟩⟩
  · intro l j other
    by_cases same : l = k
    · subst same
      simp [free, Ne.symm other]
    · simp [same]
  · intro j l has
    by_cases same : l = k
    · subst same
      obtain rfl : i = j := by simpa using has
      exact opened
    · exact inv.holders j l (by simpa [same] using has)
  · intro j e has on
    obtain ⟨l, bound, ⟨lock, named', held⟩, published⟩ := inv.listens j e has on
    obtain rfl : lock = k := Option.some.inj (named'.symm.trans named)
    rw [free] at held
    cases held

theorem release_holder : (m.release i).holder k = some j ↔ m.holder k = some j ∧ j ≠ i := by
  by_cases mine : m.holder k = some i
  · simp [release, mine, eq_comm]
  · simp only [release, mine, if_false]
    constructor
    · intro theirs
      refine ⟨theirs, ?_⟩
      rintro rfl
      exact mine theirs
    · exact fun h => h.1

/-- A process gives the lock up, having stopped to listen. -/
theorem within_release {v : Instance} (inv : m.Inv) (closed : v.lock = none)
    (quiet : ∀ e, v.socket = some e → e.listening = false) :
    Within i m ((m.release i).setInstance i v) := by
  refine ⟨rfl, rfl, fun j other => setInstance_other v other, ?_, fun _ h => h, fun _ => rfl,
    fun _ _ _ _ => rfl, ⟨?_, ?_, ?_⟩, fun h => ⟨h.umask, h.lock, h.socket⟩⟩
  · intro l j other
    change (m.release i).holder l = some j ↔ _
    rw [release_holder]
    exact and_iff_left other
  · intro j l has
    by_cases same : j = i
    · subst same
      rw [setInstance_self, closed] at has
      cases has
    · rw [setInstance_other v same] at has
      exact inv.locks j l has
  · intro j l has
    obtain ⟨theirs, other⟩ := release_holder.1 has
    rw [setInstance_other v other]
    exact inv.holders j l theirs
  · intro j e has on
    by_cases same : j = i
    · subst same
      rw [setInstance_self] at has
      rw [quiet e has] at on
      cases on
    · rw [setInstance_other v same] at has
      obtain ⟨l, bound, ⟨lock, named, held⟩, socket, published⟩ := inv.listens j e has on
      exact ⟨l, bound, ⟨lock, named, release_holder.2 ⟨held, same⟩⟩, socket,
        ⟨published.1, published.2, published.3, published.4, published.5⟩⟩

theorem nlink_of_both (lock : m.entry .lock = some k) (socket : m.entry .socket = some k) :
    (m.status k).nlink ≠ 1 := by
  simp [status, linked, lock, socket]

/-- The owner and mode of the lock are set to what they have to be. -/
theorem within_lockNode {file : Node} (inv : m.Inv) (named : m.entry .lock = some k)
    (keeps : m.Tidy → file = m.node k) : Within i m (m.setNode k file) := by
  refine ⟨rfl, rfl, fun _ _ => rfl, fun _ _ _ => Iff.rfl, fun _ h => h, fun _ => rfl, ?_,
    ⟨inv.locks, inv.holders, ?_⟩, ?_⟩
  · intro _ l _ apart
    have other : l ≠ k := by
      rintro rfl
      exact apart named
    simp [setNode, other]
  · intro j e has on
    obtain ⟨l, bound, holds, socket, published⟩ := inv.listens j e has on
    have other : l ≠ k := by
      rintro rfl
      exact nlink_of_both named socket published.nlink
    refine ⟨l, bound, holds, socket, ?_⟩
    constructor <;> rw [status_setNode other]
    exacts [published.kind, published.mode, published.uid, published.gid, published.nlink]
  · intro tidy
    rw [keeps tidy]
    simpa [setNode] using tidy

/-- The process with the lock sets the owner and mode of `executor.sock`. -/
theorem within_socketNode {file : Node} (inv : m.Inv) (has : m.Holds i) (quiet : m.Quiet i)
    (named : m.entry .socket = some k) (apart : m.entry .lock ≠ some k)
    (keeps : m.Tidy → ((m.setNode k file).status k).bindable m.directory) :
    Within i m (m.setNode k file) := by
  refine ⟨rfl, rfl, fun _ _ => rfl, fun _ _ _ => Iff.rfl, fun _ h => h, fun _ => rfl,
    fun no => absurd has no, .of_quiet inv.locks inv.holders (inv.quiet has quiet), ?_⟩
  intro tidy
  refine ⟨tidy.umask, ?_, ?_⟩
  · intro l locked
    have other : l ≠ k := by
      rintro rfl
      exact apart locked
    rw [status_setNode other]
    exact tidy.lock l locked
  · intro l socket
    obtain rfl : k = l := Option.some.inj (named.symm.trans socket)
    exact keeps tidy

theorem within_unlink (inv : m.Inv) (has : m.Holds i) (quiet : m.Quiet i) :
    Within i m (m.setEntry .socket none) := by
  refine ⟨rfl, rfl, fun _ _ => rfl, fun _ _ _ => Iff.rfl, ?_, fun no => absurd has no,
    fun no => absurd has no, .of_quiet ?_ inv.holders (inv.quiet has quiet), ?_⟩
  · intro l named
    simpa [setEntry] using named
  · intro j l opened
    simpa [setEntry] using inv.locks j l opened
  · intro tidy
    refine ⟨tidy.umask, ?_, ?_⟩
    · intro l named
      have named' : m.entry .lock = some l := by simpa [setEntry] using named
      have lock := tidy.lock l named'
      have apart : m.entry .socket ≠ some l := fun same => nlink_of_both named' same lock.2.2.2.2
      have same : (m.setEntry .socket none).status l = m.status l := by
        simp [status, setEntry, linked, apart]
      rw [same]
      exact lock
    · intro l socket
      simp [setEntry] at socket

/-- Without a lock file no process is past opening it. -/
theorem Inv.unlocked (inv : m.Inv) (absent : m.entry .lock = none) :
    (∀ j, (m.instances j).lock = none) ∧ (∀ k, m.holder k = none) ∧ ∀ j, m.Quiet j := by
  have closed (j : Nat) : (m.instances j).lock = none := by
    cases opened : (m.instances j).lock with
    | none => rfl
    | some k => cases absent.symm.trans (inv.locks j k opened)
  refine ⟨closed, ?_, ?_⟩
  · intro k
    cases held : m.holder k with
    | none => rfl
    | some j => cases (closed j).symm.trans (inv.holders j k held)
  · intro j e has
    by_contra on
    obtain ⟨-, -, ⟨k, named, -⟩, -⟩ := inv.listens j e has (by simpa using on)
    cases absent.symm.trans named

theorem within_create {mode : Nat} (inv : m.Inv) (unused : m.Unused n) (absent : m.entry .lock = none)
    (mask : m.Tidy → masked mode (m.instances i).umask = 0o600) :
    Within i m (m.perform i n (.create mode)).2 := by
  obtain ⟨closed, free, quiet⟩ := inv.unlocked absent
  simp only [perform, absent]
  refine ⟨rfl, rfl, fun j other => setInstance_other _ other, fun _ _ _ => Iff.rfl, ?_, ?_, ?_,
    .of_quiet ?_ ?_ ?_, ?_⟩
  · intro k named
    cases absent.symm.trans named
  · intro _
    simp [setInstance, setEntry, setNode]
  · intro _ k named _
    have other : k ≠ n := by
      rintro rfl
      exact unused.1 .socket named
    simp [setInstance, setEntry, setNode, other]
  · intro j k has
    by_cases same : j = i
    · subst same
      rw [setInstance_self] at has
      cases has
      simp [setInstance, setEntry]
    · rw [setInstance_other _ same] at has
      cases (closed j).symm.trans has
  · intro j k held
    cases (free k).symm.trans held
  · intro j e has
    by_cases same : j = i
    · subst same
      rw [setInstance_self] at has
      exact quiet j e has
    · rw [setInstance_other _ same] at has
      exact quiet j e has
  · intro tidy
    refine ⟨tidy.umask, ?_, ?_⟩
    · intro k named
      obtain rfl : n = k := by simpa [setInstance, setEntry] using named
      have apart : m.entry .socket ≠ some n := unused.1 .socket
      simp [status, setInstance, setEntry, setNode, linked, apart, mask tidy]
    · intro k named
      have named' : m.entry .socket = some k := by simpa [setInstance, setEntry, setNode] using named
      have other : k ≠ n := by
        rintro rfl
        exact unused.1 .socket named'
      have bindable := tidy.socket k named'
      simpa [status, setInstance, setEntry, setNode, linked, other, Ne.symm other, absent, Status.bindable]
        using bindable

theorem within_bind (inv : m.Inv) (unused : m.Unused n) (has : m.Holds i)
    (quiet : m.Quiet i) (mask : (m.instances i).umask = 0o117) :
    Within i m (m.perform i n .bind).2 := by
  simp only [perform]
  split
  · rename_i absent
    refine ⟨rfl, rfl, fun j other => setInstance_other _ other, fun _ _ _ => Iff.rfl, ?_,
      fun no => absurd has no, fun no => absurd has no, .of_quiet ?_ ?_ ?_, ?_⟩
    · intro k named
      simpa [setInstance, setEntry, setNode] using named
    · intro j k opened
      have opened' : (m.instances j).lock = some k := by
        by_cases same : j = i
        · subst same
          rw [setInstance_self] at opened
          exact opened
        · rw [setInstance_other _ same] at opened
          exact opened
      simpa [setInstance, setEntry, setNode] using inv.locks j k opened'
    · intro j k held
      have opened := inv.holders j k held
      by_cases same : j = i
      · subst same
        rw [setInstance_self]
        exact opened
      · rw [setInstance_other _ same]
        exact opened
    · intro j e open_
      by_cases same : j = i
      · subst same
        rw [setInstance_self] at open_
        cases open_
        rfl
      · rw [setInstance_other _ same] at open_
        exact inv.quiet has quiet j e open_
    · intro tidy
      refine ⟨tidy.umask, ?_, ?_⟩
      · intro k named
        have named' : m.entry .lock = some k := by simpa [setInstance, setEntry, setNode] using named
        have other : k ≠ n := by
          rintro rfl
          exact unused.1 .lock named'
        simpa [status, setInstance, setEntry, setNode, linked, other, Ne.symm other, absent] using
          tidy.lock k named'
      · intro k named
        obtain rfl : n = k := by simpa [setInstance, setEntry, setNode] using named
        have apart : m.entry .lock ≠ some n := unused.1 .lock
        simp [status, setInstance, setEntry, setNode, linked, apart, mask, Status.bindable, masked]
  · exact .refl inv

end Machine

end CertRenewer.Listener
