import CertRenewer.Concurrent.Process

/-!
# Any number of processes, in any order

Processes start, act one call at a time, and can be gone at any moment. What
each keeps on its own, under a contract the others respect, all of them keep
together in every reachable state.
-/

namespace Concurrent

variable {ι C ε σ α : Type} {A : C → Type} [DecidableEq ι]

structure System (ι C : Type) (A : C → Type) (ε α σ : Type) where
  state : σ
  process : ι → Option (Process C A ε α)

/-- One thing that happens. A process that is gone, ended or killed anywhere,
leaves the state as `ends` has it and can be started anew. -/
inductive Step (P : Platform ι C A ε σ) (program : Process C A ε α → Prop) :
    System ι C A ε α σ → System ι C A ε α σ → Prop
  | start (w : System ι C A ε α σ) (i : ι) (p : Process C A ε α) (absent : w.process i = none)
      (known : program p) :
      Step P program w { w with process := Function.update w.process i (some p) }
  | act (w : System ι C A ε α σ) (i : ι) (c : C) (next : Except ε (A c) → Process C A ε α)
      (r : Except ε (A c)) (t : σ) (waits : w.process i = some (.call c next))
      (acts : P.Acts i c w.state r t) :
      Step P program w ⟨t, Function.update w.process i (some (next r))⟩
  | gone (w : System ι C A ε α σ) (i : ι) (p : Process C A ε α) (present : w.process i = some p) :
      Step P program w ⟨P.ends i w.state, Function.update w.process i none⟩
  | environment (w : System ι C A ε α σ) (t : σ) (moves : P.environment w.state t) :
      Step P program w { w with state := t }

inductive Reachable (P : Platform ι C A ε σ) (program : Process C A ε α → Prop) (start : σ → Prop) :
    System ι C A ε α σ → Prop
  | initial (s : σ) (initially : start s) : Reachable P program start ⟨s, fun _ => none⟩
  | next {w w' : System ι C A ε α σ} : Reachable P program start w → Step P program w w' →
      Reachable P program start w'

theorem Reachable.mono {P : Platform ι C A ε σ} {program : Process C A ε α → Prop}
    {start start' : σ → Prop} {w : System ι C A ε α σ} (wider : ∀ s, start s → start' s)
    (run : Reachable P program start w) : Reachable P program start' w := by
  induction run with
  | initial s initially => exact .initial s (wider s initially)
  | next _ step ih => exact .next ih step

/-- A process that comes to `G` alone can come to it among the others. -/
theorem Reachable.comes {P : Platform ι C A ε σ} {program : Process C A ε α → Prop} {start G : σ → Prop}
    {i : ι} {p : Process C A ε α} {w : System ι C A ε α σ} (run : Reachable P program start w)
    (present : w.process i = some p) (comes : Process.Comes P i G p w.state) :
    ∃ w', Reachable P program start w' ∧ G w'.state ∧ ∀ j, j ≠ i → w'.process j = w.process j := by
  induction p generalizing w with
  | returned a => exact ⟨w, run, comes, fun _ _ => rfl⟩
  | raised e => exact ⟨w, run, comes, fun _ _ => rfl⟩
  | call c next ih =>
    rcases comes with here | ⟨⟨r, t, answer⟩, rest⟩
    · exact ⟨w, run, here, fun _ _ => rfl⟩
    · have step : Step P program w _ := .act w i c next r t present (Or.inl answer)
      obtain ⟨w', run', now, others⟩ := ih r (run.next step) (by simp) (rest r t answer)
      exact ⟨w', run', now, fun j other => (others j other).trans (Function.update_of_ne other _ _)⟩

/-- The first calls of a process, answered by `answer`. -/
def Process.follow (answer : (c : C) → σ → Except ε (A c) × σ) :
    Nat → Process C A ε α → σ → Process C A ε α × σ
  | n + 1, .call c next, s => Process.follow answer n (next (answer c s).1) (answer c s).2
  | _, p, s => (p, s)

theorem Reachable.follow {P : Platform ι C A ε σ} {program : Process C A ε α → Prop} {start : σ → Prop}
    {answer : (c : C) → σ → Except ε (A c) × σ} {i : ι} {p : Process C A ε α} (n : Nat)
    {w : System ι C A ε α σ} (can : ∀ c s, P.answers i c s (answer c s).1 (answer c s).2)
    (run : Reachable P program start w) (present : w.process i = some p) :
    ∃ w', Reachable P program start w' ∧ w'.state = (p.follow answer n w.state).2 ∧
      w'.process = Function.update w.process i (some (p.follow answer n w.state).1) := by
  induction n generalizing p w with
  | zero =>
    have stays : w.process = Function.update w.process i (some p) := by simp [← present]
    cases p <;> exact ⟨w, run, rfl, stays⟩
  | succ n ih =>
    have stays : w.process = Function.update w.process i (some p) := by simp [← present]
    cases p with
    | returned a => exact ⟨w, run, rfl, stays⟩
    | raised e => exact ⟨w, run, rfl, stays⟩
    | call c next =>
      have step : Step P program w _ := .act w i c next _ _ present (Or.inl (can c w.state))
      obtain ⟨w', run', state, process⟩ := ih (run.next step) (Function.update_self i _ _)
      exact ⟨w', run', state, by simpa [Process.follow] using process⟩

/-- Contracts that fit together. `Idle i` is what holds of a process that is
not there. -/
structure Compatible (P : Platform ι C A ε σ) (program : Process C A ε α → Prop) (start : σ → Prop)
    (I : σ → Prop) (R G : ι → σ → σ → Prop) (Idle : ι → σ → Prop) : Prop where
  initially : ∀ s, start s → I s ∧ ∀ i, Idle i s
  refl : ∀ i s, R i s s
  trans : ∀ i s t u, R i s t → R i t u → R i s u
  others : ∀ i j s t, i ≠ j → I s → G j s t → R i s t
  keeps : ∀ i s t, I s → G i s t → I t
  environment : ∀ s t, I s → P.environment s t → I t ∧ ∀ i, R i s t
  ends : ∀ i s, I s → G i s (P.ends i s) ∧ Idle i (P.ends i s)
  idle : ∀ i s t, R i s t → Idle i s → Idle i t
  upholds : ∀ i s p, I s → Idle i s → program p →
    Process.Upholds P i ⟨I, R i, G i⟩ (fun _ _ => True) (fun _ _ => True) p s

namespace Compatible

variable {P : Platform ι C A ε σ} {program : Process C A ε α → Prop} {start : σ → Prop}
variable {I : σ → Prop} {R G : ι → σ → σ → Prop} {Idle : ι → σ → Prop}

/-- What is known of every process at any moment. -/
structure Sound (P : Platform ι C A ε σ) (I : σ → Prop) (R G : ι → σ → σ → Prop)
    (Idle : ι → σ → Prop) (w : System ι C A ε α σ) : Prop where
  invariant : I w.state
  idle : ∀ i, w.process i = none → Idle i w.state
  upholds : ∀ i p, w.process i = some p →
    Process.Upholds P i ⟨I, R i, G i⟩ (fun _ _ => True) (fun _ _ => True) p w.state

/-- A move of process `i` leaves the others where they were. -/
theorem undisturbed (fits : Compatible P program start I R G Idle) {w : System ι C A ε α σ}
    (sound : Sound P I R G Idle w) {i : ι} {t : σ} (step : G i w.state t)
    (now : Option (Process C A ε α))
    (own : ∀ p, now = some p →
      Process.Upholds P i ⟨I, R i, G i⟩ (fun _ _ => True) (fun _ _ => True) p t)
    (away : now = none → Idle i t) :
    Sound P I R G Idle ⟨t, Function.update w.process i now⟩ := by
  refine ⟨fits.keeps i _ _ sound.invariant step, ?_, ?_⟩
  · intro j absent
    by_cases same : j = i
    · subst same
      exact away (by simpa using absent)
    · have absent' : w.process j = none := by simpa [same] using absent
      exact fits.idle j _ _ (fits.others j i _ _ same sound.invariant step) (sound.idle j absent')
  · intro j p present
    by_cases same : j = i
    · subst same
      exact own p (by simpa using present)
    · have present' : w.process j = some p := by simpa [same] using present
      exact (sound.upholds j p present').stable (fits.trans j) (fun _ _ _ _ h => h)
        (fun _ _ _ _ h => h) (fits.others j i _ _ same sound.invariant step)

theorem step_sound (fits : Compatible P program start I R G Idle) {w w' : System ι C A ε α σ}
    (sound : Sound P I R G Idle w) (step : Step P program w w') : Sound P I R G Idle w' := by
  cases step with
  | start i p absent known =>
    refine ⟨sound.invariant, ?_, ?_⟩
    · intro j gone
      by_cases same : j = i
      · subst same; simp at gone
      · exact sound.idle j (by simpa [same] using gone)
    · intro j q present
      by_cases same : j = i
      · subst same
        have eq : p = q := by simpa using present
        subst eq
        exact fits.upholds j _ p sound.invariant (sound.idle j absent) known
      · exact sound.upholds j q (by simpa [same] using present)
  | act i c next r t waits acts =>
    obtain ⟨kept, rest⟩ := sound.upholds i _ waits w.state (fits.refl i _) sound.invariant r t acts
    refine fits.undisturbed sound kept _ ?_ (fun no => by cases no)
    intro p eq
    cases eq
    exact rest
  | gone i p present =>
    obtain ⟨kept, idle⟩ := fits.ends i _ sound.invariant
    exact fits.undisturbed sound kept none (fun _ no => by cases no) (fun _ => idle)
  | environment t moves =>
    obtain ⟨kept, seen⟩ := fits.environment _ _ sound.invariant moves
    refine ⟨kept, ?_, ?_⟩
    · intro j absent
      exact fits.idle j _ _ (seen j) (sound.idle j absent)
    · intro j p present
      exact (sound.upholds j p present).stable (fits.trans j) (fun _ _ _ _ h => h)
        (fun _ _ _ _ h => h) (seen j)

/-- Whatever the order of steps, every process keeps its contract. -/
theorem reachable_sound (fits : Compatible P program start I R G Idle)
    {w : System ι C A ε α σ} (run : Reachable P program start w) : Sound P I R G Idle w := by
  induction run with
  | initial s initially =>
    obtain ⟨inv, idle⟩ := fits.initially s initially
    exact ⟨inv, fun i _ => idle i, fun i p no => by cases no⟩
  | next _ step ih => exact fits.step_sound ih step

end Compatible

end Concurrent
