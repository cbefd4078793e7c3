import Mathlib

/-!
# Processes that share a state

A process is the tree of the calls it makes: it waits at a call and goes on
with the answer, a value or an exception. Between two calls of one process the
others, and whatever else acts on the state, can do anything their own rules
allow.

A `Contract` is what one process is told and what it promises: an invariant of
the state, `rely` for what happens between its calls, `guarantee` for what each
of its calls does. `Upholds` says that a process keeps its side from here on,
call by call, and what is true where it ends.
-/

namespace Concurrent

inductive Process (C : Type) (A : C → Type) (ε α : Type) where
  | returned (a : α)
  | raised (e : ε)
  | call (c : C) (next : Except ε (A c) → Process C A ε α)

/-- What calls do. `answers` is a call that meets no trouble, its exceptions
included; `trouble` are the exceptions the platform can raise at any such call;
`ends` takes back what a process leaves when it is gone; `environment` is what
others than the processes do. -/
structure Platform (ι C : Type) (A : C → Type) (ε σ : Type) where
  answers : ι → (c : C) → σ → Except ε (A c) → σ → Prop
  trouble : C → ε → Prop
  ends : ι → σ → σ
  environment : σ → σ → Prop

/-- A call as it can go: answered, refused before its effect, or interrupted
after it. -/
def Platform.Acts {ι C : Type} {A : C → Type} {ε σ : Type} (P : Platform ι C A ε σ) (i : ι) (c : C)
    (s : σ) (r : Except ε (A c)) (t : σ) : Prop :=
  P.answers i c s r t ∨
    ∃ e, P.trouble c e ∧ r = .error e ∧ (t = s ∨ ∃ r', P.answers i c s r' t)

structure Contract (σ : Type) where
  invariant : σ → Prop
  rely : σ → σ → Prop
  guarantee : σ → σ → Prop

namespace Process

variable {ι C ε σ α β : Type} {A : C → Type}

protected def bind : Process C A ε β → (β → Process C A ε α) → Process C A ε α
  | .returned b, f => f b
  | .raised e, _ => .raised e
  | .call c next, f => .call c fun r => (next r).bind f

instance : Monad (Process C A ε) where
  pure := .returned
  bind := Process.bind

/-- One call; its exception is raised. -/
def ask (c : C) : Process C A ε (A c) :=
  .call c fun
    | .ok a => .returned a
    | .error e => .raised e

def guard (p : Prop) [Decidable p] (e : ε) : Process C A ε Unit :=
  if p then .returned () else .raised e

def when (p : Prop) [Decidable p] (m : Process C A ε Unit) : Process C A ε Unit :=
  if p then m else .returned ()

/-- `try: m; except: h`. -/
def handle : Process C A ε α → (ε → Process C A ε α) → Process C A ε α
  | .returned a, _ => .returned a
  | .raised e, h => h e
  | .call c next, h => .call c fun r => (next r).handle h

/-- `try: m; finally: f`. An exception of `f` replaces what `m` ended with. -/
def ensure : Process C A ε α → Process C A ε Unit → Process C A ε α
  | .returned a, f => f.bind fun _ => .returned a
  | .raised e, f => f.bind fun _ => .raised e
  | .call c next, f => .call c fun r => (next r).ensure f

/-- `while`: a round goes on with its variables or ends the loop. The loop gives
up after this many rounds, with `spent`. -/
def iterate (spent : ε) (round : β → Process C A ε (β ⊕ α)) : Nat → β → Process C A ε α
  | 0, _ => .raised spent
  | n + 1, l => round l >>= Sum.elim (iterate spent round n) .returned

/-! ## Keeping a contract -/

section
variable (P : Platform ι C A ε σ) (i : ι) (K : Contract σ)

/-- From `s` on every call of the process stays within the guarantee, whatever
happens between its calls, and it ends in `Q` or raises into `E`. -/
def Upholds (Q : α → σ → Prop) (E : ε → σ → Prop) : Process C A ε α → σ → Prop
  | .returned a, s => Q a s
  | .raised e, s => E e s
  | .call c next, s => ∀ s₁, K.rely s s₁ → K.invariant s₁ → ∀ r s₂, P.Acts i c s₁ r s₂ →
      K.guarantee s₁ s₂ ∧ Upholds Q E (next r) s₂

variable {P i K} {Q Q' : α → σ → Prop} {E E' : ε → σ → Prop} {s t : σ}

theorem Upholds.mono {p : Process C A ε α} (h : Upholds P i K Q E p s)
    (value : ∀ a s, Q a s → Q' a s) (failure : ∀ e s, E e s → E' e s) :
    Upholds P i K Q' E' p s := by
  induction p generalizing s with
  | returned a => exact value a s h
  | raised e => exact failure e s h
  | call c next ih =>
    intro s₁ between inv r s₂ acts
    obtain ⟨kept, rest⟩ := h s₁ between inv r s₂ acts
    exact ⟨kept, ih r rest⟩

theorem upholds_bind {p : Process C A ε β} {f : β → Process C A ε α} :
    Upholds P i K Q E (p >>= f) s ↔ Upholds P i K (fun b => Upholds P i K Q E (f b)) E p s := by
  change Upholds P i K Q E (p.bind f) s ↔ _
  induction p generalizing s with
  | returned b => exact Iff.rfl
  | raised e => exact Iff.rfl
  | call c next ih => simp only [Process.bind, Upholds, ih]

theorem upholds_handle {p : Process C A ε α} {h : ε → Process C A ε α} :
    Upholds P i K Q E (p.handle h) s ↔ Upholds P i K Q (fun e => Upholds P i K Q E (h e)) p s := by
  induction p generalizing s with
  | returned a => exact Iff.rfl
  | raised e => exact Iff.rfl
  | call c next ih => simp only [handle, Upholds, ih]

theorem upholds_ensure {p : Process C A ε α} {f : Process C A ε Unit} :
    Upholds P i K Q E (p.ensure f) s ↔
      Upholds P i K (fun a => Upholds P i K (fun _ => Q a) E f)
        (fun e => Upholds P i K (fun _ => E e) E f) p s := by
  induction p generalizing s with
  | returned a => exact upholds_bind
  | raised e => exact upholds_bind
  | call c next ih => simp only [ensure, Upholds, ih]

@[simp] theorem upholds_pure (a : α) :
    Upholds P i K Q E (pure a : Process C A ε α) s ↔ Q a s := Iff.rfl

@[simp] theorem upholds_raised (e : ε) :
    Upholds P i K Q E (.raised e : Process C A ε α) s ↔ E e s := Iff.rfl

@[simp] theorem upholds_guard (p : Prop) [Decidable p] (e : ε) {Q : Unit → σ → Prop} :
    Upholds P i K Q E (guard p e : Process C A ε Unit) s ↔ (p → Q () s) ∧ (¬ p → E e s) := by
  by_cases h : p <;> simp [guard, h, Upholds]

@[simp] theorem upholds_when (p : Prop) [Decidable p] (m : Process C A ε Unit) {Q : Unit → σ → Prop} :
    Upholds P i K Q E (when p m) s ↔ (p → Upholds P i K Q E m s) ∧ (¬ p → Q () s) := by
  by_cases h : p <;> simp [when, h, Upholds]

/-- The rule for a loop: each round keeps `I` and makes `f` smaller, so
that more rounds than it has are never needed. -/
theorem upholds_iterate {spent : ε} {round : β → Process C A ε (β ⊕ α)} {I : β → σ → Prop}
    {f : β → σ → Nat}
    (step : ∀ l s, I l s → Upholds P i K
      (fun r t => (∀ l', r = .inl l' → I l' t ∧ f l' t < f l s) ∧
        ∀ a, r = .inr a → Q a t) E (round l) s)
    {n : Nat} {l : β} (inv : I l s) (enough : f l s < n) :
    Upholds P i K Q E (iterate spent round n l) s := by
  induction n generalizing l s with
  | zero => omega
  | succ n ih =>
    refine upholds_bind.2 ((step l s inv).mono ?_ fun _ _ h => h)
    rintro r t ⟨onward, ended⟩
    cases r with
    | inl l' =>
      obtain ⟨inv', less⟩ := onward l' rfl
      exact ih inv' (by omega)
    | inr a => exact ended a rfl

/-- The rule for one call, from what is known before it and survives the
others. -/
theorem upholds_ask {c : C} {Q : A c → σ → Prop} {H : σ → Prop}
    (stable : ∀ s t, K.rely s t → H s → H t) (here : H s)
    (refused : ∀ s e, H s → K.invariant s → P.trouble c e → K.guarantee s s ∧ E e s)
    (answered : ∀ s r t, H s → K.invariant s → P.answers i c s r t →
      K.guarantee s t ∧ (∀ a, r = .ok a → Q a t) ∧ (∀ e, r = .error e → E e t) ∧
        ∀ e, P.trouble c e → E e t) :
    Upholds P i K Q E (ask c) s := by
  intro s₁ between inv r s₂ acts
  have known : H s₁ := stable s s₁ between here
  rcases acts with normal | ⟨e, trouble, rfl, rfl | ⟨r', normal⟩⟩
  · obtain ⟨kept, value, failure, -⟩ := answered s₁ r s₂ known inv normal
    cases r with
    | ok a => exact ⟨kept, value a rfl⟩
    | error e => exact ⟨kept, failure e rfl⟩
  · exact refused _ e known inv trouble
  · obtain ⟨kept, -, -, failure⟩ := answered s₁ r' s₂ known inv normal
    exact ⟨kept, failure e trouble⟩

/-- `p` keeps `H` to its end, whatever that is. -/
def Keeps (P : Platform ι C A ε σ) (i : ι) (K : Contract σ) (H : σ → Prop) (p : Process C A ε α) :
    Prop :=
  ∀ s, H s → Upholds P i K (fun _ => H) (fun _ => H) p s

section Keeps
variable {H : σ → Prop}

theorem keeps_pure (a : α) : Keeps P i K H (pure a : Process C A ε α) := fun _ h => h

theorem keeps_raised (e : ε) : Keeps P i K H (.raised e : Process C A ε α) := fun _ h => h

theorem keeps_guard (p : Prop) [Decidable p] (e : ε) :
    Keeps P i K H (guard p e : Process C A ε Unit) := fun _ h => by simp [h]

theorem Keeps.bind {p : Process C A ε β} {f : β → Process C A ε α} (first : Keeps P i K H p)
    (rest : ∀ b, Keeps P i K H (f b)) : Keeps P i K H (p >>= f) := by
  intro s h
  exact upholds_bind.2 ((first s h).mono rest fun _ _ h => h)

theorem Keeps.handle {p : Process C A ε α} {h : ε → Process C A ε α} (first : Keeps P i K H p)
    (rest : ∀ e, Keeps P i K H (h e)) : Keeps P i K H (p.handle h) := by
  intro s known
  exact upholds_handle.2 ((first s known).mono (fun _ _ h => h) rest)

theorem Keeps.when {p : Process C A ε Unit} {q : Prop} [Decidable q] (body : Keeps P i K H p) :
    Keeps P i K H (when q p) := by
  intro s h
  exact (upholds_when q p).2 ⟨fun _ => body s h, fun _ => h⟩

end Keeps

/-- A process that waits is not affected by what the others do. -/
theorem Upholds.stable {p : Process C A ε α} (trans : ∀ a b c, K.rely a b → K.rely b c → K.rely a c)
    (value : ∀ a s t, K.rely s t → Q a s → Q a t) (failure : ∀ e s t, K.rely s t → E e s → E e t)
    (h : Upholds P i K Q E p s) (between : K.rely s t) : Upholds P i K Q E p t := by
  cases p with
  | returned a => exact value a s t between h
  | raised e => exact failure e s t between h
  | call c next => exact fun s₁ later inv => h s₁ (trans s t s₁ between later) inv

end

/-! ## Running alone -/

/-- With no trouble and nothing else acting, the process always has an answer
to go on with, and ends in `Q` or raises into `E`. -/
def Alone (P : Platform ι C A ε σ) (i : ι) (Q : α → σ → Prop) (E : ε → σ → Prop) :
    Process C A ε α → σ → Prop
  | .returned a, s => Q a s
  | .raised e, s => E e s
  | .call c next, s => (∃ r t, P.answers i c s r t) ∧
      ∀ r t, P.answers i c s r t → Alone P i Q E (next r) t

section
variable {P : Platform ι C A ε σ} {i : ι} {K : Contract σ} {Q Q' : α → σ → Prop}
variable {E E' : ε → σ → Prop} {s : σ}

theorem Alone.mono {p : Process C A ε α} (h : Alone P i Q E p s) (value : ∀ a s, Q a s → Q' a s)
    (failure : ∀ e s, E e s → E' e s) : Alone P i Q' E' p s := by
  induction p generalizing s with
  | returned a => exact value a s h
  | raised e => exact failure e s h
  | call c next ih => exact ⟨h.1, fun r t run => ih r (h.2 r t run)⟩

theorem alone_bind {p : Process C A ε β} {f : β → Process C A ε α} :
    Alone P i Q E (p >>= f) s ↔ Alone P i (fun b => Alone P i Q E (f b)) E p s := by
  change Alone P i Q E (p.bind f) s ↔ _
  induction p generalizing s with
  | returned b => exact Iff.rfl
  | raised e => exact Iff.rfl
  | call c next ih => simp only [Process.bind, Alone, ih]

theorem alone_handle {p : Process C A ε α} {h : ε → Process C A ε α} :
    Alone P i Q E (p.handle h) s ↔ Alone P i Q (fun e => Alone P i Q E (h e)) p s := by
  induction p generalizing s with
  | returned a => exact Iff.rfl
  | raised e => exact Iff.rfl
  | call c next ih => simp only [handle, Alone, ih]

theorem alone_ensure {p : Process C A ε α} {f : Process C A ε Unit} :
    Alone P i Q E (p.ensure f) s ↔
      Alone P i (fun a => Alone P i (fun _ => Q a) E f) (fun e => Alone P i (fun _ => E e) E f) p s := by
  induction p generalizing s with
  | returned a => exact alone_bind
  | raised e => exact alone_bind
  | call c next ih => simp only [ensure, Alone, ih]

@[simp] theorem alone_guard (p : Prop) [Decidable p] (e : ε) {Q : Unit → σ → Prop} :
    Alone P i Q E (guard p e : Process C A ε Unit) s ↔ (p → Q () s) ∧ (¬ p → E e s) := by
  by_cases h : p <;> simp [guard, h, Alone]

theorem alone_ask {c : C} {Q : A c → σ → Prop} (some : ∃ r t, P.answers i c s r t)
    (value : ∀ a t, P.answers i c s (.ok a) t → Q a t)
    (failure : ∀ e t, P.answers i c s (.error e) t → E e t) : Alone P i Q E (ask c) s := by
  refine ⟨some, fun r t run => ?_⟩
  cases r with
  | ok a => exact value a t run
  | error e => exact failure e t run

/-- With no trouble and nothing else acting, the process comes to `G` on every
way it can take. -/
def Comes (P : Platform ι C A ε σ) (i : ι) (G : σ → Prop) : Process C A ε α → σ → Prop
  | .returned _, s => G s
  | .raised _, s => G s
  | .call c next, s => G s ∨
      (∃ r t, P.answers i c s r t) ∧ ∀ r t, P.answers i c s r t → Comes P i G (next r) t

section Comes
variable {G : σ → Prop}

theorem comes_here {p : Process C A ε α} (here : G s) : Comes P i G p s := by
  cases p with
  | returned a => exact here
  | raised e => exact here
  | call c next => exact Or.inl here

theorem Comes.mono {G' : σ → Prop} {p : Process C A ε α} (comes : Comes P i G p s)
    (weaker : ∀ t, G t → G' t) : Comes P i G' p s := by
  induction p generalizing s with
  | returned a => exact weaker s comes
  | raised e => exact weaker s comes
  | call c next ih =>
    rcases comes with here | ⟨some, rest⟩
    · exact Or.inl (weaker s here)
    · exact Or.inr ⟨some, fun r t answer => ih r (rest r t answer)⟩

theorem Comes.handle {p : Process C A ε α} {h : ε → Process C A ε α} (comes : Comes P i G p s) :
    Comes P i G (p.handle h) s := by
  induction p generalizing s with
  | returned a => exact comes
  | raised e => exact comes_here comes
  | call c next ih =>
    rcases comes with here | ⟨some, rest⟩
    · exact Or.inl here
    · exact Or.inr ⟨some, fun r t run => ih r (rest r t run)⟩

theorem Comes.ensure {p : Process C A ε α} {f : Process C A ε Unit} (comes : Comes P i G p s) :
    Comes P i G (p.ensure f) s := by
  induction p generalizing s with
  | returned a => exact comes_here comes
  | raised e => exact comes_here comes
  | call c next ih =>
    rcases comes with here | ⟨some, rest⟩
    · exact Or.inl here
    · exact Or.inr ⟨some, fun r t run => ih r (rest r t run)⟩

/-- What returns without coming to `G` goes on to it. -/
theorem Alone.comes {p : Process C A ε β} {f : β → Process C A ε α}
    (h : Alone P i (fun b => Comes P i G (f b)) (fun _ _ => False) p s) :
    Comes P i G (p >>= f) s := by
  change Comes P i G (p.bind f) s
  induction p generalizing s with
  | returned b => exact h
  | raised e => exact h.elim
  | call c next ih => exact Or.inr ⟨h.1, fun r t run => ih r (h.2 r t run)⟩

end Comes

/-- What a call keeps among others it keeps alone. -/
theorem Upholds.answered {c : C} {Q : A c → σ → Prop} {a : A c} {t : σ}
    (h : Upholds P i K Q E (ask c) s) (refl : K.rely s s) (inv : K.invariant s)
    (run : P.answers i c s (.ok a) t) : K.guarantee s t ∧ Q a t :=
  h s refl inv (.ok a) t (Or.inl run)

end

end Process

end Concurrent
