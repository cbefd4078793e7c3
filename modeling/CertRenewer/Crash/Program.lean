import Mathlib

/-!
# Programs that can be stopped anywhere

A program passes a state along and ends with a value, with an exception, or
cut off. `interrupted` is the only source of trouble: it wraps one primitive
step, which then proceeds, raises before or after its effect, or is the last
thing the process does.

`Holds m Q E D s` says what is true however `m` ends from `s`: `Q` after a
value, `E` after an exception, `D` where the process was cut off. A process
that can be cut off at every primitive ends in each of its intermediate
states, so `D` is what every intermediate state satisfies.
-/

namespace Crash

/-- How a run ends. A cut-off process neither returns nor runs its handlers. -/
inductive Outcome (ε α : Type) where
  | ok (a : α)
  | raised (e : ε)
  | dead
  deriving DecidableEq, Repr

/-- What the platform does with one primitive step. -/
inductive Verdict where
  | proceed
  | refuse
  | fault
  | kill
  | killAfter
  deriving DecidableEq, Repr

def Prog (σ ε α : Type) : Type := σ → Outcome ε α × σ

namespace Prog

variable {σ ε α β : Type}

instance : Monad (Prog σ ε) where
  pure a := fun s => (.ok a, s)
  bind m f := fun s =>
    match m s with
    | (.ok a, s') => f a s'
    | (.raised e, s') => (.raised e, s')
    | (.dead, s') => (.dead, s')

theorem bind_apply (m : Prog σ ε β) (f : β → Prog σ ε α) (s : σ) :
    (m >>= f) s = match m s with
      | (.ok b, s') => f b s'
      | (.raised e, s') => (.raised e, s')
      | (.dead, s') => (.dead, s') := rfl

theorem bind_assoc {γ : Type} (m : Prog σ ε γ) (f : γ → Prog σ ε β) (g : β → Prog σ ε α) :
    m >>= f >>= g = m >>= fun c => f c >>= g := by
  funext s
  simp only [bind_apply]
  rcases m s with ⟨_ | _ | _, t⟩ <;> rfl

theorem eq_of_fst {m : Prog σ ε α} {s : σ} {r : Outcome ε α} (h : (m s).1 = r) :
    m s = (r, (m s).2) := by rw [← h]

def raise (e : ε) : Prog σ ε α := fun s => (.raised e, s)

def die : Prog σ ε α := fun s => (.dead, s)

def read (f : σ → α) : Prog σ ε α := fun s => (.ok (f s), s)

def update (f : σ → σ) : Prog σ ε Unit := fun s => (.ok (), f s)

def ofExcept : Except ε α → Prog σ ε α
  | .ok a => pure a
  | .error e => raise e

def guard (p : Prop) [Decidable p] (e : ε) : Prog σ ε Unit := if p then pure () else raise e

/-- `try: m; except: h`. -/
def handle (m : Prog σ ε α) (h : ε → Prog σ ε α) : Prog σ ε α := fun s =>
  match m s with
  | (.raised e, s') => h e s'
  | r => r

/-- `try: m; finally: f`. An exception of `f` replaces what `m` ended with. -/
def ensure (m : Prog σ ε α) (f : Prog σ ε Unit) : Prog σ ε α := fun s =>
  match m s with
  | (.ok a, s') => (f >>= fun _ => pure a) s'
  | (.raised e, s') => (f >>= fun _ => raise e) s'
  | (.dead, s') => (.dead, s')

/-- One primitive step under a verdict: it may raise or be cut off before its
effect, or after its effect took place. -/
def interrupted (e : ε) (m : Prog σ ε α) : Verdict → Prog σ ε α
  | .proceed => m
  | .refuse => raise e
  | .fault => m >>= fun _ => raise e
  | .kill => die
  | .killAfter => m >>= fun _ => die

/-! ## What holds however a program ends -/

def Holds (m : Prog σ ε α) (Q : α → σ → Prop) (E : ε → σ → Prop) (D : σ → Prop) (s : σ) : Prop :=
  match m s with
  | (.ok a, s') => Q a s'
  | (.raised e, s') => E e s'
  | (.dead, s') => D s'

variable {Q Q' : α → σ → Prop} {E E' : ε → σ → Prop} {D D' : σ → Prop} {s : σ}

theorem Holds.mono {m : Prog σ ε α} (h : Holds m Q E D s) (hQ : ∀ a t, Q a t → Q' a t)
    (hE : ∀ e t, E e t → E' e t) (hD : ∀ t, D t → D' t) : Holds m Q' E' D' s := by
  unfold Holds at h ⊢
  split at h
  · exact hQ _ _ h
  · exact hE _ _ h
  · exact hD _ h

theorem Holds.and {m : Prog σ ε α} (h : Holds m Q E D s) (h' : Holds m Q' E' D' s) :
    Holds m (fun a t => Q a t ∧ Q' a t) (fun e t => E e t ∧ E' e t) (fun t => D t ∧ D' t) s := by
  unfold Holds at h h' ⊢
  split at h <;> simp_all

/-- The end of the run, read as one proposition about its state. -/
theorem Holds.final {m : Prog σ ε α} {I : σ → Prop} (h : Holds m (fun _ => I) (fun _ => I) I s) :
    I (m s).2 := by
  unfold Holds at h
  split at h <;> simp_all

theorem holds_of_final {m : Prog σ ε α} {I : σ → Prop} (h : I (m s).2) :
    Holds m (fun _ => I) (fun _ => I) I s := by
  unfold Holds
  split <;> simp_all

theorem Holds.ok {m : Prog σ ε α} {a : α} {t : σ} (h : Holds m Q E D s) (run : m s = (.ok a, t)) :
    Q a t := by
  simpa [Holds, run] using h

theorem Holds.raised {m : Prog σ ε α} {e : ε} {t : σ} (h : Holds m Q E D s)
    (run : m s = (.raised e, t)) : E e t := by
  simpa [Holds, run] using h

@[simp] theorem holds_pure (a : α) : Holds (pure a : Prog σ ε α) Q E D s ↔ Q a s := Iff.rfl

@[simp] theorem holds_raise (e : ε) : Holds (raise e : Prog σ ε α) Q E D s ↔ E e s := Iff.rfl

@[simp] theorem holds_die : Holds (die : Prog σ ε α) Q E D s ↔ D s := Iff.rfl

@[simp] theorem holds_read (f : σ → α) : Holds (read f : Prog σ ε α) Q E D s ↔ Q (f s) s := Iff.rfl

@[simp] theorem holds_update (f : σ → σ) {Q : Unit → σ → Prop} :
    Holds (update f : Prog σ ε Unit) Q E D s ↔ Q () (f s) := Iff.rfl

@[simp] theorem holds_guard (p : Prop) [Decidable p] (e : ε) {Q : Unit → σ → Prop} :
    Holds (guard p e : Prog σ ε Unit) Q E D s ↔ (p → Q () s) ∧ (¬ p → E e s) := by
  by_cases h : p <;> simp [guard, h]

theorem holds_ofExcept (x : Except ε α) :
    Holds (ofExcept x : Prog σ ε α) Q E D s ↔ (∀ a, x = .ok a → Q a s) ∧ ∀ e, x = .error e → E e s := by
  cases x <;> simp [ofExcept]

theorem holds_bind {m : Prog σ ε β} {f : β → Prog σ ε α} :
    Holds (m >>= f) Q E D s ↔ Holds m (fun b => Holds (f b) Q E D) E D s := by
  unfold Holds
  rw [bind_apply]
  rcases m s with ⟨_ | _ | _, t⟩ <;> simp

theorem holds_handle {m : Prog σ ε α} {h : ε → Prog σ ε α} :
    Holds (handle m h) Q E D s ↔ Holds m Q (fun e => Holds (h e) Q E D) D s := by
  unfold Holds handle
  rcases m s with ⟨_ | _ | _, t⟩ <;> simp

theorem holds_ensure {m : Prog σ ε α} {f : Prog σ ε Unit} :
    Holds (ensure m f) Q E D s ↔
      Holds m (fun a => Holds f (fun _ => Q a) E D) (fun e => Holds f (fun _ => E e) E D) D s := by
  have value (a : α) (t : σ) : Holds (f >>= fun _ => pure a) Q E D t ↔
      Holds f (fun _ => Q a) E D t := holds_bind
  have failure (e : ε) (t : σ) : Holds (f >>= fun _ => raise e) Q E D t ↔
      Holds f (fun _ => E e) E D t := holds_bind
  unfold Holds at value failure ⊢
  unfold ensure
  rcases m s with ⟨_ | _ | _, t⟩
  · exact value _ t
  · exact failure _ t
  · exact Iff.rfl

theorem holds_bind_of {m : Prog σ ε β} {f : β → Prog σ ε α} {R : β → σ → Prop}
    (first : Holds m R E D s) (rest : ∀ b t, R b t → Holds (f b) Q E D t) :
    Holds (m >>= f) Q E D s :=
  holds_bind.2 (first.mono rest (fun _ _ h => h) (fun _ h => h))

/-- A step keeps what holds before it and after its effect, whatever the
platform makes of it. -/
theorem holds_interrupted {e : ε} {m : Prog σ ε α} (v : Verdict) (effect : Holds m Q E D s)
    (before : v ≠ .proceed → E e s ∧ D s)
    (after : v ≠ .proceed → ∀ a t, Q a t → E e t ∧ D t) : Holds (interrupted e m v) Q E D s := by
  cases v with
  | proceed => exact effect
  | refuse => exact (before (by decide)).1
  | kill => exact (before (by decide)).2
  | fault =>
    exact holds_bind_of effect fun a t h => (after (by decide) a t h).1
  | killAfter =>
    exact holds_bind_of effect fun a t h => (after (by decide) a t h).2

/-! ## Programs that stay within a relation -/

/-- `m` moves the state along `R` whatever happens, and a value it returns
satisfies `S` of the state it started from. -/
def Yields (R : σ → σ → Prop) (m : Prog σ ε α) (S : α → σ → Prop) : Prop :=
  ∀ s, Holds m (fun a t => R s t ∧ S a s) (fun _ t => R s t) (fun t => R s t) s

section Relation
variable {R : σ → σ → Prop}

theorem Yields.mono {m : Prog σ ε α} {S S' : α → σ → Prop} (h : Yields R m S)
    (weaken : ∀ a s, S a s → S' a s) : Yields R m S' := fun s =>
  (h s).mono (fun a _ hs => ⟨hs.1, weaken a s hs.2⟩) (fun _ _ hs => hs) (fun _ hs => hs)

theorem Yields.final {m : Prog σ ε α} {S : α → σ → Prop} (h : Yields R m S) (s : σ) : R s (m s).2 :=
  Holds.final ((h s).mono (fun _ _ hs => hs.1) (fun _ _ hs => hs) (fun _ hs => hs))

/-- The rule for a step that stays within `R`, in front of the rest. -/
theorem Yields.then {m : Prog σ ε β} {f : β → Prog σ ε α} {S : β → σ → Prop} (h : Yields R m S)
    (stop : ∀ t, R s t → (∀ e, E e t) ∧ D t)
    (rest : ∀ b t, R s t → S b s → Holds (f b) Q E D t) : Holds (m >>= f) Q E D s :=
  holds_bind.2 ((h s).mono (fun b t hb => rest b t hb.1 hb.2) (fun e t ht => (stop t ht).1 e)
    (fun t ht => (stop t ht).2))

theorem yields_pure (refl : ∀ s, R s s) (a : α) : Yields R (pure a : Prog σ ε α) (fun b _ => b = a) :=
  fun s => ⟨refl s, rfl⟩

theorem yields_raise (refl : ∀ s, R s s) (e : ε) :
    Yields R (raise e : Prog σ ε α) (fun _ _ => False) := fun s => refl s

theorem yields_guard (refl : ∀ s, R s s) (p : Prop) [Decidable p] (e : ε) :
    Yields R (guard p e : Prog σ ε Unit) (fun _ _ => p) := by
  intro s
  simp only [holds_guard]
  exact ⟨fun h => ⟨refl s, h⟩, fun _ => refl s⟩

theorem yields_ofExcept (refl : ∀ s, R s s) (x : Except ε α) :
    Yields R (ofExcept x : Prog σ ε α) (fun a _ => x = .ok a) := fun s =>
  (holds_ofExcept x).2 ⟨fun _ h => ⟨refl s, h⟩, fun _ _ => refl s⟩

theorem yields_bind (trans : ∀ a b c, R a b → R b c → R a c) {m : Prog σ ε β} {f : β → Prog σ ε α}
    {S : β → σ → Prop} {T : β → α → σ → Prop} (h : Yields R m S) (hf : ∀ b, Yields R (f b) (T b))
    (back : ∀ b a s t, R s t → T b a t → T b a s) :
    Yields R (m >>= f) (fun a s => ∃ b, S b s ∧ T b a s) := by
  intro s
  refine h.then (fun t ht => ⟨fun _ => ht, ht⟩) fun b t ht hb => ?_
  refine (hf b t).mono (fun a u hu => ?_) (fun _ u hu => trans _ _ _ ht hu)
    (fun u hu => trans _ _ _ ht hu)
  exact ⟨trans _ _ _ ht hu.1, b, hb, back b a s t ht hu.2⟩

theorem yields_handle (trans : ∀ a b c, R a b → R b c → R a c) {m : Prog σ ε α} {h : ε → Prog σ ε α}
    {S T : α → σ → Prop} (first : Yields R m S) (rescue : ∀ e, Yields R (h e) T)
    (back : ∀ a s t, R s t → T a t → T a s) :
    Yields R (handle m h) (fun a s => S a s ∨ T a s) := by
  intro s
  rw [holds_handle]
  refine (first s).mono (fun a t ht => ⟨ht.1, Or.inl ht.2⟩) (fun e t ht => ?_) fun t ht => ht
  exact (rescue e t).mono (fun a u hu => ⟨trans _ _ _ ht hu.1, Or.inr (back a s t ht hu.2)⟩)
    (fun _ u hu => trans _ _ _ ht hu) fun u hu => trans _ _ _ ht hu

end Relation

/-- A run that returns: no exception, not cut off. -/
abbrev Returns (m : Prog σ ε α) (Q : α → σ → Prop) (s : σ) : Prop :=
  Holds m Q (fun _ _ => False) (fun _ => False) s

theorem Returns.exists {m : Prog σ ε α} (h : Returns m Q s) :
    ∃ a, (m s).1 = .ok a ∧ Q a (m s).2 := by
  unfold Returns Holds at h
  split at h
  · rename_i a t run
    exact ⟨a, by rw [run], by rw [run]; exact h⟩
  · exact h.elim
  · exact h.elim

end Prog

end Crash
