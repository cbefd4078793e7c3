import CertRenewer.Crash.Program

/-!
# What a program returns

`Ensures m Q` says of a value that `m` returns that it satisfies `Q`, from
whatever state and however the platform treats its steps. It says nothing of the
state, so that a step in front of it need not be known.
-/

namespace Crash.Prog

variable {σ ε α β : Type} {Q : α → Prop}

def Ensures (m : Prog σ ε α) (Q : α → Prop) : Prop :=
  ∀ s, Holds m (fun a _ => Q a) (fun _ _ => True) (fun _ => True) s

theorem ensures_any (m : Prog σ ε α) : Ensures m (fun _ => True) := by
  intro s
  exact holds_of_final trivial

theorem Ensures.mono {m : Prog σ ε α} {P : α → Prop} (h : Ensures m P) (weaken : ∀ a, P a → Q a) : Ensures m Q := by
  intro s
  exact (h s).mono (fun a _ known => weaken a known) (fun _ _ h => h) fun _ h => h

theorem Ensures.bind {m : Prog σ ε β} {f : β → Prog σ ε α} {P : β → Prop} (first : Ensures m P)
    (rest : ∀ b, P b → Ensures (f b) Q) : Ensures (m >>= f) Q := by
  intro s
  exact holds_bind_of (first s) fun b t known => rest b known t

/-- The rule for a step whose value does not matter. -/
theorem Ensures.after {m : Prog σ ε β} {f : β → Prog σ ε α} (rest : ∀ b, Ensures (f b) Q) : Ensures (m >>= f) Q :=
  (ensures_any m).bind fun b _ => rest b

theorem ensures_pure {a : α} (h : Q a) : Ensures (pure a : Prog σ ε α) Q := fun _ => h

theorem ensures_raise (e : ε) : Ensures (raise e : Prog σ ε α) Q := fun _ => trivial

theorem ensures_ofExcept (r : Except ε α) : Ensures (ofExcept r : Prog σ ε α) (fun a => r = .ok a) := by
  intro s
  exact (holds_ofExcept r).mpr ⟨fun _ h => h, fun _ _ => trivial⟩

theorem ensures_guard (p : Prop) [Decidable p] (e : ε) : Ensures (guard p e : Prog σ ε Unit) (fun _ => p) := by
  intro s
  exact (holds_guard p e).mpr ⟨fun h => h, fun _ => trivial⟩

theorem Ensures.handle {m : Prog σ ε α} {h : ε → Prog σ ε α} (first : Ensures m Q) (rescue : ∀ e, Ensures (h e) Q) :
    Ensures (handle m h) Q := by
  intro s
  rw [holds_handle]
  exact (first s).mono (fun _ _ h => h) (fun e t _ => rescue e t) fun _ h => h

theorem Ensures.ensure {m : Prog σ ε α} {f : Prog σ ε Unit} (h : Ensures m Q) : Ensures (ensure m f) Q := by
  intro s
  rw [holds_ensure]
  have after {P : Prop} (known : P) (t : σ) : Holds f (fun _ _ => P) (fun _ _ => True) (fun _ => True) t :=
    (ensures_any f t).mono (fun _ _ _ => known) (fun _ _ h => h) fun _ h => h
  exact (h s).mono (fun _ t known => after known t) (fun _ t _ => after trivial t) fun _ h => h

end Crash.Prog
