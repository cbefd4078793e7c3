import Mathlib.Logic.Basic

/-!
# Checks

A function that refuses its input returns an error in place of a value. It
succeeds when each of its steps does.
-/

namespace CertRenewer

variable {ε α β : Type}

/-- `if not p: raise error`. -/
def check (p : Prop) [Decidable p] (error : ε) : Except ε Unit := if p then .ok () else .error error

theorem check_ok {p : Prop} [Decidable p] {error : ε} {u : Unit} : check p error = .ok u ↔ p := by
  by_cases h : p <;> simp [check, h]

theorem check_error {p : Prop} [Decidable p] {error e : ε} : check p error = .error e ↔ ¬ p ∧ error = e := by
  by_cases h : p <;> simp [check, h]

theorem bind_eq_ok {x : Except ε α} {f : α → Except ε β} {b : β} :
    (x >>= f) = .ok b ↔ ∃ a, x = .ok a ∧ f a = .ok b := by
  cases x <;> simp [bind, Except.bind]

theorem bind_eq_error {x : Except ε α} {f : α → Except ε β} {e : ε} :
    (x >>= f) = .error e ↔ x = .error e ∨ ∃ a, x = .ok a ∧ f a = .error e := by
  cases x <;> simp [bind, Except.bind]

end CertRenewer
