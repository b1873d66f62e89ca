set_option autoImplicit false

/-!
# Computations that may stop

How a sequence of two parts ends, for checks and for computations on a state.
-/

namespace Untangle

/-- A sequence of checks succeeds if both of its parts do. -/
theorem except_bind_eq_ok {ε α β : Type} {x : Except ε α} {f : α → Except ε β} {b : β} :
    (x >>= f) = .ok b ↔ ∃ a, x = .ok a ∧ f a = .ok b := by
  cases x with
  | error e =>
    constructor
    · intro h
      cases h
    · rintro ⟨a, h, -⟩
      cases h
  | ok a =>
    constructor
    · intro h
      exact ⟨a, rfl, h⟩
    · rintro ⟨a', h, h'⟩
      cases h
      exact h'

/-- A sequence ends with a result if both of its parts do. -/
theorem bind_eq_ok {ε σ α β : Type} {c : EStateM ε σ α} {f : α → EStateM ε σ β} {s s' : σ} {b : β} :
    (c >>= f) s = .ok b s' ↔ ∃ a s₁, c s = .ok a s₁ ∧ f a s₁ = .ok b s' := by
  show EStateM.bind c f s = _ ↔ _
  unfold EStateM.bind
  cases c s with
  | ok a s₁ =>
    constructor
    · intro h
      exact ⟨a, s₁, rfl, h⟩
    · rintro ⟨a', s₁', heq, h⟩
      cases heq
      exact h
  | error e s₁ =>
    constructor
    · intro h
      cases h
    · rintro ⟨a', s₁', heq, -⟩
      cases heq

theorem bind_of_ok {ε σ α β : Type} {c : EStateM ε σ α} {f : α → EStateM ε σ β} {s s' : σ} {a : α}
    (h : c s = .ok a s') : (c >>= f) s = f a s' := by
  show EStateM.bind c f s = _
  simp [EStateM.bind, h]

theorem bind_of_error {ε σ α β : Type} {c : EStateM ε σ α} {f : α → EStateM ε σ β} {s s' : σ}
    {e : ε} (h : c s = .error e s') : (c >>= f) s = .error e s' := by
  show EStateM.bind c f s = _
  simp [EStateM.bind, h]

end Untangle
