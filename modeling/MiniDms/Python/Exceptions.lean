import Mathlib

/-! # Exceptions

Code that may raise is modelled in `Except`. These rules take a result apart: a sequence that ends
normally has ended normally at every step. -/

namespace Python

universe u

variable {ε δ α β : Type u}

/-- After a part that returns, a sequence goes on with its value. -/
@[simp] theorem ok_bind (a : α) (f : α → Except ε β) : (Except.ok a >>= f) = f a := rfl

/-- Applying a function to a returned value. -/
@[simp] theorem ok_map (f : α → β) (a : α) : (Except.ok a : Except ε α).map f = .ok (f a) := rfl

/-- A sequence returns exactly when its first part returns and the rest returns on that value. -/
theorem bind_eq_ok {x : Except ε α} {f : α → Except ε β} {b : β} :
    (x >>= f) = .ok b ↔ ∃ a, x = .ok a ∧ f a = .ok b := by
  cases x with
  | error e =>
      constructor
      · intro h; cases h
      · rintro ⟨a, h, -⟩; cases h
  | ok a =>
      constructor
      · intro h; exact ⟨a, rfl, h⟩
      · rintro ⟨a', h, hf⟩; cases h; exact hf

/-- A sequence raises what its first part raises, or what the rest raises on the returned value. -/
theorem bind_eq_error {x : Except ε α} {f : α → Except ε β} {e : ε} :
    (x >>= f) = .error e ↔ x = .error e ∨ ∃ a, x = .ok a ∧ f a = .error e := by
  cases x with
  | error e' =>
      constructor
      · intro h; cases h; exact .inl rfl
      · rintro (h | ⟨a, h, -⟩) <;> cases h; rfl
  | ok a =>
      constructor
      · intro h; exact .inr ⟨a, rfl, h⟩
      · rintro (h | ⟨a', h, hf⟩) <;> cases h; exact hf

/-- Applying a function to the value keeps a normal end. -/
theorem map_eq_ok {x : Except ε α} {f : α → β} {b : β} :
    x.map f = .ok b ↔ ∃ a, x = .ok a ∧ f a = b := by
  cases x with
  | error e =>
      constructor
      · intro h; cases h
      · rintro ⟨a, h, -⟩; cases h
  | ok a =>
      constructor
      · intro h; cases h; exact ⟨a, rfl, rfl⟩
      · rintro ⟨a', h, rfl⟩; cases h; rfl

/-- Translating errors keeps a normal end. -/
@[simp] theorem mapError_eq_ok {x : Except ε α} {f : ε → δ} {a : α} :
    x.mapError f = .ok a ↔ x = .ok a := by
  cases x with
  | error e => constructor <;> intro h <;> cases h
  | ok b => constructor <;> intro h <;> cases h <;> rfl

/-- A computation that returns, returns its value. -/
theorem eq_ok_of_isSome {x : Except ε (α × β)} (h : x.toOption.isSome = true) :
    x = .ok ((x.toOption.get h).1, (x.toOption.get h).2) := by
  cases x with
  | error e => cases h
  | ok a => rfl

end Python
