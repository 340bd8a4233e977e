import MiniDms.Python.Exceptions

/-! # Two computations side by side

One piece of code run in two states: `SideBySide R x y` says that both runs raise the same exception,
or both return and the values are related by `R`. The relation goes through a sequence part by
part. -/

namespace Python

universe u

variable {ε α α' β β' : Type u}

/-- Both raise one exception, or both return related values. -/
inductive SideBySide (R : α → α' → Prop) : Except ε α → Except ε α' → Prop
  | raised (e : ε) : SideBySide R (.error e) (.error e)
  | returned {a : α} {a' : α'} (h : R a a') : SideBySide R (.ok a) (.ok a')

namespace SideBySide

variable {R : α → α' → Prop} {S : β → β' → Prop} {x : Except ε α} {x' : Except ε α'}

/-- A computation that does not depend on the state. -/
theorem same {R : α → α → Prop} (h : ∀ a, R a a) (x : Except ε α) : SideBySide R x x := by
  cases x with
  | error e => exact .raised e
  | ok a => exact .returned (h a)

/-- **The rule of sequences.** -/
theorem bind (h : SideBySide R x x') {f : α → Except ε β} {f' : α' → Except ε β'}
    (hf : ∀ a a', R a a' → SideBySide S (f a) (f' a')) : SideBySide S (x >>= f) (x' >>= f') := by
  cases h with
  | raised e => exact .raised e
  | returned hR => exact hf _ _ hR

/-- Functions that keep the relation are applied to the values. -/
theorem map (h : SideBySide R x x') {f : α → β} {f' : α' → β'}
    (hf : ∀ a a', R a a' → S (f a) (f' a')) : SideBySide S (x.map f) (x'.map f') := by
  cases h with
  | raised e => exact .raised e
  | returned hR => exact .returned (hf _ _ hR)

/-- Results that are equal when they return are equal. -/
theorem eq {y : Except ε α} (h : SideBySide Eq x y) : x = y := by
  cases h with
  | raised => rfl
  | returned h => exact congrArg Except.ok h

end SideBySide

end Python
