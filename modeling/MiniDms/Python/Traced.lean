import MiniDms.Python.Exceptions

/-! # Computations with a record

A computation that may raise and that leaves a record of what it has done, also when it raises.
`Satisfies` is its triple: every recorded event has a property, and so has the returned value. -/

namespace Python

/-- A computation: the events in order, and how it ended. -/
structure Traced (ω ε α : Type) where
  events : List ω
  result : Except ε α

namespace Traced

variable {ω ε δ α β : Type}

/-- Run the second computation on the value of the first; an exception skips it. -/
def andThen (x : Traced ω ε α) (f : α → Traced ω ε β) : Traced ω ε β :=
  match x.result with
  | .ok a => ⟨x.events ++ (f a).events, (f a).result⟩
  | .error e => ⟨x.events, .error e⟩

/-- What a program records stays recorded when what follows raises. -/
instance : Monad (Traced ω ε) where
  pure a := ⟨[], .ok a⟩
  bind := andThen

/-- Raise an exception. -/
def raise (e : ε) : Traced ω ε α := ⟨[], .error e⟩

/-- Record an event. -/
def record (event : ω) : Traced ω ε Unit := ⟨[event], .ok ()⟩

/-- A call that leaves no event. -/
def call (x : Except ε α) : Traced ω ε α := ⟨[], x⟩

/-- Translate the exceptions of a computation. -/
def mapError (f : ε → δ) (x : Traced ω ε α) : Traced ω δ α := ⟨x.events, x.result.mapError f⟩

/-! ## Results and events -/

@[simp] theorem result_pure (a : α) : (pure a : Traced ω ε α).result = .ok a := rfl

@[simp] theorem events_pure (a : α) : (pure a : Traced ω ε α).events = [] := rfl

@[simp] theorem result_raise (e : ε) : (raise e : Traced ω ε α).result = .error e := rfl

@[simp] theorem events_raise (e : ε) : (raise e : Traced ω ε α).events = [] := rfl

@[simp] theorem result_record (event : ω) : (record event : Traced ω ε Unit).result = .ok () := rfl

@[simp] theorem events_record (event : ω) : (record event : Traced ω ε Unit).events = [event] := rfl

@[simp] theorem result_call (x : Except ε α) : (call x : Traced ω ε α).result = x := rfl

@[simp] theorem events_call (x : Except ε α) : (call x : Traced ω ε α).events = [] := rfl

@[simp] theorem result_mapError (f : ε → δ) (x : Traced ω ε α) :
    (x.mapError f).result = x.result.mapError f := rfl

@[simp] theorem events_mapError (f : ε → δ) (x : Traced ω ε α) :
    (x.mapError f).events = x.events := rfl

/-- The result of a sequence is the sequence of the results. -/
@[simp] theorem result_bind (x : Traced ω ε α) (f : α → Traced ω ε β) :
    (x >>= f).result = x.result >>= fun a => (f a).result := by
  show (x.andThen f).result = _
  unfold andThen
  cases x.result <;> rfl

/-- A sequence whose first part raises records what that part did. -/
theorem events_bind_of_error {x : Traced ω ε α} {e : ε} (h : x.result = .error e)
    (f : α → Traced ω ε β) : (x >>= f).events = x.events := by
  show (x.andThen f).events = _
  simp only [andThen, h]

/-- A sequence whose first part returns records what both parts did. -/
theorem events_bind_of_ok {x : Traced ω ε α} {a : α} (h : x.result = .ok a)
    (f : α → Traced ω ε β) : (x >>= f).events = x.events ++ (f a).events := by
  show (x.andThen f).events = _
  simp only [andThen, h]

/-! ## Triples -/

/-- Every event has the property `p`, and the returned value has the property `q`. -/
structure Satisfies (x : Traced ω ε α) (p : ω → Prop) (q : α → Prop) : Prop where
  events : ∀ event ∈ x.events, p event
  result : ∀ a, x.result = .ok a → q a

variable {p : ω → Prop} {q : α → Prop} {r : β → Prop}

/-- A program that returns a good value satisfies its condition. -/
theorem satisfies_pure {a : α} (h : q a) : (pure a : Traced ω ε α).Satisfies p q where
  events event hevent := by cases hevent
  result b hb := by cases hb; exact h

/-- A program that raises at once satisfies every condition. -/
theorem satisfies_raise (e : ε) : (raise e : Traced ω ε α).Satisfies p q where
  events event hevent := by cases hevent
  result b hb := by cases hb

/-- A program that records a good event satisfies its condition. -/
theorem satisfies_record {event : ω} (h : p event) :
    (record event : Traced ω ε Unit).Satisfies p fun _ => True where
  events other hother := by cases List.mem_singleton.mp hother; exact h
  result _ _ := trivial

/-- A call satisfies what holds of every value it can return. -/
theorem satisfies_call {x : Except ε α} (h : ∀ a, x = .ok a → q a) :
    (call x : Traced ω ε α).Satisfies p q where
  events event hevent := by cases hevent
  result := h

/-- **The rule of sequences.** -/
theorem Satisfies.bind {x : Traced ω ε α} {f : α → Traced ω ε β} (hx : x.Satisfies p q)
    (hf : ∀ a, q a → (f a).Satisfies p r) : (x >>= f).Satisfies p r := by
  cases h : x.result with
  | error e =>
      constructor
      · rw [events_bind_of_error h]
        exact hx.events
      · intro b hb
        rw [result_bind, h] at hb
        cases hb
  | ok a =>
      have hfa := hf a (hx.result a h)
      constructor
      · intro event hevent
        rw [events_bind_of_ok h, List.mem_append] at hevent
        exact hevent.elim (hx.events event) (hfa.events event)
      · intro b hb
        rw [result_bind, h] at hb
        exact hfa.result b hb

/-- A computation may be held to less. -/
theorem Satisfies.mono {p' : ω → Prop} {q' : α → Prop} {x : Traced ω ε α} (hx : x.Satisfies p q)
    (hp : ∀ event, p event → p' event) (hq : ∀ a, q a → q' a) : x.Satisfies p' q' where
  events event hevent := hp event (hx.events event hevent)
  result a ha := hq a (hx.result a ha)

/-- Translated exceptions leave the events and the returned value. -/
theorem Satisfies.mapError {x : Traced ω ε α} (hx : x.Satisfies p q) (f : ε → δ) :
    (x.mapError f).Satisfies p q where
  events := hx.events
  result a ha := hx.result a (mapError_eq_ok.mp ha)

/-! ## Counting events -/

/-- At most `n` events have the property. -/
def AtMost (count : ω → Bool) (n : Nat) (x : Traced ω ε α) : Prop := x.events.countP count ≤ n

variable {count : ω → Bool} {m n : Nat}

/-- Returning records nothing. -/
theorem atMost_pure (a : α) : (pure a : Traced ω ε α).AtMost count 0 := Nat.le_refl 0

/-- Raising records nothing. -/
theorem atMost_raise (e : ε) : (raise e : Traced ω ε α).AtMost count 0 := Nat.le_refl 0

/-- A call records nothing of its own. -/
theorem atMost_call (x : Except ε α) : (call x : Traced ω ε α).AtMost count 0 := Nat.le_refl 0

/-- Recording an event counts it, if it counts. -/
theorem atMost_record (event : ω) :
    (record event : Traced ω ε Unit).AtMost count (if count event then 1 else 0) := by
  rw [AtMost, events_record, List.countP_singleton]

/-- The events of a sequence are those of its parts. -/
theorem AtMost.bind {x : Traced ω ε α} {f : α → Traced ω ε β} (hx : x.AtMost count m)
    (hf : ∀ a, x.result = .ok a → (f a).AtMost count n) : (x >>= f).AtMost count (m + n) := by
  cases h : x.result with
  | error e =>
      rw [AtMost, events_bind_of_error h]
      exact Nat.le_trans hx (Nat.le_add_right m n)
  | ok a =>
      rw [AtMost, events_bind_of_ok h, List.countP_append]
      exact Nat.add_le_add hx (hf a h)

/-- A first part without such an event leaves the count to the second. -/
theorem AtMost.bind_silent {x : Traced ω ε α} {f : α → Traced ω ε β} (hx : x.AtMost count 0)
    (hf : ∀ a, (f a).AtMost count n) : (x >>= f).AtMost count n := by
  have h := hx.bind fun a _ => hf a
  rwa [Nat.zero_add] at h

/-- A second part without such an event leaves the count to the first. -/
theorem AtMost.then_silent {x : Traced ω ε α} {f : α → Traced ω ε β} (hx : x.AtMost count n)
    (hf : ∀ a, (f a).AtMost count 0) : (x >>= f).AtMost count n :=
  hx.bind fun a _ => hf a

/-- A bound can be relaxed. -/
theorem AtMost.mono {x : Traced ω ε α} (hx : x.AtMost count m) (h : m ≤ n) : x.AtMost count n :=
  Nat.le_trans hx h

end Traced

end Python
