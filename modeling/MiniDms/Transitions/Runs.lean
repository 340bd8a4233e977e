import Mathlib

/-! # Runs of a partial step function

A system is given by a step function `step : σ → ε → Option (σ × ρ)`: in state `s` the event `e` is
either impossible (`none`) or leads to a next state together with the reply the environment sees.
A `Run` records every transition it made, newest first, so that properties of whole histories
(which events happened, what they found and what they left) are statements about a list. -/

namespace TransitionSystem

universe u v w

variable {σ : Type u} {ε : Type v} {ρ : Type w}

/-- One executed step: the state it found, the event, the reply and the state it left. -/
structure Transition (σ : Type u) (ε : Type v) (ρ : Type w) where
  /-- The state before the step. -/
  pre : σ
  /-- The event that was executed. -/
  event : ε
  /-- What the environment was answered. -/
  reply : ρ
  /-- The state after the step. -/
  post : σ

/-- A transition that the step function really makes. -/
def Transition.Valid (step : σ → ε → Option (σ × ρ)) (x : Transition σ ε ρ) : Prop :=
  step x.pre x.event = some (x.post, x.reply)

/-- `Run step s h t`: from `s` the transitions of `h`, newest first, lead to `t`. -/
inductive Run (step : σ → ε → Option (σ × ρ)) (s : σ) : List (Transition σ ε ρ) → σ → Prop
  | refl : Run step s [] s
  | step {h : List (Transition σ ε ρ)} {t : σ} {e : ε} {u : σ} {r : ρ} :
      Run step s h t → step t e = some (u, r) → Run step s (⟨t, e, r, u⟩ :: h) u

namespace Run

variable {step : σ → ε → Option (σ × ρ)} {s t u : σ} {h k : List (Transition σ ε ρ)}

/-- The last transition of a nonempty run is valid and ends where the run ends. -/
theorem uncons {x : Transition σ ε ρ} (hr : Run step s (x :: h) t) :
    Run step s h x.pre ∧ x.Valid step ∧ x.post = t := by
  cases hr with
  | step hr hs => exact ⟨hr, hs, rfl⟩

/-- Runs compose; the later transitions stand in front. -/
theorem trans (hr : Run step s h t) (hk : Run step t k u) : Run step s (k ++ h) u := by
  -- The second run is taken apart from its end, where its steps were added.
  induction hk with
  | refl => exact hr
  | step _ hs ih => exact ih.step hs

/-- A run over an appended history passes through an intermediate state. -/
theorem split (hr : Run step s (k ++ h) u) : ∃ t, Run step s h t ∧ Run step t k u := by
  induction k generalizing u with
  | nil => exact ⟨u, hr, .refl⟩
  | cons x k ih =>
      obtain ⟨hr', hx, rfl⟩ := hr.uncons
      obtain ⟨t, h₁, h₂⟩ := ih hr'
      exact ⟨t, h₁, h₂.step hx⟩

/-- Every transition of a run is valid, and cuts the run in two. -/
theorem cut {x : Transition σ ε ρ} (hr : Run step s h t) (hx : x ∈ h) :
    ∃ later earlier, h = later ++ x :: earlier ∧ Run step s earlier x.pre ∧ x.Valid step ∧
      Run step x.post later t := by
  obtain ⟨later, earlier, rfl⟩ := List.append_of_mem hx
  obtain ⟨v, h₁, h₂⟩ := hr.split
  obtain ⟨h₃, hv, rfl⟩ := h₁.uncons
  exact ⟨later, earlier, rfl, h₃, hv, h₂⟩

/-- Every transition of a run is valid. -/
theorem valid {x : Transition σ ε ρ} (hr : Run step s h t) (hx : x ∈ h) : x.Valid step := by
  obtain ⟨_, _, _, _, hv, _⟩ := hr.cut hx
  exact hv

/-- Two transitions of a run cut it in three. -/
theorem cut_two {x y : Transition σ ε ρ} {later mid earlier : List (Transition σ ε ρ)}
    (hr : Run step s (later ++ x :: mid ++ y :: earlier) t) :
    Run step s earlier y.pre ∧ y.Valid step ∧ Run step y.post mid x.pre ∧ x.Valid step := by
  obtain ⟨v, h₁, h₂⟩ := hr.split
  obtain ⟨hearlier, hy, rfl⟩ := h₁.uncons
  obtain ⟨v', h₃, -⟩ := h₂.split
  obtain ⟨hmid, hx, -⟩ := h₃.uncons
  exact ⟨hearlier, hy, hmid, hx⟩

/-! ## Executing a list of events -/

/-- Execute events, oldest first, behind a recorded history; `none` when one is impossible. -/
def execute (step : σ → ε → Option (σ × ρ)) :
    List (Transition σ ε ρ) × σ → List ε → Option (List (Transition σ ε ρ) × σ)
  | x, [] => some x
  | (h, s), e :: es =>
      match step s e with
      | some (t, r) => execute step (⟨s, e, r, t⟩ :: h, t) es
      | none => none

/-- What was executed is a run. -/
theorem of_execute {es : List ε} {x y : List (Transition σ ε ρ) × σ} (hr : Run step s x.1 x.2)
    (he : execute step x es = some y) : Run step s y.1 y.2 := by
  -- Each event lengthens the recorded history, so the run behind it varies.
  induction es generalizing x with
  | nil =>
      cases he
      exact hr
  | cons e es ih =>
      obtain ⟨h, t⟩ := x
      rw [execute] at he
      split at he
      · next u r hs => exact ih (hr.step hs) he
      · cases he

/-- An execution that succeeds is a run. -/
theorem of_isSome {es : List ε} {o : Option (List (Transition σ ε ρ) × σ)}
    (ho : o = execute step ([], s) es) (h : o.isSome = true) :
    Run step s (o.get h).1 (o.get h).2 :=
  of_execute .refl (ho.symm.trans (Option.some_get h).symm)

/-- The recorded history has the executed events, the last one first. -/
theorem execute_events {es : List ε} {x y : List (Transition σ ε ρ) × σ}
    (he : execute step x es = some y) :
    y.1.map Transition.event = es.reverse ++ x.1.map Transition.event := by
  induction es generalizing x with
  | nil =>
      cases he
      rfl
  | cons e es ih =>
      obtain ⟨h, t⟩ := x
      rw [execute] at he
      split at he
      · rw [ih he, List.map_cons, List.reverse_cons, List.append_assoc, List.singleton_append]
      · cases he

/-- A transition of an execution has one of its events. -/
theorem event_mem_of_isSome {es : List ε} {o : Option (List (Transition σ ε ρ) × σ)}
    (ho : o = execute step ([], s) es) (h : o.isSome = true) {x : Transition σ ε ρ}
    (hx : x ∈ (o.get h).1) : x.event ∈ es := by
  have hevents := execute_events (ho.symm.trans (Option.some_get h).symm)
  rw [List.map_nil, List.append_nil] at hevents
  rw [← List.mem_reverse, ← hevents]
  exact List.mem_map_of_mem hx

/-! ## Induction rules

`Allowed` restricts the transitions a run may use; an unrestricted run takes `fun _ => True`. -/

/-- **Invariant rule.** A property of histories and states that holds at the start and is kept by
every allowed transition holds at the end of every run of allowed transitions. -/
theorem induct {Allowed : Transition σ ε ρ → Prop} (hr : Run step s h t)
    (I : List (Transition σ ε ρ) → σ → Prop) (base : I [] s)
    (keep : ∀ h x, Run step s h x.pre → x.Valid step → Allowed x → I h x.pre → I (x :: h) x.post)
    (ha : ∀ x ∈ h, Allowed x) : I h t := by
  induction hr with
  | refl => exact base
  | @step h t e u r hr hs ih =>
      exact keep h ⟨t, e, r, u⟩ hr hs (ha _ List.mem_cons_self)
        (ih fun x hx => ha x (List.mem_cons_of_mem _ hx))

/-- **Invariant rule with an allowed past.** While a transition is examined, everything before it is
known to have been allowed. -/
theorem induct_past {Allowed : Transition σ ε ρ → Prop} (hr : Run step s h t)
    (I : List (Transition σ ε ρ) → σ → Prop) (base : I [] s)
    (keep : ∀ h x, Run step s h x.pre → (∀ y ∈ h, Allowed y) → x.Valid step → Allowed x →
      I h x.pre → I (x :: h) x.post)
    (ha : ∀ x ∈ h, Allowed x) : I h t := by
  -- The strengthened invariant carries the allowed past along with `I`.
  refine (hr.induct (fun h v => (∀ x ∈ h, Allowed x) ∧ I h v) ⟨fun x hx => ?_, base⟩
    (fun h x hr hv hx hI => ⟨fun y hy => ?_, keep h x hr hI.1 hv hx hI.2⟩) ha).2
  · cases hx
  · obtain rfl | hy := List.mem_cons.mp hy
    · exact hx
    · exact hI.1 y hy

/-- **State invariant rule.** A property of states kept by every allowed transition holds along
every run that starts in it. -/
theorem invariant {Allowed : Transition σ ε ρ → Prop} (hr : Run step s h t) (I : σ → Prop)
    (base : I s) (keep : ∀ x : Transition σ ε ρ, x.Valid step → Allowed x → I x.pre → I x.post)
    (ha : ∀ x ∈ h, Allowed x) : I t :=
  hr.induct (fun _ v => I v) base (fun _ x _ hv hx hI => keep x hv hx hI) ha

/-- A property kept by every transition holds along every run that starts in it. -/
theorem preserved (hr : Run step s h t) (I : σ → Prop) (base : I s)
    (keep : ∀ x : Transition σ ε ρ, x.Valid step → I x.pre → I x.post) : I t :=
  hr.invariant I base (fun x hv (_ : True) => keep x hv) fun _ _ => trivial

end Run

end TransitionSystem
