import Mathlib.Tactic

/-! Contracts of calls that may fail: what holds of the result where the call returns, and the errors
it may end with. A sequence of calls meets its contract when each call establishes what the next one
relies on. -/

namespace Contract

universe u v

variable {ε ε' : Type v} {α β : Type u}

/-- The call returns a result in `p`, or it ends with an error in `e`. -/
structure Meets (e : ε → Prop) (p : α → Prop) (x : Except ε α) : Prop where
  result : ∀ a, x = .ok a → p a
  failure : ∀ f, x = .error f → e f

variable {e : ε → Prop} {p : α → Prop} {q : β → Prop} {x : Except ε α}

theorem Meets.ok {a : α} (h : p a) : Meets e p (.ok a) where
  result a' heq := by
    cases heq
    exact h
  failure f heq := by cases heq

theorem Meets.error {f : ε} (h : e f) : Meets e p (.error f) where
  result a heq := by cases heq
  failure f' heq := by
    cases heq
    exact h

/-- The rule of sequence. -/
theorem Meets.bind {g : α → Except ε β} (h : Meets e p x) (hg : ∀ a, p a → Meets e q (g a)) :
    Meets e q (x >>= g) := by
  cases x with
  | ok a => exact hg a (h.result a rfl)
  | error f => exact .error (h.failure f rfl)

theorem Meets.map {g : α → β} (h : Meets e p x) (hg : ∀ a, p a → q (g a)) :
    Meets e q (g <$> x) := by
  cases x with
  | ok a => exact .ok (hg a (h.result a rfl))
  | error f => exact .error (h.failure f rfl)

theorem Meets.mapError {e' : ε' → Prop} {g : ε → ε'} (h : Meets e p x)
    (hg : ∀ f, e f → e' (g f)) : Meets e' p (x.mapError g) := by
  cases x with
  | ok a => exact .ok (h.result a rfl)
  | error f => exact .error (hg f (h.failure f rfl))

/-- The rule of choice. -/
theorem Meets.ite {c : Prop} [Decidable c] {y : Except ε α} (hpos : c → Meets e p x)
    (hneg : ¬c → Meets e p y) : Meets e p (if c then x else y) := by
  by_cases hc : c
  · rw [if_pos hc]
    exact hpos hc
  · rw [if_neg hc]
    exact hneg hc

end Contract
