import Mathlib.Tactic

/-! Accesses to an array of a fixed size. An access touches the elements of a span; it is safe when the
whole span lies inside the array. Copies that follow each other in the array leave what they copy one
behind the other. -/

namespace Arrays

variable {α : Type*}

/-- The elements from `offset` on, `count` of them. -/
structure Span where
  offset : Nat
  count : Nat

/-- Every element of the span lies in an array of that size. -/
def Span.Inside (size : Nat) (s : Span) : Prop := ∀ k < s.count, s.offset + k < size

theorem Span.inside_iff {size : Nat} {s : Span} :
    s.Inside size ↔ s.count = 0 ∨ s.offset + s.count ≤ size := by
  constructor
  · intro h
    rcases Nat.eq_zero_or_pos s.count with hzero | hpos
    · exact Or.inl hzero
    · have hlast := h (s.count - 1) (by omega)
      exact Or.inr (by omega)
  · rintro h k hk
    omega

instance (size : Nat) (s : Span) : Decidable (s.Inside size) :=
  decidable_of_iff _ Span.inside_iff.symm

/-- A copy of `values` into the array, from `offset` on. -/
structure Store (α : Type*) where
  offset : Nat
  values : List α

def Store.span (w : Store α) : Span := ⟨w.offset, w.values.length⟩

/-- The array after the copy. -/
def Store.apply (a : List α) (w : Store α) : List α :=
  a.take w.offset ++ w.values ++ a.drop (w.offset + w.values.length)

theorem Store.length_apply {a values : List α} {offset : Nat}
    (h : offset + values.length ≤ a.length) :
    (Store.apply a ⟨offset, values⟩).length = a.length := by
  simp only [Store.apply, List.length_append, List.length_take, List.length_drop]
  omega

/-- A copy leaves the elements before it, and ends with what it has copied. -/
theorem Store.take_apply {a values : List α} {offset : Nat} (h : offset ≤ a.length) :
    (Store.apply a ⟨offset, values⟩).take (offset + values.length) = a.take offset ++ values := by
  have hlength : (a.take offset ++ values).length = offset + values.length := by
    rw [List.length_append, List.length_take, Nat.min_eq_left h]
  rw [Store.apply, ← hlength, List.take_left]

/-- A copy behind the first elements puts what it copies behind them. -/
theorem Store.take_apply_behind {a front values : List α} (hfront : a.take front.length = front)
    (hlength : front.length ≤ a.length) :
    (Store.apply a ⟨front.length, values⟩).take (front ++ values).length = front ++ values := by
  have h : (Store.apply a ⟨front.length, values⟩).take (front.length + values.length) =
      a.take front.length ++ values := Store.take_apply hlength
  rwa [hfront, ← List.length_append] at h

end Arrays
