import Mathlib.Tactic

/-! Timers that fire in the order of their expiry, equal expiries in the order of arming. Timers that
are armed in the order of their expiry make a queue: they fire in the order of arming. -/

namespace TimerQueue

variable {α τ : Type*} [LinearOrder τ] {expiry : α → τ}

/-- The timer at position `k` of those that wait, oldest first, is the next one to fire. -/
structure FiresNext (expiry : α → τ) (waiting : List α) (k : Nat) (timer : α) : Prop where
  earliest : ∀ other ∈ waiting, expiry timer ≤ expiry other
  oldest : ∀ other ∈ waiting.take k, expiry timer < expiry other

instance (expiry : α → τ) (waiting : List α) (k : Nat) (timer : α) :
    Decidable (FiresNext expiry waiting k timer) :=
  decidable_of_iff ((∀ other ∈ waiting, expiry timer ≤ expiry other) ∧
    ∀ other ∈ waiting.take k, expiry timer < expiry other)
    ⟨fun h => ⟨h.1, h.2⟩, fun h => ⟨h.earliest, h.oldest⟩⟩

/-- Of timers in the order of their expiry, only the oldest one expires before all older ones. -/
theorem first_of_sorted {waiting : List α} {k : Nat} {timer : α}
    (hsorted : waiting.Pairwise (expiry · ≤ expiry ·)) (htimer : waiting[k]? = some timer)
    (holdest : ∀ other ∈ waiting.take k, expiry timer < expiry other) : k = 0 := by
  cases k with
  | zero => rfl
  | succ k =>
      cases waiting with
      | nil => cases htimer
      | cons head rest =>
          have hmem : timer ∈ rest := List.mem_of_getElem? htimer
          have hle := (List.pairwise_cons.mp hsorted).1 timer hmem
          have hlt := holdest head List.mem_cons_self
          exact absurd hle (not_le.mpr hlt)

/-- The timers that were armed, in the order of their expiry, are those that fired, and after them
those that wait. -/
structure Queue (expiry : α → τ) (armed fired waiting : List α) : Prop where
  sorted : armed.Pairwise (expiry · ≤ expiry ·)
  conserved : armed = fired ++ waiting

theorem Queue.empty (expiry : α → τ) : Queue expiry [] [] [] := ⟨.nil, rfl⟩

variable {armed fired waiting : List α}

/-- A timer is armed that expires no earlier than those before it. -/
theorem Queue.arm (h : Queue expiry armed fired waiting) {timer : α}
    (hlatest : ∀ other ∈ armed, expiry other ≤ expiry timer) :
    Queue expiry (armed ++ [timer]) fired (waiting ++ [timer]) where
  sorted := by
    refine List.pairwise_append.mpr ⟨h.sorted, List.pairwise_singleton _ _, ?_⟩
    intro other hother last hlast
    rw [List.mem_singleton.mp hlast]
    exact hlatest other hother
  conserved := by rw [h.conserved, List.append_assoc]

/-- The timer that fires is the one that has waited longest. -/
theorem Queue.fire (h : Queue expiry armed fired waiting) {k : Nat} {timer : α}
    (htimer : waiting[k]? = some timer) (hnext : FiresNext expiry waiting k timer) :
    Queue expiry armed (fired ++ [timer]) (waiting.eraseIdx k) := by
  have hsorted := h.sorted
  rw [h.conserved] at hsorted
  have hfirst := first_of_sorted (List.pairwise_append.mp hsorted).2.1 htimer hnext.oldest
  subst hfirst
  cases waiting with
  | nil => cases htimer
  | cons head rest =>
      cases htimer
      exact ⟨h.sorted, by rw [h.conserved, List.append_assoc]; rfl⟩

/-- The `k`-th timer that fired is the `k`-th one that was armed. -/
theorem Queue.getElem?_fired (h : Queue expiry armed fired waiting) {k : Nat} {timer : α}
    (htimer : fired[k]? = some timer) : armed[k]? = some timer := by
  rw [h.conserved, List.getElem?_append_left (List.getElem?_eq_some_iff.mp htimer).1]
  exact htimer

end TimerQueue
