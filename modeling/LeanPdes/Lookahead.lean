import Mathlib.Tactic

/-! Parties that send each other timed values over links of one fixed delay. What a party has received
before a time was sent a delay earlier, so what the parties send before a time is a computation of
finitely many nested delays, and any run that keeps the delay computes just that. -/

namespace Lookahead

variable {ι τ β : Type*} [LinearOrder τ]

/-- The entries of a trace before a time. -/
def before (t : τ) (trace : List (τ × β)) : List (τ × β) := trace.filter (·.1 < t)

@[simp] theorem before_append (t : τ) (l l' : List (τ × β)) :
    before t (l ++ l') = before t l ++ before t l' := List.filter_append ..

theorem before_eq_nil {t : τ} {trace : List (τ × β)} (h : ∀ e ∈ trace, t ≤ e.1) :
    before t trace = [] := by
  rw [before, List.filter_eq_nil_iff]
  intro e he
  simpa using h e he

variable [AddCommGroup τ] [IsOrderedAddMonoid τ]

/-- The trace that a link with delay `d` makes of a trace. -/
def delay (d : τ) (trace : List (τ × β)) : List (τ × β) := trace.map fun e => (e.1 + d, e.2)

theorem before_delay (t d : τ) (trace : List (τ × β)) :
    before t (delay d trace) = delay d (before (t - d) trace) := by
  rw [before, delay, List.filter_map, before, delay]
  congr 1
  apply List.filter_congr
  intro e _
  simp [lt_sub_iff_add_lt]

/-- What each party sends before a time, given what it has received before that time. -/
abbrev Program (ι τ β : Type*) := ι → τ → List (τ × β) → List (τ × β)

/-- What party `i` sends before time `t`, where `source i` is the party it hears: a sequential
computation that looks back over `n` delays. -/
def sentBefore (program : Program ι τ β) (source : ι → ι) (d : τ) : Nat → τ → ι → List (τ × β)
  | 0, _, _ => []
  | n + 1, t, i => program i t (delay d (sentBefore program source d n (t - d) (source i)))

/-- Traces of a run that has taken each party up to its horizon. No party is more than a delay ahead of
the one it hears, and all times are positive. -/
structure Solution (program : Program ι τ β) (source : ι → ι) (d : τ) (horizon : ι → τ)
    (sent received : ι → List (τ × β)) : Prop where
  follows : ∀ i, ∀ t ≤ horizon i, before t (sent i) = program i t (before t (received i))
  received : ∀ i, ∀ t ≤ horizon i, before t (received i) = before t (delay d (sent (source i)))
  skew : ∀ i, horizon i ≤ horizon (source i) + d
  nonneg : ∀ i, ∀ e ∈ sent i, 0 ≤ e.1

variable {program : Program ι τ β} {source : ι → ι} {d : τ} {horizon : ι → τ}
  {sent received : ι → List (τ × β)}

/-- Before its horizon a party has sent what the sequential computation gives. -/
theorem Solution.sent_eq (h : Solution program source d horizon sent received) {n : Nat} {i : ι}
    {t : τ} (ht : t ≤ n • d) (hhorizon : t ≤ horizon i) :
    before t (sent i) = sentBefore program source d n t i := by
  induction n generalizing i t with
  | zero =>
      rw [zero_nsmul] at ht
      exact before_eq_nil fun e he => ht.trans (h.nonneg i e he)
  | succ n ih =>
      have hlook : t - d ≤ n • d := by
        rw [sub_le_iff_le_add, ← succ_nsmul]
        exact ht
      have hsource : t - d ≤ horizon (source i) :=
        sub_le_iff_le_add.mpr (hhorizon.trans (h.skew i))
      rw [sentBefore, ← ih hlook hsource, ← before_delay, ← h.received i t hhorizon]
      exact h.follows i t hhorizon

/-- Before its horizon a party has received what the computation gives for the party it hears, a delay
later. -/
theorem Solution.received_eq (h : Solution program source d horizon sent received) {n : Nat} {i : ι}
    {t : τ} (ht : t - d ≤ n • d) (hhorizon : t ≤ horizon i) :
    before t (received i) = delay d (sentBefore program source d n (t - d) (source i)) := by
  have hsource : t - d ≤ horizon (source i) :=
    sub_le_iff_le_add.mpr (hhorizon.trans (h.skew i))
  rw [h.received i t hhorizon, before_delay, h.sent_eq ht hsource]

/-- Two runs of the same program agree up to the earlier of their horizons. -/
theorem Solution.unique [Archimedean τ] {horizon' : ι → τ} {sent' received' : ι → List (τ × β)}
    (h : Solution program source d horizon sent received)
    (h' : Solution program source d horizon' sent' received') (hd : 0 < d) {i : ι} {t : τ}
    (ht : t ≤ horizon i) (ht' : t ≤ horizon' i) :
    before t (sent i) = before t (sent' i) ∧ before t (received i) = before t (received' i) := by
  obtain ⟨n, hn⟩ := Archimedean.arch t hd
  have hlook : t - d ≤ n • d := (sub_le_self t hd.le).trans hn
  constructor
  · rw [h.sent_eq hn ht, h'.sent_eq hn ht']
  · rw [h.received_eq hlook ht, h'.received_eq hlook ht']

end Lookahead
