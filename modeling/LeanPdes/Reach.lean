import Mathlib.Tactic

/-! Runs of a partial step function whose steps may be restricted by a guard. The guard says which
steps a run may take: what the environment promises, a bound that every state keeps, or the calls
that are made at all. A weaker guard gives more runs. -/

namespace Reach

variable {σ α ε : Type*}

/-- The states reached from `init` by successful steps that meet `guard`. -/
inductive Reachable (step : σ → α → Except ε σ) (guard : σ → α → σ → Prop) (init : σ → Prop) :
    σ → Prop
  | start {s : σ} (hinit : init s) : Reachable step guard init s
  | next {s s' : σ} {a : α} (hs : Reachable step guard init s) (hstep : step s a = .ok s')
      (hguard : guard s a s') : Reachable step guard init s'

variable {step : σ → α → Except ε σ} {guard guard' : σ → α → σ → Prop} {init init' : σ → Prop}

/-- A property that holds at the start and is kept by every step of a run holds of every state
reached. The step may use that its source was reached. -/
theorem Reachable.invariant {P : σ → Prop} (hinit : ∀ s, init s → P s)
    (hstep : ∀ s a s', Reachable step guard init s → P s → step s a = .ok s' → guard s a s' → P s')
    {s : σ} (hs : Reachable step guard init s) : P s := by
  induction hs with
  | start h => exact hinit _ h
  | next hs h hguard ih => exact hstep _ _ _ hs ih h hguard

theorem Reachable.mono (hinit : ∀ s, init s → init' s)
    (hguard : ∀ s a s', guard s a s' → guard' s a s') {s : σ}
    (hs : Reachable step guard init s) : Reachable step guard' init' s := by
  induction hs with
  | start h => exact .start (hinit _ h)
  | next _ h hg ih => exact .next ih h (hguard _ _ _ hg)

/-- A run goes on with another one. -/
theorem Reachable.trans {s t : σ} (hs : Reachable step guard init s)
    (ht : Reachable step guard (· = s) t) : Reachable step guard init t := by
  induction ht with
  | start h =>
      rw [h]
      exact hs
  | next _ hstep hguard ih => exact .next ih hstep hguard

/-- Where some step that lowers the rank is left as long as the goal is not met, a run meets it. -/
theorem exists_reachable_of_rank {P goal : σ → Prop} (rank : σ → Nat)
    (hstep : ∀ s, P s → ¬goal s → ∃ a s', step s a = .ok s' ∧ guard s a s' ∧ P s' ∧ rank s' < rank s)
    {s : σ} (hs : P s) : ∃ t, Reachable step guard (· = s) t ∧ goal t := by
  induction hrank : rank s using Nat.strongRecOn generalizing s with
  | ind k ih =>
      by_cases hgoal : goal s
      · exact ⟨s, .start rfl, hgoal⟩
      · obtain ⟨a, s', hnext, hguard, hs', hlt⟩ := hstep s hs hgoal
        obtain ⟨t, ht, hmet⟩ := ih (rank s') (hrank ▸ hlt) hs' rfl
        have hfirst : Reachable step guard (· = s) s' := .next (.start rfl) hnext hguard
        exact ⟨t, hfirst.trans ht, hmet⟩

/-- A run through an abstraction: where every step of the run is matched by zero or more abstract
steps, the abstraction of a reached state is reached abstractly. -/
theorem Reachable.abstract {τ : Type*} {R : τ → τ → Prop} {abs : σ → τ} {s₀ : τ}
    (hinit : ∀ s, init s → Relation.ReflTransGen R s₀ (abs s))
    (hstep : ∀ s a s', Reachable step guard init s → step s a = .ok s' → guard s a s' →
      Relation.ReflTransGen R (abs s) (abs s'))
    {s : σ} (hs : Reachable step guard init s) : Relation.ReflTransGen R s₀ (abs s) := by
  induction hs with
  | start h => exact hinit _ h
  | next hs h hguard ih => exact ih.trans (hstep _ _ _ hs h hguard)

/-- The state after a list of steps, where every step succeeds and meets the guard. -/
def run (step : σ → α → Except ε σ) (guard : σ → α → σ → Prop)
    [∀ s a s', Decidable (guard s a s')] : σ → List α → Option σ
  | s, [] => some s
  | s, a :: rest =>
      match step s a with
      | .error _ => none
      | .ok s' => if guard s a s' then run step guard s' rest else none

theorem Reachable.run [∀ s a s', Decidable (guard s a s')] {s : σ} {acts : List α}
    (hs : Reachable step guard init s) {s' : σ} (hrun : run step guard s acts = some s') :
    Reachable step guard init s' := by
  induction acts generalizing s with
  | nil =>
      cases hrun
      exact hs
  | cons a rest ih =>
      rw [Reach.run] at hrun
      split at hrun
      · cases hrun
      · rename_i t hstep
        split_ifs at hrun with hguard
        exact ih (.next hs hstep hguard) hrun

end Reach
