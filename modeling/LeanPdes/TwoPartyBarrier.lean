import Mathlib.Tactic

/-! Two parties that keep each other within one round. In every round each party announces that it
has arrived and leaves the round only after it has seen the other party's announcement of the same
round. Announcements travel in order and may be seen at any moment, early ones included. -/

namespace TwoParty

/-- The two parties. -/
inductive Side
  | left
  | right
  deriving DecidableEq, Repr

namespace Side

def peer : Side → Side
  | left => right
  | right => left

@[simp] theorem peer_peer (i : Side) : i.peer.peer = i := by cases i <;> rfl

@[simp] theorem peer_ne (i : Side) : i.peer ≠ i := by cases i <;> decide

@[simp] theorem ne_peer (i : Side) : i ≠ i.peer := by cases i <;> decide

theorem eq_or_eq_peer (i j : Side) : j = i ∨ j = i.peer := by cases i <;> cases j <;> decide

theorem forall_of_self_peer {P : Side → Prop} (i : Side) (hself : P i) (hpeer : P i.peer) :
    ∀ j, P j := by
  intro j
  rcases eq_or_eq_peer i j with rfl | rfl
  · exact hself
  · exact hpeer

instance {P : Side → Prop} [∀ i, Decidable (P i)] : Decidable (∀ i, P i) :=
  decidable_of_iff (P left ∧ P right)
    ⟨fun h => forall_of_self_peer left h.1 h.2, fun h => ⟨h left, h right⟩⟩

end Side

/-- One party of the barrier: its round, whether it has announced it, and how many announcements
of the other party it has seen. -/
structure Party where
  round : Nat
  arrived : Bool
  seen : Nat
  deriving DecidableEq, Repr

/-- How many announcements the party has made. The next one to be made is for this round. -/
def Party.sent (p : Party) : Nat := p.round + p.arrived.toNat

abbrev Barrier := Side → Party

def Barrier.start : Barrier := fun _ => ⟨0, false, 0⟩

inductive Barrier.Step : Barrier → Barrier → Prop
  | arrive (b : Barrier) (i : Side) (h : (b i).arrived = false) :
      Step b (Function.update b i { b i with arrived := true })
  | see (b : Barrier) (i : Side) (h : (b i).seen < (b i.peer).sent) :
      Step b (Function.update b i { b i with seen := (b i).seen + 1 })
  | pass (b : Barrier) (i : Side) (harrived : (b i).arrived = true)
      (hseen : (b i).round < (b i).seen) :
      Step b (Function.update b i { b i with round := (b i).round + 1, arrived := false })

/-- A party has seen the announcement of every round it has left, and sees only what was made. -/
structure Barrier.Ordered (b : Barrier) : Prop where
  round_le : ∀ i, (b i).round ≤ (b i).seen
  seen_le : ∀ i, (b i).seen ≤ (b i.peer).sent

namespace Barrier

theorem ordered_start : Ordered start where
  round_le _ := le_rfl
  seen_le _ := le_rfl

theorem Ordered.step {b b' : Barrier} (h : Ordered b) (hstep : Step b b') : Ordered b' := by
  cases hstep with
  | arrive i _ =>
      refine ⟨Side.forall_of_self_peer i ?_ ?_, Side.forall_of_self_peer i ?_ ?_⟩
      · simpa using h.round_le i
      · simpa using h.round_le i.peer
      · simpa using h.seen_le i
      · have hle := h.seen_le i.peer
        simp only [Side.peer_peer, Party.sent] at hle
        simp only [Function.update_of_ne (Side.peer_ne i), Side.peer_peer, Function.update_self,
          Party.sent, Bool.toNat_true]
        have hbool := Bool.toNat_le (b i).arrived
        omega
  | see i hseen =>
      refine ⟨Side.forall_of_self_peer i ?_ ?_, Side.forall_of_self_peer i ?_ ?_⟩
      · have hle := h.round_le i
        simp only [Function.update_self]
        omega
      · simpa using h.round_le i.peer
      · simpa using hseen
      · simpa [Party.sent] using h.seen_le i.peer
  | pass i harrived hseen =>
      refine ⟨Side.forall_of_self_peer i ?_ ?_, Side.forall_of_self_peer i ?_ ?_⟩
      · simpa using hseen
      · simpa using h.round_le i.peer
      · simpa using h.seen_le i
      · have hle := h.seen_le i.peer
        simp only [Side.peer_peer, Party.sent, harrived, Bool.toNat_true] at hle
        simpa [Party.sent] using hle

/-- The parties' rounds differ by at most one. -/
theorem Ordered.skew {b : Barrier} (h : Ordered b) (i : Side) :
    (b i).round ≤ (b i.peer).round + 1 := by
  have hround := h.round_le i
  have hseen := h.seen_le i
  have hbool := Bool.toNat_le (b i.peer).arrived
  rw [Party.sent] at hseen
  omega

/-- A party leaves a round only after it has seen the other's announcement of it. -/
theorem Step.round {b b' : Barrier} (h : Step b b') (i : Side) :
    (b' i).round = (b i).round ∨
    ((b' i).round = (b i).round + 1 ∧ (b i).round < (b i).seen) := by
  cases h with
  | arrive j _ =>
      left
      rcases Side.eq_or_eq_peer i j with rfl | rfl <;> simp
  | see j _ =>
      left
      rcases Side.eq_or_eq_peer i j with rfl | rfl <;> simp
  | pass j _ hseen =>
      rcases Side.eq_or_eq_peer i j with rfl | rfl
      · right
        simpa using hseen
      · left
        simp

/-- A party ahead of the other has the other's announcement: the other one has arrived. -/
theorem Ordered.arrived_of_ahead {b : Barrier} (h : Ordered b) {i : Side}
    (hahead : (b i.peer).round < (b i).round) : (b i.peer).arrived = true := by
  have hround := h.round_le i
  have hseen := h.seen_le i
  rw [Party.sent] at hseen
  by_contra hnot
  rw [Bool.not_eq_true] at hnot
  rw [hnot, Bool.toNat_false] at hseen
  omega

/-- The next announcement a party can see is for its own round, or for the next one when it has
arrived itself. -/
theorem Ordered.next_seen {b : Barrier} (h : Ordered b) {i : Side}
    (hnext : (b i).seen < (b i.peer).sent) :
    (b i).seen = (b i).round ∨ ((b i).arrived = true ∧ (b i).seen = (b i).round + 1) := by
  have hround := h.round_le i
  have hpeer := h.round_le i.peer
  have hseen := h.seen_le i.peer
  have hbool := Bool.toNat_le (b i.peer).arrived
  simp only [Side.peer_peer, Party.sent] at hseen hnext
  cases harrived : (b i).arrived with
  | false =>
      rw [harrived, Bool.toNat_false] at hseen
      left
      omega
  | true =>
      rw [harrived, Bool.toNat_true] at hseen
      by_cases heq : (b i).seen = (b i).round
      · exact Or.inl heq
      · exact Or.inr ⟨rfl, by omega⟩

/-- When both parties have arrived and neither has seen the other's announcement of its round, the
announcement that one of them waits for is the next it sees. -/
theorem Ordered.no_deadlock {b : Barrier} (h : Ordered b) (harrived : ∀ i, (b i).arrived = true)
    (hwaiting : ∀ i, (b i).seen ≤ (b i).round) :
    ∃ i, (b i).seen = (b i).round ∧ (b i).seen < (b i.peer).sent := by
  have hseen : ∀ i, (b i).seen = (b i).round := fun i => le_antisymm (hwaiting i) (h.round_le i)
  have hsent : ∀ i, (b i).sent = (b i).round + 1 := fun i => by rw [Party.sent, harrived]; rfl
  rcases Nat.le_total (b .left).round (b .right).round with hle | hle
  · refine ⟨.left, hseen .left, ?_⟩
    rw [hseen, hsent]
    exact Nat.lt_succ_of_le hle
  · refine ⟨.right, hseen .right, ?_⟩
    rw [hseen, hsent]
    exact Nat.lt_succ_of_le hle

end Barrier

end TwoParty
