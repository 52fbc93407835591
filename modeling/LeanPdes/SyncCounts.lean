import LeanPdes.Engine

/-! The table of SYNC messages over any sequence of rounds. Its keys hold the low 32 bits of a round,
so it counts the SYNC messages of a round together with those of the rounds `2 ^ 32` away. -/

namespace LeanPdes

open Words

/-- The table after `sync_count_increment` on each round, from the table of a new engine. -/
def syncCountTable (rounds : List Nat) : GHashTable :=
  rounds.foldl syncCountIncrement fun _ => none

theorem syncCountTable_append (rounds : List Nat) (round : Nat) :
    syncCountTable (rounds ++ [round]) = syncCountIncrement (syncCountTable rounds) round :=
  List.foldl_append ..

/-- The rounds that share their key with `round`. -/
def sameKey (round k : Nat) : Bool := k % 2 ^ 32 = round % 2 ^ 32

theorem syncCountGet_increment_other {table : GHashTable} {seen round : Nat}
    (hkey : sameKey round seen = false) :
    syncCountGet (syncCountIncrement table seen) round = syncCountGet table round := by
  have hne : round % 2 ^ 32 ≠ seen % 2 ^ 32 := by
    intro heq
    simp only [sameKey, heq, decide_true, Bool.true_eq_false] at hkey
  rw [syncCountGet, syncCountGet, syncCountIncrement, Function.update_of_ne hne]

theorem syncCountGet_increment_same {table : GHashTable} {seen round : Nat}
    (hkey : sameKey round seen = true) :
    syncCountGet (syncCountIncrement table seen) round = int32 (syncCountGet table round + 1) := by
  have heq : seen % 2 ^ 32 = round % 2 ^ 32 := by simpa [sameKey] using hkey
  rw [syncCountGet, syncCountGet, syncCountIncrement, heq, Function.update_self]
  rfl

/-- The table counts all rounds that share the key. -/
theorem syncCountGet_table {rounds : List Nat} (hlen : rounds.length < 2 ^ 31) (round : Nat) :
    syncCountGet (syncCountTable rounds) round = rounds.countP (sameKey round) := by
  induction rounds using List.reverseRecOn with
  | nil => rfl
  | append_singleton rounds seen ih =>
      rw [List.length_append, List.length_singleton] at hlen
      have hcount := ih (by omega)
      have hle : rounds.countP (sameKey round) ≤ rounds.length := List.countP_le_length
      rw [syncCountTable_append, List.countP_append]
      cases hkey : sameKey round seen with
      | false =>
          rw [syncCountGet_increment_other hkey, hcount, List.countP_singleton, hkey]
          rfl
      | true =>
          rw [syncCountGet_increment_same hkey, hcount, List.countP_singleton, hkey]
          exact int32_natCast (n := rounds.countP (sameKey round) + 1) (by omega)

/-- The calls for the round itself are some of those that share its key; they are all of them where no
other round does. -/
theorem countP_sameKey_eq_iff {rounds : List Nat} {round : Nat} :
    rounds.countP (sameKey round) = rounds.count round ↔
      ∀ k ∈ rounds, k % 2 ^ 32 = round % 2 ^ 32 → k = round := by
  have hsplit := List.countP_eq_countP_filter_add rounds (sameKey round) (· == round)
  have hself : (rounds.filter (· == round)).countP (sameKey round) = rounds.count round := by
    rw [List.countP_eq_length.mpr, List.count, List.countP_eq_length_filter]
    intro k hk
    have heq : k = round := by simpa using (List.mem_filter.mp hk).2
    simp [sameKey, heq]
  rw [hsplit, hself]
  constructor
  · intro hsum k hk hkey
    have hzero : (rounds.filter fun k => !(k == round)).countP (sameKey round) = 0 := by omega
    by_contra hne
    have hmem : k ∈ rounds.filter fun k => !(k == round) := by
      rw [List.mem_filter]
      exact ⟨hk, by simpa using hne⟩
    exact List.countP_eq_zero.mp hzero k hmem (by simpa [sameKey] using hkey)
  · intro hall
    rw [Nat.add_eq_left, List.countP_eq_zero]
    intro k hk hkey
    obtain ⟨hmem, hne⟩ := List.mem_filter.mp hk
    have heq : k = round := hall k hmem (by simpa [sameKey] using hkey)
    simp [heq] at hne

/-- The count of a round, and with it the test of `is_waiting_for_quanta`, is right exactly where no
SYNC of another round with the same low 32 bits has been counted. -/
theorem sync_count_exact_iff {rounds : List Nat} (hlen : rounds.length < 2 ^ 31) (round : Nat) :
    (syncCountGet (syncCountTable rounds) round = rounds.count round ∧
      ∀ n : Node, n.wwt.syncCounts = syncCountTable rounds → n.wwt.currentQuantumRound = round →
        n.wwt.shouldSync = true → n.waiting = false → round ∈ rounds) ↔
    ∀ k ∈ rounds, k % 2 ^ 32 = round % 2 ^ 32 → k = round := by
  rw [syncCountGet_table hlen, Nat.cast_inj, countP_sameKey_eq_iff, and_iff_left_iff_imp]
  intro hall n htable hround hsync hpass
  have hcount := syncCountGet_table hlen round
  rw [countP_sameKey_eq_iff.mpr hall] at hcount
  rw [Node.waiting, htable, hround, hsync, hcount, Bool.and_true, decide_eq_false_iff_not] at hpass
  rw [← List.count_pos_iff]
  omega

theorem sync_count_exact_iff_twoRounds :
    syncCountGet (syncCountTable [0, 1, 0]) 0 = 2 ∧ ([0, 1, 0] : List Nat).length < 2 ^ 31 := by
  have hlen : [0, 1, 0].length < 2 ^ 31 := by decide
  have hexact := (sync_count_exact_iff hlen 0).mpr (by decide)
  exact ⟨hexact.1, hlen⟩

/-- A node in round `2 ^ 32` that has counted the SYNC of round 0 passes the barrier of its round. -/
theorem sync_count_of_sameKey :
    syncCountGet (syncCountTable [0]) (2 ^ 32) ≠ ([0] : List Nat).count (2 ^ 32) ∧
      ∃ n : Node, n.wwt.syncCounts = syncCountTable [0] ∧ n.wwt.currentQuantumRound = 2 ^ 32 ∧
        n.wwt.shouldSync = true ∧ n.waiting = false ∧ 2 ^ 32 ∉ ([0] : List Nat) := by
  refine ⟨by decide, { pdesEngineWwtCreate true 1000 true 2 5 with
    wwt.syncCounts := syncCountTable [0], wwt.currentQuantumRound := 2 ^ 32 }, rfl, rfl, rfl, ?_, ?_⟩
  · decide
  · decide

end LeanPdes
