import Mathlib.Tactic

/-! A ring of `n` slots with a write index and a read index, as a bounded FIFO queue. The indices wrap
modulo `n`, and one slot stays free: equal indices mean an empty ring, and a write index one slot
behind the read index means a full one. -/

namespace FifoRing

variable {α : Type*}

/-- A queue with what it has accepted and what it has delivered so far. -/
@[ext] structure Fifo (α : Type*) where
  accepted : List α
  queue : List α
  delivered : List α

def Fifo.empty : Fifo α := ⟨[], [], []⟩

inductive Fifo.Step (capacity : Nat) : Fifo α → Fifo α → Prop
  | put (q : Fifo α) (a : α) (hroom : q.queue.length < capacity) :
      Step capacity q { q with accepted := q.accepted ++ [a], queue := q.queue ++ [a] }
  | take (q : Fifo α) (a : α) (rest : List α) (hqueue : q.queue = a :: rest) :
      Step capacity q { q with queue := rest, delivered := q.delivered ++ [a] }

/-- A bounded queue loses nothing, keeps the order, and stays within its capacity. -/
theorem Fifo.run {capacity : Nat} {q : Fifo α}
    (h : Relation.ReflTransGen (Fifo.Step capacity) Fifo.empty q) :
    q.accepted = q.delivered ++ q.queue ∧ q.queue.length ≤ capacity := by
  induction h with
  | refl => exact ⟨rfl, Nat.zero_le capacity⟩
  | tail _ hstep ih =>
      obtain ⟨haccepted, hlength⟩ := ih
      cases hstep with
      | put a hroom =>
          refine ⟨?_, ?_⟩
          · rw [haccepted, List.append_assoc]
          · rw [List.length_append, List.length_singleton]
            exact hroom
      | take a rest hqueue =>
          rw [hqueue] at haccepted hlength
          refine ⟨?_, ?_⟩
          · rw [haccepted, List.append_assoc, List.singleton_append]
          · exact (Nat.le_succ _).trans hlength

/-! ### The ring -/

structure Ring (α : Type*) (n : Nat) where
  writeIdx : Nat
  readIdx : Nat
  slots : Nat → α

variable {n : Nat}

/-- Both indices are indices of slots. -/
structure Ring.Valid (r : Ring α n) : Prop where
  write_lt : r.writeIdx < n
  read_lt : r.readIdx < n

/-- The index behind `i`. -/
def next (n i : Nat) : Nat := (i + 1) % n

/-- How many slots hold an unread message. -/
def Ring.used (r : Ring α n) : Nat := (r.writeIdx + n - r.readIdx) % n

/-- The slot of the `k`-th unread message. -/
def Ring.slot (r : Ring α n) (k : Nat) : Nat := (r.readIdx + k) % n

/-- The unread messages, oldest first. -/
def Ring.unread (r : Ring α n) : List α := (List.range r.used).map fun k => r.slots (r.slot k)

/-- The message goes into the slot at the write index. -/
def Ring.store (r : Ring α n) (a : α) : Ring α n :=
  { r with slots := Function.update r.slots r.writeIdx a }

def Ring.publishWrite (r : Ring α n) (i : Nat) : Ring α n := { r with writeIdx := i }

def Ring.publishRead (r : Ring α n) (i : Nat) : Ring α n := { r with readIdx := i }

theorem next_lt {i : Nat} (hi : i < n) : next n i < n := Nat.mod_lt _ (Nat.zero_lt_of_lt hi)

theorem next_eq {i : Nat} (hi : i < n) : next n i = if i + 1 = n then 0 else i + 1 := by
  unfold next
  split_ifs with hwrap
  · rw [hwrap, Nat.mod_self]
  · apply Nat.mod_eq_of_lt
    omega

@[simp] theorem length_unread (r : Ring α n) : r.unread.length = r.used := by
  simp [Ring.unread]

section

variable {r : Ring α n} (h : r.Valid)
include h

theorem Ring.Valid.used_lt : r.used < n := Nat.mod_lt _ (Nat.zero_lt_of_lt h.write_lt)

theorem Ring.Valid.used_eq :
    r.used = if r.readIdx ≤ r.writeIdx then r.writeIdx - r.readIdx
      else r.writeIdx + n - r.readIdx := by
  have hwrite := h.write_lt
  have hread := h.read_lt
  unfold Ring.used
  split_ifs with hle
  · rw [show r.writeIdx + n - r.readIdx = r.writeIdx - r.readIdx + n by omega, Nat.add_mod_right]
    apply Nat.mod_eq_of_lt
    omega
  · apply Nat.mod_eq_of_lt
    omega

/-- The slot behind the last unread message is the one at the write index. -/
theorem Ring.Valid.slot_used : r.slot r.used = r.writeIdx := by
  have hwrite := h.write_lt
  have hread := h.read_lt
  unfold Ring.slot
  rw [h.used_eq]
  split_ifs with hle
  · rw [show r.readIdx + (r.writeIdx - r.readIdx) = r.writeIdx by omega]
    exact Nat.mod_eq_of_lt hwrite
  · rw [show r.readIdx + (r.writeIdx + n - r.readIdx) = r.writeIdx + n by omega, Nat.add_mod_right]
    exact Nat.mod_eq_of_lt hwrite

theorem Ring.Valid.slot_zero : r.slot 0 = r.readIdx := Nat.mod_eq_of_lt h.read_lt

theorem Ring.Valid.used_eq_zero : r.used = 0 ↔ r.readIdx = r.writeIdx := by
  have hwrite := h.write_lt
  have hread := h.read_lt
  rw [h.used_eq]
  split_ifs <;> omega

/-- The ring is full exactly when the write index is one slot behind the read index. -/
theorem Ring.Valid.full_iff : next n r.writeIdx = r.readIdx ↔ r.used + 1 = n := by
  have hwrite := h.write_lt
  have hread := h.read_lt
  rw [next_eq hwrite, h.used_eq]
  split_ifs <;> omega

/-- No unread message is in the slot at the write index. -/
theorem Ring.Valid.slot_ne_writeIdx {k : Nat} (hk : k < r.used) : r.slot k ≠ r.writeIdx := by
  have hused := h.used_lt
  rw [← h.slot_used]
  intro heq
  have hmod : k % n = r.used % n := Nat.ModEq.add_left_cancel' r.readIdx heq
  rw [Nat.mod_eq_of_lt (hk.trans hused), Nat.mod_eq_of_lt hused] at hmod
  omega

/-- Writing a slot leaves the unread messages alone. -/
theorem Ring.Valid.unread_store (a : α) : (r.store a).unread = r.unread := by
  apply List.map_congr_left
  intro k hk
  exact Function.update_of_ne (h.slot_ne_writeIdx (List.mem_range.mp hk)) a r.slots

theorem Ring.Valid.store (a : α) : (r.store a).Valid := ⟨h.write_lt, h.read_lt⟩

theorem Ring.Valid.publishWrite : (r.publishWrite (next n r.writeIdx)).Valid :=
  ⟨next_lt h.write_lt, h.read_lt⟩

theorem Ring.Valid.publishRead : (r.publishRead (next n r.readIdx)).Valid :=
  ⟨h.write_lt, next_lt h.read_lt⟩

theorem Ring.Valid.used_publishWrite (hroom : r.used + 1 < n) :
    (r.publishWrite (next n r.writeIdx)).used = r.used + 1 := by
  have hwrite := h.write_lt
  have hread := h.read_lt
  rw [h.used_eq] at hroom ⊢
  rw [h.publishWrite.used_eq]
  change (if r.readIdx ≤ next n r.writeIdx then next n r.writeIdx - r.readIdx
    else next n r.writeIdx + n - r.readIdx) = _
  rw [next_eq hwrite]
  split_ifs at hroom ⊢ <;> omega

/-- Publishing the write index appends the message of its old slot. -/
theorem Ring.Valid.unread_publishWrite (hroom : r.used + 1 < n) :
    (r.publishWrite (next n r.writeIdx)).unread = r.unread ++ [r.slots r.writeIdx] := by
  unfold Ring.unread
  rw [h.used_publishWrite hroom, List.range_succ, List.map_append, List.map_singleton]
  change _ ++ [r.slots (r.slot r.used)] = _
  rw [h.slot_used]
  rfl

theorem Ring.Valid.used_publishRead (hused : 0 < r.used) :
    (r.publishRead (next n r.readIdx)).used + 1 = r.used := by
  have hwrite := h.write_lt
  have hread := h.read_lt
  rw [h.used_eq] at hused ⊢
  rw [h.publishRead.used_eq]
  change (if next n r.readIdx ≤ r.writeIdx then r.writeIdx - next n r.readIdx
    else r.writeIdx + n - next n r.readIdx) + 1 = _
  rw [next_eq hread]
  split_ifs at hused ⊢ <;> omega

/-- Publishing the read index drops the oldest message. -/
theorem Ring.Valid.unread_publishRead (hused : 0 < r.used) :
    r.unread = r.slots r.readIdx :: (r.publishRead (next n r.readIdx)).unread := by
  have hslot (k : Nat) : (r.publishRead (next n r.readIdx)).slot k = r.slot (k + 1) := by
    unfold Ring.slot next
    rw [Ring.publishRead, Nat.mod_add_mod, Nat.add_assoc, Nat.add_comm 1 k]
  unfold Ring.unread
  rw [← h.used_publishRead hused, List.range_succ_eq_map, List.map_cons, List.map_map, h.slot_zero]
  congr 1
  apply List.map_congr_left
  intro k _
  rw [hslot k]
  rfl

end

end FifoRing
