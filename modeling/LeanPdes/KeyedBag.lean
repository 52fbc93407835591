import Mathlib.Tactic

/-! A list from which elements are removed by a key, as a bag of keys. A removal takes the first element
of its key and fails where there is none, so a run of additions and removals succeeds exactly when no
key is ever removed more often than it was there. -/

namespace KeyedBag

variable {α κ : Type*} (key : α → κ)

/-- The bag that the list stands for. -/
def keys (l : List α) : Multiset κ := ↑(l.map key)

@[simp] theorem keys_nil : keys key [] = 0 := rfl

@[simp] theorem keys_cons (a : α) (l : List α) : keys key (a :: l) = key a ::ₘ keys key l := rfl

variable [DecidableEq κ]

/-- The list without its first element of the key. -/
def removeFirst (k : κ) : List α → Option (List α)
  | [] => none
  | a :: l => if key a = k then some l else (removeFirst k l).map (a :: ·)

variable {key}

/-- What a removal takes is the first element of its key, and the others keep their order. -/
theorem removeFirst_eq_some {k : κ} {l l' : List α} : removeFirst key k l = some l' ↔
    ∃ before a after, l = before ++ a :: after ∧ l' = before ++ after ∧ key a = k ∧
      ∀ b ∈ before, key b ≠ k := by
  induction l generalizing l' with
  | nil => simp [removeFirst]
  | cons c l ih =>
      rw [removeFirst]
      split_ifs with hkey
      · constructor
        · rintro ⟨⟩
          exact ⟨[], c, l, rfl, rfl, hkey, by simp⟩
        · rintro ⟨before, a, after, hl, rfl, ha, hbefore⟩
          cases before with
          | nil =>
              cases hl
              rfl
          | cons b before =>
              cases hl
              exact absurd hkey (hbefore c List.mem_cons_self)
      · rw [Option.map_eq_some_iff]
        constructor
        · rintro ⟨l₁, hl₁, rfl⟩
          obtain ⟨before, a, after, rfl, rfl, ha, hbefore⟩ := ih.mp hl₁
          refine ⟨c :: before, a, after, rfl, rfl, ha, ?_⟩
          rintro b (_ | ⟨_, hb⟩)
          · exact hkey
          · exact hbefore b hb
        · rintro ⟨before, a, after, hl, rfl, ha, hbefore⟩
          cases before with
          | nil =>
              cases hl
              exact absurd ha hkey
          | cons b before =>
              cases hl
              refine ⟨before ++ after, ih.mpr ⟨before, a, after, rfl, rfl, ha, ?_⟩, rfl⟩
              exact fun b hb => hbefore b (List.mem_cons_of_mem _ hb)

/-- A removal takes one element of its key out of the bag. -/
theorem keys_of_removeFirst {k : κ} {l l' : List α} (h : removeFirst key k l = some l') :
    keys key l = k ::ₘ keys key l' := by
  obtain ⟨before, a, after, rfl, rfl, rfl, _⟩ := removeFirst_eq_some.mp h
  simp only [keys, List.map_append, List.map_cons]
  exact Multiset.coe_eq_coe.mpr List.perm_middle

theorem removeFirst_eq_none {k : κ} {l : List α} :
    removeFirst key k l = none ↔ (keys key l).count k = 0 := by
  induction l with
  | nil => simp [removeFirst]
  | cons c l ih =>
      rw [removeFirst, keys_cons, Multiset.count_cons]
      split_ifs with hkey hkey' hkey'
      · simp
      · exact absurd hkey.symm hkey'
      · exact absurd hkey'.symm hkey
      · rw [Option.map_eq_none_iff, ih, Nat.add_zero]

/-! ### Runs -/

inductive Op (α κ : Type*)
  | add (a : α)
  | remove (k : κ)

/-- The additions of a key. -/
def adds (key : α → κ) (k : κ) (ops : List (Op α κ)) : Nat :=
  ops.countP fun | .add a => key a = k | .remove _ => false

/-- The removals of a key. -/
def removes (k : κ) (ops : List (Op α κ)) : Nat :=
  ops.countP fun | .add _ => false | .remove k' => k' = k

variable (key) in
def run : List α → List (Op α κ) → Option (List α)
  | l, [] => some l
  | l, .add a :: ops => run (a :: l) ops
  | l, .remove k :: ops => (removeFirst key k l).bind fun l => run l ops

section

variable (k : κ) (a : α) (k' : κ) (ops : List (Op α κ))

@[simp] theorem adds_nil : adds key k ([] : List (Op α κ)) = 0 := rfl

@[simp] theorem removes_nil : removes k ([] : List (Op α κ)) = 0 := rfl

@[simp] theorem adds_add :
    adds key k (.add a :: ops) = adds key k ops + if key a = k then 1 else 0 := by
  simp [adds, List.countP_cons]

@[simp] theorem adds_remove : adds key k (.remove k' :: ops) = adds key k ops := by
  simp [adds]

@[simp] theorem removes_add : removes k (.add a :: ops) = removes k ops := by
  simp [removes]

@[simp] theorem removes_remove :
    removes k (.remove k' :: ops) = removes k ops + if k' = k then 1 else 0 := by
  simp [removes, List.countP_cons]

end

/-- After a run each key is there as often as it was and was added, less its removals. -/
theorem count_of_run {l l' : List α} {ops : List (Op α κ)} (h : run key l ops = some l') (k : κ) :
    (keys key l').count k + removes k ops = (keys key l).count k + adds key k ops := by
  induction ops generalizing l with
  | nil =>
      cases h
      rfl
  | cons op ops ih =>
      cases op with
      | add a =>
          have hcount := ih h
          rw [keys_cons, Multiset.count_cons] at hcount
          rw [removes_add, adds_add, hcount]
          simp only [eq_comm (a := k)]
          omega
      | remove k' =>
          obtain ⟨l₁, hl₁, h⟩ := Option.bind_eq_some_iff.mp h
          have hcount := ih h
          rw [removes_remove, adds_remove, keys_of_removeFirst hl₁, Multiset.count_cons]
          simp only [eq_comm (a := k)]
          omega

/-- A run succeeds exactly when it never removes a key more often than it is there. -/
theorem run_isSome_iff {l : List α} {ops : List (Op α κ)} :
    (run key l ops).isSome ↔
      ∀ pre, pre <+: ops → ∀ k, removes k pre ≤ (keys key l).count k + adds key k pre := by
  induction ops generalizing l with
  | nil =>
      refine iff_of_true rfl fun pre hpre k => ?_
      rw [List.prefix_nil.mp hpre]
      exact Nat.zero_le _
  | cons op ops ih =>
      have step (P : List (Op α κ) → Prop) (hnil : P []) :
          (∀ pre, pre <+: op :: ops → P pre) ↔ ∀ pre, pre <+: ops → P (op :: pre) := by
        constructor
        · exact fun h pre hpre => h _ (List.cons_prefix_cons.mpr ⟨rfl, hpre⟩)
        · intro h pre hpre
          cases pre with
          | nil => exact hnil
          | cons op' pre =>
              obtain ⟨rfl, hpre'⟩ := List.cons_prefix_cons.mp hpre
              exact h pre hpre'
      rw [step _ fun k => Nat.zero_le _]
      cases op with
      | add a =>
          rw [run, ih]
          refine forall₂_congr fun pre _ => forall_congr' fun k => ?_
          rw [removes_add, adds_add, keys_cons, Multiset.count_cons]
          simp only [eq_comm (a := k)]
          omega
      | remove k' =>
          cases hl : removeFirst key k' l with
          | none =>
              rw [run, hl]
              refine iff_of_false (by simp) fun h => ?_
              have hfirst := h [] List.nil_prefix k'
              rw [removes_remove, adds_remove, removeFirst_eq_none.mp hl, if_pos rfl] at hfirst
              simp at hfirst
          | some l' =>
              rw [run, hl, Option.bind_some, ih]
              refine forall₂_congr fun pre _ => forall_congr' fun k => ?_
              rw [removes_remove, adds_remove, keys_of_removeFirst hl, Multiset.count_cons]
              simp only [eq_comm (a := k)]
              split_ifs <;> omega

end KeyedBag
