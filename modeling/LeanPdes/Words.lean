import Mathlib.Tactic

/-! Machine words as integers: the values that fixed-width signed and unsigned variables hold, with
two's complement wrap-around, and little-endian byte strings. -/

namespace Words

/-- The value an `int64_t` holds after `x` is stored in it. -/
def int64 (x : Int) : Int := x.bmod (2 ^ 64)

/-- The value a `uint64_t` holds after `x` is stored in it. -/
def uint64 (x : Int) : Nat := (x % 2 ^ 64).toNat

/-- The value an `int` holds after `x` is stored in it. -/
def int32 (x : Int) : Int := x.bmod (2 ^ 32)

theorem int64_eq_self {x : Int} (hlow : -2 ^ 63 ≤ x) (hhigh : x < 2 ^ 63) : int64 x = x := by
  rw [int64, Int.bmod_def]
  split_ifs <;> omega

theorem int64_ge (x : Int) : -2 ^ 63 ≤ int64 x := by
  rw [int64, Int.bmod_def]
  split_ifs <;> omega

theorem int64_lt (x : Int) : int64 x < 2 ^ 63 := by
  rw [int64, Int.bmod_def]
  split_ifs <;> omega

theorem int64_uint64 (x : Int) : int64 (uint64 x) = int64 x := by
  have hcast : ((uint64 x : Nat) : Int) = x % 2 ^ 64 := by
    rw [uint64]
    omega
  rw [hcast, int64, int64, Int.bmod_def, Int.bmod_def]
  norm_num

theorem uint64_lt (x : Int) : uint64 x < 2 ^ 64 := by
  rw [uint64]
  omega

theorem int32_natCast {n : Nat} (h : n < 2 ^ 31) : int32 n = n := by
  rw [int32, Int.bmod_def]
  split_ifs <;> omega

/-- The `n` low bytes of `x`, the least significant first. -/
def bytesLE : Nat → Nat → List UInt8
  | 0, _ => []
  | n + 1, x => UInt8.ofNat (x % 256) :: bytesLE n (x / 256)

/-- The value of a little-endian byte string. -/
def valueLE : List UInt8 → Nat
  | [] => 0
  | b :: bs => b.toNat + 256 * valueLE bs

@[simp] theorem length_bytesLE (n x : Nat) : (bytesLE n x).length = n := by
  induction n generalizing x with
  | zero => rfl
  | succ n ih => simp [bytesLE, ih]

theorem valueLE_bytesLE (n : Nat) {x : Nat} (h : x < 256 ^ n) : valueLE (bytesLE n x) = x := by
  induction n generalizing x with
  | zero =>
      have : x = 0 := by simpa using h
      rw [this]
      rfl
  | succ n ih =>
      have hdiv : x / 256 < 256 ^ n := by
        rw [Nat.div_lt_iff_lt_mul (by norm_num)]
        rwa [pow_succ] at h
      have hbyte : (UInt8.ofNat (x % 256)).toNat = x % 256 := by simp
      rw [bytesLE, valueLE, ih hdiv, hbyte]
      omega

/-- The bytes of `data` from `offset` on, `count` of them; a buffer reads as zero past the bytes
that were written to it. -/
def readBytes (data : List UInt8) (offset count : Nat) : List UInt8 :=
  (List.range count).map fun k => data.getD (offset + k) 0

@[simp] theorem length_readBytes (data : List UInt8) (offset count : Nat) :
    (readBytes data offset count).length = count := by
  simp [readBytes]

theorem readBytes_append (left middle right : List UInt8) :
    readBytes (left ++ middle ++ right) left.length middle.length = middle := by
  apply List.ext_getElem (by simp)
  intro k hk _
  have hk' : k < middle.length := by simpa using hk
  simp [readBytes, List.getElem?_append_right, List.getElem?_append_left, hk']

theorem readBytes_self (data : List UInt8) : readBytes data 0 data.length = data := by
  simpa using readBytes_append [] data []

end Words
