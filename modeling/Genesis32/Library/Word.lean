import Mathlib.Tactic.Ring
import Mathlib.Tactic.SplitIfs

/-!
# Machine words

The 32-bit arithmetic of C on natural numbers: unsigned addition, subtraction and multiplication
wrap, and the cast to `int` reads a word in two's complement. The bit operations on a word whose low
bits are clear are additions and roundings.
-/

namespace Word

/-- Unsigned 32-bit addition. -/
def add32 (x y : Nat) : Nat := (x + y) % 4294967296

/-- Unsigned 32-bit subtraction. -/
def sub32 (x y : Nat) : Nat := (x + 4294967296 - y) % 4294967296

/-- Unsigned 32-bit multiplication. -/
def mul32 (x y : Nat) : Nat := x * y % 4294967296

/-- The cast of a 32-bit word to `int`. -/
def toInt32 (x : Nat) : Int :=
  if x < 2147483648 then x else (x : Int) - 4294967296

theorem add32_of_lt {x y : Nat} (h : x + y < 4294967296) : add32 x y = x + y :=
  Nat.mod_eq_of_lt h

theorem sub32_of_le {x y : Nat} (h : y ≤ x) (hx : x < 4294967296) : sub32 x y = x - y := by
  unfold sub32
  omega

theorem mul32_of_lt {x y : Nat} (h : x * y < 4294967296) : mul32 x y = x * y :=
  Nat.mod_eq_of_lt h

theorem to_int32_of_lt {x : Nat} (h : x < 2147483648) : toInt32 x = x :=
  if_pos h

theorem add32_add32 (x y z : Nat) : add32 (add32 x y) z = add32 x (y + z) := by
  unfold add32
  omega

/-- A sum that does not wrap is not below its first word, and the other way round. -/
theorem le_add32_iff {x y : Nat} (hx : x < 4294967296) (hy : y < 4294967296) :
    x ≤ add32 x y ↔ x + y < 4294967296 := by
  unfold add32
  omega

theorem lt_add32_iff {x y : Nat} (hx : x < 4294967296) (hy : y < 4294967296) :
    x < add32 x y ↔ 1 ≤ y ∧ x + y < 4294967296 := by
  unfold add32
  omega

/-! ## Low and high bits -/

/-- Setting low bits of a word in which they are clear is adding them. -/
theorem lor_low {n a f : Nat} (ha : a % 2 ^ n = 0) (hf : f < 2 ^ n) : a ||| f = a + f := by
  obtain ⟨k, rfl⟩ := Nat.dvd_of_mod_eq_zero ha
  exact (Nat.two_pow_add_eq_or_of_lt hf k).symm

/-- Masking the low `n` bits of a `w`-bit word away rounds it down. -/
theorem land_high {w n x : Nat} (hn : n ≤ w) (hx : x < 2 ^ w) :
    x &&& (2 ^ w - 2 ^ n) = x - x % 2 ^ n := by
  have hmask : 2 ^ w - 2 ^ n = (2 ^ (w - n) - 1) <<< n := by
    rw [Nat.shiftLeft_eq, Nat.sub_mul, Nat.one_mul, ← Nat.pow_add, Nat.sub_add_cancel hn]
  have hround : x - x % 2 ^ n = (x >>> n) <<< n := by
    rw [Nat.shiftRight_eq_div_pow, Nat.shiftLeft_eq]
    have := Nat.div_add_mod' x (2 ^ n)
    omega
  rw [hmask, hround]
  refine Nat.eq_of_testBit_eq fun i => ?_
  rw [Nat.testBit_and, Nat.testBit_shiftLeft, Nat.testBit_shiftLeft, Nat.testBit_two_pow_sub_one,
    Nat.testBit_shiftRight]
  by_cases hi : n ≤ i
  · by_cases hw : i < w
    · have : i - n < w - n := by omega
      simp [hi, this, show n + (i - n) = i by omega]
    · -- both sides have no bits from `w` on
      have : x.testBit i = false :=
        Nat.testBit_lt_two_pow (Nat.lt_of_lt_of_le hx (Nat.pow_le_pow_right (by omega) (by omega)))
      simp [hi, this, show n + (i - n) = i by omega]
  · simp [hi]

end Word
