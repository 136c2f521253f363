import Mathlib.Data.Nat.Bitwise

/-!
# Masks of 64-bit words

The bit operations of address arithmetic, as divisions: a field of bits cut out with `&`, low bits
cleared with `& ~m`, and two parts that share no bit put together with `|`.
-/

namespace Lib

/-- `x & ~m` on 64-bit words. -/
def andNot (x m : Nat) : Nat := x &&& (2 ^ 64 - 1 - m)

/-- The field of `w` bits from bit `n` on. -/
theorem and_field (x w n : Nat) : x &&& (2 ^ w - 1) * 2 ^ n = x / 2 ^ n % 2 ^ w * 2 ^ n := by
  apply Nat.eq_of_testBit_eq
  intro i
  rw [Nat.testBit_and, Nat.testBit_mul_two_pow, Nat.testBit_mul_two_pow, Nat.testBit_two_pow_sub_one,
    Nat.testBit_mod_two_pow, Nat.testBit_div_two_pow]
  by_cases hi : n ≤ i
  · rw [Nat.sub_add_cancel hi]
    simp [hi, Bool.and_comm]
  · simp [hi]

theorem and_low (x n : Nat) : x &&& (2 ^ n - 1) = x % 2 ^ n := Nat.and_two_pow_sub_one_eq_mod x n

/-- Clearing the low bits of a word. -/
theorem andNot_low {x n : Nat} (hx : x < 2 ^ 64) (hn : n ≤ 64) :
    andNot x (2 ^ n - 1) = x / 2 ^ n * 2 ^ n := by
  have hpow : 2 ^ (64 - n) * 2 ^ n = 2 ^ 64 := by rw [← Nat.pow_add, Nat.sub_add_cancel hn]
  have hpos : 0 < 2 ^ n := Nat.two_pow_pos n
  have hmask : 2 ^ 64 - 1 - (2 ^ n - 1) = (2 ^ (64 - n) - 1) * 2 ^ n := by
    rw [Nat.sub_mul, hpow, Nat.one_mul]
    omega
  have hdiv : x / 2 ^ n < 2 ^ (64 - n) := by
    rw [Nat.div_lt_iff_lt_mul hpos, hpow]
    exact hx
  rw [andNot, hmask, and_field, Nat.mod_eq_of_lt hdiv]

/-- Disjoint bits: `|` is `+`. -/
theorem mul_two_pow_or {a b n : Nat} (hb : b < 2 ^ n) : a * 2 ^ n ||| b = a * 2 ^ n + b := by
  rw [Nat.mul_comm, ← Nat.two_pow_add_eq_or_of_lt hb]

/-- Bits that lie above the cleared ones are not affected by clearing. -/
theorem div_mul_div_two_pow {x m n : Nat} (h : m ≤ n) : x / 2 ^ m * 2 ^ m / 2 ^ n = x / 2 ^ n := by
  have hn : 2 ^ n = 2 ^ m * 2 ^ (n - m) := by rw [← Nat.pow_add, Nat.add_sub_cancel' h]
  rw [hn, ← Nat.div_div_eq_div_mul, Nat.mul_div_cancel _ (Nat.two_pow_pos m), Nat.div_div_eq_div_mul]

end Lib
