import Mathlib.Algebra.Group.Nat.Defs

/-!
# When machine-word arithmetic is exact

A truncation, a wrapping product and a widening product, read as statements about the natural
numbers behind the words. Nothing here is about a particular program.
-/

namespace Word

theorem toNat_toUInt32_eq_iff (a : UInt64) : a.toUInt32.toNat = a.toNat ↔ a.toNat < 2 ^ 32 := by
  rw [UInt64.toNat_toUInt32]
  constructor
  · intro h
    rw [← h]
    exact Nat.mod_lt _ (by decide)
  · exact Nat.mod_eq_of_lt

theorem toNat_mul_eq_iff (a b : UInt64) :
    (a * b).toNat = a.toNat * b.toNat ↔ a.toNat * b.toNat < 2 ^ 64 := by
  rw [UInt64.toNat_mul]
  constructor
  · intro h
    rw [← h]
    exact Nat.mod_lt _ (by decide)
  · exact Nat.mod_eq_of_lt

theorem toNat_widening_mul (a b : UInt32) :
    (a.toUInt64 * b.toUInt64).toNat = a.toNat * b.toNat := by
  rw [toNat_mul_eq_iff a.toUInt64 b.toUInt64 |>.2]
  · simp only [UInt32.toNat_toUInt64]
  · simp only [UInt32.toNat_toUInt64]
    calc a.toNat * b.toNat < 2 ^ 32 * 2 ^ 32 :=
          Nat.mul_lt_mul_of_lt_of_lt a.toNat_lt b.toNat_lt
      _ = 2 ^ 64 := by decide

/-- A mask of the bits from `k` up to `m` keeps the value modulo `2 ^ m`, rounded down to a
multiple of `2 ^ k`. -/
theorem and_two_pow_sub_two_pow (n : Nat) {m k : Nat} (h : k ≤ m) :
    n &&& (2 ^ m - 2 ^ k) = n % 2 ^ m / 2 ^ k * 2 ^ k := by
  have hk : 0 < 2 ^ k := Nat.two_pow_pos k
  have hkm : 2 ^ k ≤ 2 ^ m := Nat.pow_le_pow_right (by decide) h
  have hmask : 2 ^ m - 2 ^ k = 2 ^ m - (2 ^ k - 1 + 1) := by omega
  apply Nat.eq_of_testBit_eq
  intro i
  rw [Nat.testBit_and, hmask, Nat.testBit_two_pow_sub_succ (by omega),
    Nat.testBit_two_pow_sub_one, Nat.testBit_mul_two_pow, Nat.testBit_div_two_pow,
    Nat.testBit_mod_two_pow]
  by_cases hi : k ≤ i
  · have hlt : ¬i < k := by omega
    have hback : i - k + k = i := by omega
    simp [hi, hlt, hback, Bool.and_comm]
  · have hlt : i < k := by omega
    simp [hi, hlt]

theorem toNat_and_not_three (a : UInt64) :
    (a &&& ~~~(3 : UInt64)).toNat = a.toNat / 4 * 4 := by
  have hmask : (~~~(3 : UInt64)).toNat = 2 ^ 64 - 2 ^ 2 := by decide
  have hand := and_two_pow_sub_two_pow a.toNat (show 2 ≤ 64 by decide)
  rw [Nat.mod_eq_of_lt a.toNat_lt] at hand
  rw [UInt64.toNat_and, hmask]
  exact hand

theorem and_high_byte_eq_iff {a : UInt32} (h : a.toNat < 2 ^ 16) {b : UInt32}
    (hb : b.toNat % 256 = 0) : a &&& 0xFF00 = b ↔ a.toNat / 256 = b.toNat / 256 := by
  have hmask : (0xFF00 : UInt32).toNat = 2 ^ 16 - 2 ^ 8 := by decide
  rw [← UInt32.toNat_inj, UInt32.toNat_and, hmask, and_two_pow_sub_two_pow _ (by decide),
    Nat.mod_eq_of_lt h]
  omega

theorem toNat_eq_zero_iff (a : UInt64) : a.toNat = 0 ↔ a = 0 := by
  rw [← UInt64.toNat_inj]
  rfl

theorem toNat32_eq_zero_iff (a : UInt32) : a.toNat = 0 ↔ a = 0 := by
  rw [← UInt32.toNat_inj]
  rfl

end Word
