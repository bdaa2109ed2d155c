import Mathlib.Algebra.Group.Nat.Defs
import Mathlib.Data.Nat.Log

/-! Whole numbers in a binary floating format: the nearest with so many significant
digits, and of two as near the even one. -/
namespace Mybmm.Rounding

def excess (p n : Nat) : Nat := n.log2 + 1 - p

def nearestEven (k n : Nat) : Nat :=
  let q := n / 2 ^ k
  let r := n % 2 ^ k
  if 2 * r < 2 ^ k ∨ 2 * r = 2 ^ k ∧ q % 2 = 0 then q else q + 1

def rounded (p n : Nat) : Nat := nearestEven (excess p n) n * 2 ^ excess p n

theorem excess_fits {p n : Nat} (some : 0 < p) (fits : n < 2 ^ p) : excess p n = 0 := by
  simp only [excess]
  rcases Nat.eq_zero_or_pos n with rfl | positive
  · rw [Nat.log2_zero]
    omega
  · have short : n.log2 < p := (Nat.log2_lt (by omega)).mpr fits
    omega

theorem rounded_exact {p n : Nat} (some : 0 < p) (fits : n < 2 ^ p) : rounded p n = n := by
  rw [rounded,excess_fits some fits,nearestEven]
  simp [Nat.mod_one]

example : rounded 24 (2 ^ 24 + 1) = 2 ^ 24 ∧ rounded 24 (2 ^ 24 + 3) = 2 ^ 24 + 4 := by decide

end Mybmm.Rounding
