import Mathlib.Data.Nat.Digits.Defs
import Mybmm.Support.CString

/-! Numbers printed in base sixteen, with zeros before them up to some width. -/
namespace Mybmm.Hex
open CString

/-- `sprintf` with `%0kx`. -/
def zeroPadded (k n : Nat) : Text :=
  let digits := Nat.toDigits 16 n
  List.replicate (k - digits.length) '0' ++ digits

/-- So many digits, the last ones. -/
def hexes : (k : Nat) → Nat → Text
  | 0, _ => []
  | k + 1, n => hexes k (n / 16) ++ [Nat.digitChar (n % 16)]

theorem hexes_zero (k : Nat) : hexes k 0 = List.replicate k '0' := by
  induction k with
  | zero => rfl
  | succ k ih =>
    rw [hexes,Nat.zero_div,ih,List.replicate_succ']
    rfl

theorem zeroPadded_fits {k n : Nat} (positive : 0 < k) (small : n < 16 ^ k) : zeroPadded k n = hexes k n := by
  induction k generalizing n with
  | zero => contradiction
  | succ k ih =>
    by_cases single : n < 16
    · rw [zeroPadded,Nat.toDigits_of_lt_base single,hexes,Nat.div_eq_of_lt single,Nat.mod_eq_of_lt single,hexes_zero]
      rfl
    · have more : 16 ≤ n := Nat.le_of_not_lt single
      have lower : n / 16 < 16 ^ k := by
        apply Nat.div_lt_of_lt_mul
        rwa [← Nat.pow_succ']
      have some : 0 < k := by
        rcases Nat.eq_zero_or_pos k with rfl | some
        · omega
        · exact some
      rw [hexes,← ih some lower,zeroPadded,zeroPadded,Nat.toDigits_of_base_le (by decide) more,List.length_append,
        List.length_singleton,Nat.add_sub_add_right,List.append_assoc]

/-- A further byte is two further digits. -/
theorem hexes_push (k n : Nat) {b : Nat} (byte : b < 256) : hexes (k + 2) (n * 256 + b) = hexes k n ++ hexes 2 b := by
  have above : (n * 256 + b) / 16 / 16 = n := by omega
  have high : (n * 256 + b) / 16 % 16 = b / 16 % 16 := by omega
  have low : (n * 256 + b) % 16 = b % 16 := by omega
  simp only [hexes,above,high,low,List.append_assoc,List.nil_append]

end Mybmm.Hex
