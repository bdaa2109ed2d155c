import Mathlib.Data.List.Induction
import Mathlib.Data.List.TakeWhile
import Mathlib.Data.Rat.Floor
import Mathlib.Algebra.Order.Ring.Abs
import Mathlib.Tactic.Linarith
import Mathlib.Tactic.NormNum
import Mybmm.Support.Libc

/-! Numbers printed with so many places. -/
namespace Mybmm.Decimal
open CString Libc

/-- The nearest whole number, and of two as near the even one. -/
def roundEven (x : ℚ) : Nat :=
  let n := ⌊x⌋₊
  if x - n < 1 / 2 ∨ x - n = 1 / 2 ∧ n % 2 = 0 then n else n + 1

/-- So many digits, the last ones. -/
def padded : (places : Nat) → Nat → Text
  | 0, _ => []
  | places + 1, n => padded places (n / 10) ++ [Nat.digitChar (n % 10)]

/-- `sprintf` with `%.1f` or `%.3f`. -/
def fixed (places : Nat) (x : ℚ) : Text :=
  let n := roundEven (|x| * 10 ^ places)
  (if x < 0 then ['-'] else []) ++ (Nat.toDigits 10 (n / 10 ^ places) ++ '.' :: padded places (n % 10 ^ places))

theorem digits_natural (n : Nat) : digits (Nat.toDigits 10 n) = n := by
  have read := Nat.ofDigitChars_toDigits (b := 10) (n := n) (by decide) le_rfl
  rwa [Nat.ofDigitChars_eq_foldl] at read

theorem isdigit_natural {n : Nat} {c : Char} (held : c ∈ Nat.toDigits 10 n) : isdigit c = true :=
  Nat.isDigit_of_mem_toDigits (by decide) le_rfl held

theorem natural_cons (n : Nat) : ∃ c rest, Nat.toDigits 10 n = c :: rest ∧ isdigit c = true := by
  cases text : Nat.toDigits 10 n with
  | nil => exact absurd text Nat.toDigits_ne_nil
  | cons c rest => exact ⟨c,rest,rfl,isdigit_natural (n := n) (by simp [text])⟩

theorem digit_plain {c : Char} (digit : isdigit c = true) : isspace c = false ∧ c ≠ '-' ∧ c ≠ '+' := by
  have range : 48 ≤ c.toNat ∧ c.toNat ≤ 57 := by
    simp only [isdigit,Char.isDigit,Bool.and_eq_true,decide_eq_true_eq,ge_iff_le,UInt32.le_iff_toNat_le] at digit
    exact digit
  refine ⟨?_,?_,?_⟩
  · have blank : c ≠ ' ' := by
      rintro rfl
      exact absurd range.1 (by decide)
    simp only [isspace,Bool.or_eq_false_iff,Bool.and_eq_false_iff,decide_eq_false_iff_not]
    exact ⟨blank,Or.inr (by omega)⟩
  · rintro rfl
    exact absurd range.1 (by decide)
  · rintro rfl
    exact absurd range.1 (by decide)

theorem takeWhile_natural (n : Nat) : (Nat.toDigits 10 n).takeWhile isdigit = Nat.toDigits 10 n := by
  rw [List.takeWhile_eq_self_iff]
  exact fun c held => isdigit_natural held

theorem digitChar_digit : ∀ n < 10, isdigit (Nat.digitChar n) = true := by decide

theorem padded_length (places n : Nat) : (padded places n).length = places := by
  induction places generalizing n with
  | zero => rfl
  | succ places ih => rw [padded,List.length_append,ih,List.length_singleton]

theorem padded_digits {places n : Nat} {c : Char} (member : c ∈ padded places n) : isdigit c = true := by
  induction places generalizing n with
  | zero => cases member
  | succ places ih =>
    rw [padded,List.mem_append,List.mem_singleton] at member
    rcases member with before | rfl
    · exact ih before
    · exact digitChar_digit _ (Nat.mod_lt n (by decide))

/-- No number but zero begins with a zero. -/
theorem natural_zero {n : Nat} {t : Text} (zero : Nat.toDigits 10 n = '0' :: t) : n = 0 := by
  induction n using Nat.strong_induction_on generalizing t with
  | h n ih =>
    by_cases small : n < 10
    · rw [Nat.toDigits_of_lt_base small] at zero
      have digits : ∀ n < 10, Nat.digitChar n = '0' → n = 0 := by decide
      exact digits n small (List.cons.inj zero).1
    · rw [Nat.toDigits_of_base_le (by decide) (Nat.le_of_not_lt small)] at zero
      obtain ⟨c,u,first⟩ := List.exists_cons_of_ne_nil (Nat.toDigits_ne_nil (b := 10) (n := n / 10))
      rw [first,List.cons_append] at zero
      rw [(List.cons.inj zero).1] at first
      have zero := ih (n / 10) (by omega) first
      omega

theorem fixed_chars {places : Nat} {x : ℚ} {c : Char} (member : c ∈ fixed places x) :
    c = '-' ∨ c = '.' ∨ isdigit c = true := by
  simp only [fixed,List.mem_append,List.mem_cons] at member
  rcases member with sign | whole | rfl | fraction
  · split_ifs at sign
    · exact Or.inl (List.mem_singleton.mp sign)
    · cases sign
  · exact Or.inr (Or.inr (isdigit_natural whole))
  · exact Or.inr (Or.inl rfl)
  · exact Or.inr (Or.inr (padded_digits fraction))

theorem roundEven_lt {x : ℚ} (positive : 0 ≤ x) {n : Nat} (small : x < n - 1 / 2) : roundEven x < n := by
  have low : (⌊x⌋₊ : ℚ) ≤ x := Nat.floor_le positive
  unfold roundEven
  simp only
  split_ifs with nearest
  · have below : (⌊x⌋₊ : ℚ) < n := by linarith
    exact_mod_cast below
  · push Not at nearest
    have below : (⌊x⌋₊ : ℚ) + 1 < n := by linarith [nearest.1]
    exact_mod_cast below

/-- A number below a power of ten takes as many digits, its places, the point and its sign. -/
theorem fixed_length {places k : Nat} {x : ℚ} (some : 0 < k) (small : |x| * 10 ^ places < 10 ^ (places + k) - 1 / 2) :
    (fixed places x).length ≤ (if x < 0 then 1 else 0) + k + 1 + places := by
  have positive : 0 ≤ |x| * (10 : ℚ) ^ places := mul_nonneg (abs_nonneg x) (pow_nonneg (by norm_num) places)
  have rounded : roundEven (|x| * 10 ^ places) < 10 ^ (places + k) := by
    apply roundEven_lt positive
    exact_mod_cast small
  have whole : roundEven (|x| * 10 ^ places) / 10 ^ places < 10 ^ k := by
    apply Nat.div_lt_of_lt_mul
    rwa [← Nat.pow_add]
  have digits := (Nat.length_toDigits_le_iff (b := 10) (by decide) some).mpr whole
  have sign : (if x < 0 then ['-'] else []).length = if x < 0 then 1 else 0 := by split_ifs <;> rfl
  simp only [fixed,List.length_append,List.length_cons,padded_length,sign]
  omega

/-! What is printed reads back as the nearest number with so many places. -/

theorem digits_concat (s : Text) (c : Char) : digits (s ++ [c]) = 10 * digits s + (c.toNat - '0'.toNat) :=
  List.foldl_concat _ _ _ _

theorem digits_append (s t : Text) : digits (s ++ t) = digits s * 10 ^ t.length + digits t := by
  induction t using List.reverseRecOn with
  | nil => rw [List.append_nil,List.length_nil,pow_zero,Nat.mul_one]; rfl
  | append_singleton t c ih =>
    rw [← List.append_assoc,digits_concat,ih,digits_concat,List.length_append,List.length_singleton,pow_succ]
    ring

theorem digits_digitChar : ∀ n < 10, digits [Nat.digitChar n] = n := by decide

theorem digits_padded (places n : Nat) : digits (padded places n) = n % 10 ^ places := by
  induction places generalizing n with
  | zero => rw [pow_zero,Nat.mod_one]; rfl
  | succ places ih =>
    rw [padded,digits_append,ih,digits_digitChar _ (Nat.mod_lt n (by decide)),List.length_singleton,pow_one,pow_succ',
      Nat.mod_mul]
    ring

theorem takeWhile_point {s t : Text} (digits : ∀ c ∈ s, isdigit c = true) :
    (s ++ '.' :: t).takeWhile isdigit = s ∧ (s ++ '.' :: t).dropWhile isdigit = '.' :: t := by
  rw [List.takeWhile_append_of_pos digits,List.dropWhile_append_of_pos digits]
  exact ⟨List.append_nil s,rfl⟩

theorem atof_decimal {s t : Text} (whole : s ≠ []) (digits : ∀ c ∈ s, isdigit c = true)
    (digits' : ∀ c ∈ t, isdigit c = true) (negative : Bool) :
    atof ((if negative then ['-'] else []) ++ (s ++ '.' :: t)) =
      (if negative then -1 else 1) * Libc.digits (s ++ t) / 10 ^ t.length := by
  have fraction : t.takeWhile isdigit = t ∧ t.dropWhile isdigit = [] :=
    ⟨List.takeWhile_eq_self_iff.mpr digits',List.dropWhile_eq_nil_iff.mpr digits'⟩
  obtain ⟨take,drop⟩ := takeWhile_point (t := t) digits
  have signed : sign (((if negative then ['-'] else []) ++ (s ++ '.' :: t)).dropWhile isspace) =
      (if negative then -1 else 1,s ++ '.' :: t) := by
    cases negative with
    | true => rfl
    | false =>
      obtain ⟨c,rest,rfl⟩ := List.exists_cons_of_ne_nil whole
      obtain ⟨blank,minus,plus⟩ := digit_plain (digits c List.mem_cons_self)
      simp [List.dropWhile_cons_of_neg,blank,sign,minus,plus]
  simp only [atof,signed,take,drop,fraction]
  rw [if_neg (by simp [whole])]
  have scale : (10 : ℚ) ^ (exponent [] - (t.length : Int)) = 1 / 10 ^ t.length := by
    rw [show exponent [] = 0 from rfl,zero_sub,zpow_neg,zpow_natCast,one_div]
  rw [scale]
  cases negative <;> simp [div_eq_mul_inv]

theorem atof_fixed (places : Nat) (x : ℚ) :
    atof (fixed places x) = (if x < 0 then -1 else 1) * roundEven (|x| * 10 ^ places) / 10 ^ places := by
  have read := atof_decimal Nat.toDigits_ne_nil (fun _ held => isdigit_natural held) (fun _ => padded_digits)
    (decide (x < 0)) (s := Nat.toDigits 10 (roundEven (|x| * 10 ^ places) / 10 ^ places))
    (t := padded places (roundEven (|x| * 10 ^ places) % 10 ^ places))
  rw [digits_append,digits_natural,digits_padded,padded_length,Nat.mod_mod,Nat.div_add_mod'] at read
  simpa [fixed] using read

theorem roundEven_near {x : ℚ} (positive : 0 ≤ x) : |roundEven x - x| ≤ 1 / 2 := by
  have low : (⌊x⌋₊ : ℚ) ≤ x := Nat.floor_le positive
  have high : x < ⌊x⌋₊ + 1 := Nat.lt_floor_add_one x
  rw [abs_le]
  unfold roundEven
  simp only
  split_ifs with nearest
  · have near : x - ⌊x⌋₊ ≤ 1 / 2 := by
      rcases nearest with less | ⟨half,_⟩
      · exact less.le
      · exact half.le
    constructor <;> linarith
  · push Not at nearest
    push_cast
    constructor <;> linarith [nearest.1]

/-- Half a unit of the last place. -/
theorem fixed_near (places : Nat) (x : ℚ) : |atof (fixed places x) - x| ≤ 1 / (2 * 10 ^ places) := by
  have scale : (0 : ℚ) < 10 ^ places := by positivity
  have near := roundEven_near (mul_nonneg (abs_nonneg x) scale.le)
  have split : x = (if x < 0 then -1 else 1) * |x| := by
    split_ifs with negative
    · rw [abs_of_neg negative,neg_one_mul,neg_neg]
    · rw [abs_of_nonneg (le_of_not_gt negative),one_mul]
  have apart : atof (fixed places x) - x =
      (if x < 0 then -1 else 1) * ((roundEven (|x| * 10 ^ places) - |x| * 10 ^ places) / 10 ^ places) := by
    rw [atof_fixed]
    nth_rewrite 4 [split]
    field_simp
  rw [apart,abs_mul,abs_div,abs_of_pos scale]
  have unit : |(if x < 0 then -1 else 1 : ℚ)| = 1 := by split_ifs <;> simp
  rw [unit,one_mul,div_le_div_iff₀ scale (by positivity)]
  have doubled := mul_le_mul_of_nonneg_right near (mul_nonneg zero_le_two scale.le)
  linarith

example : fixed 3 (3.2875 : ℚ) = "3.288".toList := by decide +kernel
example : fixed 1 (-0.04 : ℚ) = "-0.0".toList := by decide +kernel

end Mybmm.Decimal
