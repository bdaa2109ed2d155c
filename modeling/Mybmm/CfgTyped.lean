import Mathlib.Algebra.Group.Nat.Defs
import Mybmm.Support.Decimal
import Mybmm.CfgDest
import Mybmm.CfgSet

/-! The typed accessors: integers as decimal text, and the two readings of a boolean. -/
namespace Mybmm.CfgTyped
open CString Libc Decimal Cfg CfgLookup CfgSet CfgDest

/-- `%d` and `%lld`. -/
def decimal (i : Int) : Text := if i < 0 then '-' :: Nat.toDigits 10 i.natAbs else Nat.toDigits 10 i.natAbs

/-- What `cfg_get_bool` looks at: the first character. -/
def startsTrue (value : Text) : Bool :=
  value.head?.any fun c => c = '1' || c = 't' || c = 'T' || c = 'y' || c = 'Y'

def cfgGetBool (info : Option CfgInfo) (name keyword : Text) (default : Int) : Int :=
  match cfgGetItem info name keyword with
  | none => default
  | some p => if startsTrue p then 1 else 0

def cfgGetInt (info : Option CfgInfo) (name keyword : Text) (default : Int) : Int :=
  match cfgGetItem info name keyword with
  | none => default
  | some p => convType (.int fun i _ => i) p (atoi p)

/-- `strtoll` reads the value; `conv_type` does not know the type and leaves it. -/
def cfgGetQuad (info : Option CfgInfo) (name keyword : Text) (default : Int) : Int :=
  match cfgGetItem info name keyword with
  | none => default
  | some p => strtol p

def cfgSetBool (info : Option CfgInfo) (name keyword : Text) (val : Int) : Option (Nat × Option CfgInfo) :=
  let p := if val ≠ 0 then some "1".toList else none
  cfgSetItemCode info name keyword none p

/-- Printed into `ival`, of that many bytes. -/
def cfgSetDecimal (size : Nat) (info : Option CfgInfo) (name keyword : Text) (val : Int) :
    Option (Nat × Option CfgInfo) :=
  if (decimal val).length < size then cfgSetItemCode info name keyword none (some (decimal val)) else none

def cfgSetInt : Option CfgInfo → Text → Text → Int → Option (Nat × Option CfgInfo) := cfgSetDecimal 16

def cfgSetQuad : Option CfgInfo → Text → Text → Int → Option (Nat × Option CfgInfo) := cfgSetDecimal 32

/-! Decimal text. -/

/-- Decimal text reads back, up to what a 64-bit number holds. -/
private theorem strtol_decimal (i : Int) : strtol (decimal i) = max (-2^63) (min (2^63 - 1) i) := by
  unfold decimal
  split_ifs with negative
  · have value : (-1 : Int) * (digits (Nat.toDigits 10 i.natAbs) : Int) = i := by
      rw [digits_natural]
      omega
    simp only [strtol,List.dropWhile_cons,show isspace '-' = false from rfl,Bool.false_eq_true,if_false,sign,
      takeWhile_natural,value]
  · obtain ⟨c,rest,text,digit⟩ := natural_cons i.natAbs
    obtain ⟨blank,minus,plus⟩ := digit_plain digit
    have signed : sign (Nat.toDigits 10 i.natAbs) = (1,Nat.toDigits 10 i.natAbs) := by
      rw [text]
      unfold sign
      split
      · rename_i same
        exact absurd (List.cons.inj same).1 minus
      · rename_i same
        exact absurd (List.cons.inj same).1 plus
      · rfl
    have front : (Nat.toDigits 10 i.natAbs).dropWhile isspace = Nat.toDigits 10 i.natAbs := by
      rw [text,List.dropWhile_cons,if_neg (by simp [blank])]
    have value : (1 : Int) * (digits (Nat.toDigits 10 i.natAbs) : Int) = i := by
      rw [digits_natural]
      omega
    simp only [strtol,front,signed,takeWhile_natural,value]

private theorem strtol_quad (q : BitVec 64) : strtol (decimal q.toInt) = q.toInt := by
  have low := BitVec.le_two_mul_toInt (x := q)
  have high := BitVec.two_mul_toInt_lt (x := q)
  rw [strtol_decimal]
  omega

private theorem atoi_int (i : BitVec 32) : atoi (decimal i.toInt) = i.toInt := by
  have low := BitVec.le_two_mul_toInt (x := i)
  have high := BitVec.two_mul_toInt_lt (x := i)
  have whole : max (-2^63) (min (2^63 - 1) i.toInt) = i.toInt := by omega
  rw [atoi,strtol_decimal,whole,BitVec.ofInt_toInt]

private theorem decimal_fits (i : Int) (k : Nat) (positive : 0 < k) (bound : i.natAbs < 10 ^ k) :
    (decimal i).length ≤ k + 1 := by
  have short := (Nat.length_toDigits_le_iff (b := 10) (by decide) positive).mpr bound
  unfold decimal
  split_ifs
  · exact Nat.succ_le_succ short
  · exact Nat.le_succ_of_le short

private theorem decimal_int (i : BitVec 32) : (decimal i.toInt).length < 16 := by
  have low := BitVec.le_two_mul_toInt (x := i)
  have high := BitVec.two_mul_toInt_lt (x := i)
  exact lt_of_le_of_lt (decimal_fits i.toInt 10 (by decide) (by omega)) (by decide)

private theorem decimal_quad (q : BitVec 64) : (decimal q.toInt).length < 32 := by
  have low := BitVec.le_two_mul_toInt (x := q)
  have high := BitVec.two_mul_toInt_lt (x := q)
  exact lt_of_le_of_lt (decimal_fits q.toInt 19 (by decide) (by omega)) (by decide)

/-! Setting and getting. -/

section
variable (info : CfgInfo) (name keyword : Text) (nfits : name.length < cfgSectionNameSize)
  (kfits : keyword.length < cfgKeywordSize - 1)
include nfits kfits

private theorem get_set (ival : Text) : ∃ new, cfgSetItemCode (some info) name keyword none (some ival) = some (0,some new) ∧
    cfgGetItem (some new) name keyword = some ival := by
  refine ⟨_,rfl,?_⟩
  rw [cfgGetItem_eq,find_set info name keyword none ival nfits (lt_of_lt_of_le kfits (Nat.sub_le _ _)),if_pos ⟨rfl,rfl⟩]

private theorem int_round_trip (i : BitVec 32) (default : Int) :
    ∃ new, cfgSetInt (some info) name keyword i.toInt = some (0,some new) ∧
      cfgGetInt (some new) name keyword default = i.toInt := by
  obtain ⟨new,done,held⟩ := get_set info name keyword nfits kfits (decimal i.toInt)
  refine ⟨new,by rw [cfgSetInt,cfgSetDecimal,if_pos (decimal_int i),done],?_⟩
  simp only [cfgGetInt,held,convType,atoi_int]

private theorem quad_round_trip (q : BitVec 64) (default : Int) :
    ∃ new, cfgSetQuad (some info) name keyword q.toInt = some (0,some new) ∧
      cfgGetQuad (some new) name keyword default = q.toInt := by
  obtain ⟨new,done,held⟩ := get_set info name keyword nfits kfits (decimal q.toInt)
  refine ⟨new,by rw [cfgSetQuad,cfgSetDecimal,if_pos (decimal_quad q),done],?_⟩
  simp only [cfgGetQuad,held,strtol_quad]

private theorem bool_round_trip (default : Int) :
    ∃ new, cfgSetBool (some info) name keyword 1 = some (0,some new) ∧ cfgGetBool (some new) name keyword default = 1 := by
  obtain ⟨new,done,held⟩ := get_set info name keyword nfits kfits "1".toList
  refine ⟨new,done,?_⟩
  simp only [cfgGetBool,held]
  rfl

end

private theorem setBool_false (info : CfgInfo) (name keyword : Text) : cfgSetBool (some info) name keyword 0 = none := rfl

/-- Every number comes back, and of the truth values only the true one. -/
theorem accessors_iff (info : CfgInfo) (name keyword : Text) (nfits : name.length < cfgSectionNameSize)
    (kfits : keyword.length < cfgKeywordSize - 1) (i : BitVec 32) (q : BitVec 64) (b : Bool) (default : Int) :
    ((∃ new, cfgSetInt (some info) name keyword i.toInt = some (0,some new) ∧
        cfgGetInt (some new) name keyword default = i.toInt) ∧
      (∃ new, cfgSetQuad (some info) name keyword q.toInt = some (0,some new) ∧
        cfgGetQuad (some new) name keyword default = q.toInt) ∧
      ∃ new, cfgSetBool (some info) name keyword b.toInt = some (0,some new) ∧
        cfgGetBool (some new) name keyword default = b.toInt) ↔ b = true := by
  constructor
  · rintro ⟨_,_,new,done,_⟩
    cases b with
    | false =>
      rw [Bool.toInt_false,setBool_false] at done
      exact absurd done.symm (Option.some_ne_none _)
    | true => rfl
  · rintro rfl
    exact ⟨int_round_trip info name keyword nfits kfits i default,quad_round_trip info name keyword nfits kfits q default,
      bool_round_trip info name keyword nfits kfits default⟩

theorem accessors_sample :
    ((∃ new, cfgSetInt (some stored) "si".toList "amps".toList (-40#32 : BitVec 32).toInt = some (0,some new) ∧
        cfgGetInt (some new) "si".toList "amps".toList 0 = (-40#32 : BitVec 32).toInt) ∧
      (∃ new, cfgSetQuad (some stored) "si".toList "amps".toList (9#64).toInt = some (0,some new) ∧
        cfgGetQuad (some new) "si".toList "amps".toList 0 = (9#64).toInt) ∧
      ∃ new, cfgSetBool (some stored) "si".toList "amps".toList true.toInt = some (0,some new) ∧
        cfgGetBool (some new) "si".toList "amps".toList 0 = true.toInt) ↔ true = true :=
  accessors_iff stored _ _ (by decide) (by decide) _ _ _ _

/-- A false value is a null string, which `cfg_set_item` measures. -/
theorem false_undefined : ¬ ∃ new, cfgSetBool (some stored) "si".toList "charge".toList false.toInt = some (0,some new) ∧
    cfgGetBool (some new) "si".toList "charge".toList 1 = false.toInt := by
  rintro ⟨new,done,_⟩
  rw [Bool.toInt_false,setBool_false] at done
  exact absurd done.symm (Option.some_ne_none _)

/-! The two readings of a boolean. -/

/-- What an `int` in memory holds. -/
def intAt (m : Memory) (off : Nat) : Int :=
  (BitVec.ofNat 32 ((m off).toNat + 256 * ((m (off + 1)).toNat + 256 * ((m (off + 2)).toNat + 256 * (m (off + 3)).toNat)))).toInt

private theorem toNat_byte {n : Nat} (small : n < 256) : (Char.ofNat n).toNat = n := by
  have valid : n.isValidChar := Or.inl (lt_trans small (by decide))
  rw [Char.ofNat,dif_pos valid]
  rfl

private theorem intAt_store (m : Memory) (off : Nat) (i : Int) :
    intAt (store m off (List.ofFn (intBytes i))) off = (BitVec.ofInt 32 i).toInt := by
  have byte (k : Nat) (within : k < 4) : (store m off (List.ofFn (intBytes i)) (off + k)).toNat =
      (BitVec.ofInt 32 i).toNat / 256 ^ k % 256 := by
    rw [store_within m off _ k (by simpa using within),List.getElem_ofFn]
    exact toNat_byte (Nat.mod_lt _ (by decide))
  have low := byte 0 (by decide)
  have whole (x : Nat) (bound : x < 2 ^ 32) :
      x / 256 ^ 0 % 256 + 256 * (x / 256 ^ 1 % 256 + 256 * (x / 256 ^ 2 % 256 + 256 * (x / 256 ^ 3 % 256))) = x := by
    simp only [Nat.reducePow]
    omega
  rw [Nat.add_zero] at low
  rw [intAt,low,byte 1 (by decide),byte 2 (by decide),byte 3 (by decide),whole _ (BitVec.ofInt 32 i).isLt,
    BitVec.ofNat_toNat,BitVec.setWidth_eq]

/-- A word of `conv_type`, in any letters. -/
def IsWord (value : Text) : Prop := tolower value = "yes".toList ∨ tolower value = "true".toList ∨ tolower value = "1".toList

instance (value : Text) : Decidable (IsWord value) := inferInstanceAs (Decidable (_ ∨ _ ∨ _))

private theorem toLower_eq {c d : Char} (lower : c.toLower = d) : c = d ∨ 65 ≤ c.toNat ∧ c.toNat + 32 = d.toNat := by
  unfold Char.toLower at lower
  split_ifs at lower with upper
  · right
    rw [← lower]
    simp only [ge_iff_le,UInt32.le_iff_toNat_le] at upper
    refine ⟨upper.1,?_⟩
    change c.val.toNat + 32 = (c.val + 32).toNat
    rw [UInt32.toNat_add]
    have last : c.val.toNat ≤ 90 := upper.2
    exact (Nat.mod_eq_of_lt (show c.val.toNat + 32 < 4294967296 by omega)).symm
  · exact Or.inl lower

private theorem startsTrue_word {value : Text} (word : IsWord value) : startsTrue value = true := by
  have first (d : Char) (rest : Text) (lower : tolower value = d :: rest) :
      ∃ c, value.head? = some c ∧ (c = d ∨ 65 ≤ c.toNat ∧ c.toNat + 32 = d.toNat) := by
    cases value with
    | nil => exact absurd lower (by simp [tolower])
    | cons c value => exact ⟨c,rfl,toLower_eq (List.cons.inj lower).1⟩
  rcases word with yes | true | one
  · obtain ⟨c,head,rfl | ⟨letter,upper⟩⟩ := first 'y' "es".toList yes
    · rw [startsTrue,head]
      rfl
    · obtain rfl : c = 'Y' := Char.toNat_inj.mp (Nat.add_right_cancel upper)
      rw [startsTrue,head]
      rfl
  · obtain ⟨c,head,rfl | ⟨letter,upper⟩⟩ := first 't' "rue".toList true
    · rw [startsTrue,head]
      rfl
    · obtain rfl : c = 'T' := Char.toNat_inj.mp (Nat.add_right_cancel upper)
      rw [startsTrue,head]
      rfl
  · obtain ⟨c,head,rfl | ⟨letter,upper⟩⟩ := first '1' [] one
    · rw [startsTrue,head]
      rfl
    · exact absurd (letter.trans (Nat.le_add_right _ 32)) (by rw [upper]; decide)

/-- The readers agree exactly on the words, and on what starts like none of them. -/
theorem readers_agree_iff (single : ℚ → Fin 4 → Char) (info : CfgInfo) (name keyword value : Text)
    (held : cfgGetItem (some info) name keyword = some value) (short : value.length ≤ 15) (default : Int)
    (m : Memory) (dest dlen : Nat) :
    (cfgGetBool (some info) name keyword default = 1 ↔
      ∃ m', convTypeAt single .logical dest dlen value m = some m' ∧ intAt m' dest = 1) ↔
    startsTrue value = false ∨ IsWord value := by
  have bool : cfgGetBool (some info) name keyword default = 1 ↔ startsTrue value = true := by
    simp only [cfgGetBool,held]
    cases startsTrue value <;> decide
  have logical : (∃ m', convTypeAt single .logical dest dlen value m = some m' ∧ intAt m' dest = 1) ↔ IsWord value := by
    have inside : Local .logical dlen value := Nat.lt_succ_of_le short
    simp only [convTypeAt,if_pos inside,destOf,convType,Option.some.injEq,exists_eq_left',intAt_store]
    split_ifs with word
    · exact iff_of_true (by decide) word
    · exact iff_of_false (by decide) word
  rw [bool,logical]
  constructor
  · intro agree
    cases starts : startsTrue value with
    | false => exact Or.inl rfl
    | true => exact Or.inr (agree.mp starts)
  · rintro (other | word)
    · constructor
      · intro starts
        exact absurd (starts.symm.trans other) Bool.noConfusion
      · exact startsTrue_word
    · exact iff_of_true (startsTrue_word word) word

theorem readers_agree_yes :
    (cfgGetBool (systemStore "Yes".toList) "mybmm".toList "charge_at_max".toList 0 = 1 ↔
      ∃ m', convTypeAt (fun _ _ => nul) .logical 0 0 "Yes".toList (fun _ => nul) = some m' ∧ intAt m' 0 = 1) ↔
    startsTrue "Yes".toList = false ∨ IsWord "Yes".toList :=
  readers_agree_iff _ _ _ _ _ (by decide) (by decide) _ _ _ _

/-- A single letter is true to `cfg_get_bool` alone. -/
theorem readers_differ : ¬ (cfgGetBool (systemStore "y".toList) "mybmm".toList "charge_at_max".toList 0 = 1 ↔
    ∃ m', convTypeAt (fun _ _ => nul) .logical 0 0 "y".toList (fun _ => nul) = some m' ∧ intAt m' 0 = 1) := by
  intro agree
  obtain ⟨m',done,read⟩ := agree.mp (by decide)
  obtain rfl := Option.some.inj done
  exact absurd read (by decide)

end Mybmm.CfgTyped
