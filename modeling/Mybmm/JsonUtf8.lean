import Mybmm.Support.Utf8
import Mybmm.JsonFormat

/-! Which strings parson.c takes, and that everything it makes of them is UTF-8. -/
namespace Mybmm.Json
open CString Libc Utf8

variable {ν : Type}

/-- The characters as `unsigned char`. -/
def bytes (s : Text) : List Nat := s.map fun c => c.toNat % 256

def isCont (b : Nat) : Bool := b &&& 0xC0 = 0x80

def numBytesInUtf8Sequence (c : Nat) : Nat :=
  if c = 0xC0 || c = 0xC1 || c > 0xF4 || isCont c then 0
  else if c &&& 0x80 = 0 then 1
  else if c &&& 0xE0 = 0xC0 then 2
  else if c &&& 0xF0 = 0xE0 then 3
  else if c &&& 0xF8 = 0xF0 then 4
  else 0

/-- The code point of a sequence of so many bytes, if they continue it. What is behind the
string is its terminator. -/
def codePoint (string : List Nat) (len : Nat) : Option Nat :=
  let byteAt := fun i => string.getD i 0
  if len = 1 then some (byteAt 0)
  else if len = 2 && isCont (byteAt 1) then some ((byteAt 0 &&& 0x1F) <<< 6 ||| byteAt 1 &&& 0x3F)
  else if len = 3 && isCont (byteAt 1) && isCont (byteAt 2) then
    some (((byteAt 0 &&& 0xF) <<< 6 ||| byteAt 1 &&& 0x3F) <<< 6 ||| byteAt 2 &&& 0x3F)
  else if len = 4 && isCont (byteAt 1) && isCont (byteAt 2) && isCont (byteAt 3) then
    some ((((byteAt 0 &&& 0x7) <<< 6 ||| byteAt 1 &&& 0x3F) <<< 6 ||| byteAt 2 &&& 0x3F) <<< 6 ||| byteAt 3 &&& 0x3F)
  else none

/-- The length of the sequence, if it is valid. -/
def verifyUtf8Sequence (string : List Nat) : Option Nat :=
  let len := numBytesInUtf8Sequence (string.getD 0 0)
  match codePoint string len with
  | none => none
  | some cp =>
    if (cp < 0x80 && len > 1) || (cp < 0x800 && len > 2) || (cp < 0x10000 && len > 3) then none
    else if cp > 0x10FFFF then none
    else if cp ≥ 0xD800 && cp ≤ 0xDFFF then none
    else some len

/-- The loop of `is_valid_utf8`; the pointer is `ahead` of the first byte. -/
def validLoop : (ahead : Nat) → List Nat → Bool
  | _, [] => true
  | ahead + 1, _ :: string => validLoop ahead string
  | 0, b :: string =>
    match verifyUtf8Sequence (b :: string) with
    | none => false
    | some len => validLoop (len - 1) string

def isValidUtf8 (string : Text) : Bool := validLoop 0 (bytes string)

def jsonValueInitString (string : Text) : Option (Value ν) :=
  if isValidUtf8 string then some (.string string) else none

/-! A sequence is valid when it is the bytes of a character. -/

private theorem isCont_iff : ∀ b < 256, isCont b = true ↔ 0x80 ≤ b ∧ b < 0xC0 := by decide +kernel

private theorem numBytes_eq : ∀ b < 256, numBytesInUtf8Sequence b =
    if b < 0x80 then 1 else if b < 0xC2 then 0 else if b < 0xE0 then 2 else if b < 0xF0 then 3
    else if b < 0xF5 then 4 else 0 := by decide +kernel

private theorem push_bits (cp b : Nat) : (cp <<< 6 ||| b &&& 0x3F) = cp * 64 + b % 64 := by
  have low : b &&& 0x3F = b % 2 ^ 6 := Nat.and_two_pow_sub_one_eq_mod b 6
  rw [low,← Nat.shiftLeft_add_eq_or_of_lt (Nat.mod_lt b (by decide)),Nat.shiftLeft_eq]

theorem low_bits (b : Nat) : b &&& 0x1F = b % 32 ∧ b &&& 0xF = b % 16 ∧ b &&& 0x7 = b % 8 :=
  ⟨Nat.and_two_pow_sub_one_eq_mod b 5,Nat.and_two_pow_sub_one_eq_mod b 4,Nat.and_two_pow_sub_one_eq_mod b 3⟩

private theorem numBytes_units {n : Nat} (bound : n < 0x110000) (t : List Nat) :
    numBytesInUtf8Sequence ((units n ++ t).getD 0 0) = (units n).length := by
  unfold units
  split_ifs
  all_goals
    simp only [List.cons_append,List.getD_cons_zero,List.length_cons,List.length_nil]
    rw [numBytes_eq _ (by omega)]
    split_ifs <;> omega

private theorem codePoint_units {n : Nat} (bound : n < 0x110000) (t : List Nat) :
    codePoint (units n ++ t) (units n).length = some n := by
  have cont (m : Nat) : isCont (m % 64 + 0x80) = true := (isCont_iff _ (by omega)).mpr (by omega)
  unfold units
  split_ifs
  · rfl
  all_goals
    simp [codePoint,cont,push_bits,low_bits]
    omega

private theorem verify_codes (c : Char) (t : List Nat) : verifyUtf8Sequence (codes c ++ t) = some (codes c).length := by
  rw [codes_units,verifyUtf8Sequence,numBytes_units (toNat_lt c),codePoint_units (toNat_lt c)]
  simp only
  have bound := toNat_lt c
  have valid : c.toNat < 0xD800 ∨ 0xDFFF < c.toNat := by
    rcases c.valid with low | ⟨high,_⟩
    · exact Or.inl low
    · exact Or.inr high
  have long : ¬ ((c.toNat < 0x80 && (units c.toNat).length > 1 || c.toNat < 0x800 && (units c.toNat).length > 2 ||
      c.toNat < 0x10000 && (units c.toNat).length > 3) = true) := by
    unfold units
    split_ifs <;> simp <;> omega
  have high : ¬ c.toNat > 0x10FFFF := by omega
  have surrogate : ¬ ((c.toNat ≥ 0xD800 && c.toNat ≤ 0xDFFF) = true) := by
    simp
    omega
  rw [if_neg long,if_neg high,if_neg surrogate]

private theorem cont_behind {s : List Nat} (cont : isCont (s.getD 0 0) = true) : ∃ b t, s = b :: t ∧ isCont b = true := by
  cases s with
  | nil => cases cont
  | cons b t => exact ⟨b,t,rfl,cont⟩

/-- The bytes of a sequence that is not longer than it has to be are those of its code point. -/
private theorem codePoint_some {b cp len : Nat} {s : List Nat} (small : ∀ x ∈ b :: s, x < 256)
    (size : numBytesInUtf8Sequence b = len) (found : codePoint (b :: s) len = some cp)
    (two : cp < 0x80 → len ≤ 1) (three : cp < 0x800 → len ≤ 2) (four : cp < 0x10000 → len ≤ 3) :
    ∃ t, b :: s = units cp ++ t ∧ (units cp).length = len := by
  rw [numBytes_eq b (small b List.mem_cons_self)] at size
  have cont (x : Nat) (inside : x ∈ s) (cont : isCont x = true) : 0x80 ≤ x ∧ x < 0xC0 :=
    (isCont_iff x (small x (List.mem_cons_of_mem b inside))).mp cont
  simp only [codePoint,List.getD_cons_zero,List.getD_cons_succ,Bool.and_eq_true,decide_eq_true_eq,push_bits,
    (low_bits b).1,(low_bits b).2.1,(low_bits b).2.2] at found
  split_ifs at found with one second third fourth
  · cases found
    refine ⟨s,?_⟩
    have ascii : b < 0x80 := by
      split_ifs at size <;> omega
    simp [units,ascii,one]
  · obtain ⟨rfl,c₁⟩ := second
    obtain ⟨b₁,t,rfl,c₁⟩ := cont_behind c₁
    have r₁ := cont b₁ (by simp) c₁
    simp only [List.getD_cons_zero,Option.some.injEq] at found
    refine ⟨t,?_⟩
    have low : 0xC2 ≤ b ∧ b < 0xE0 := by split_ifs at size <;> omega
    have range : ¬ cp < 0x80 ∧ cp < 0x800 := by omega
    simp only [units,if_neg range.1,if_pos range.2,List.cons_append,List.nil_append,List.cons.injEq,and_true]
    exact ⟨⟨by omega,by omega⟩,rfl⟩
  · obtain ⟨⟨rfl,c₁⟩,c₂⟩ := third
    obtain ⟨b₁,t,rfl,c₁⟩ := cont_behind c₁
    obtain ⟨b₂,t,rfl,c₂⟩ := cont_behind c₂
    have r₁ := cont b₁ (by simp) c₁
    have r₂ := cont b₂ (by simp) c₂
    simp only [List.getD_cons_zero,List.getD_cons_succ,Option.some.injEq] at found
    refine ⟨t,?_⟩
    have low : 0xE0 ≤ b ∧ b < 0xF0 := by split_ifs at size <;> omega
    have range : ¬ cp < 0x80 ∧ ¬ cp < 0x800 ∧ cp < 0x10000 := by omega
    simp only [units,if_neg range.1,if_neg range.2.1,if_pos range.2.2,List.cons_append,List.nil_append,
      List.cons.injEq,and_true]
    exact ⟨⟨by omega,by omega,by omega⟩,rfl⟩
  · obtain ⟨⟨⟨rfl,c₁⟩,c₂⟩,c₃⟩ := fourth
    obtain ⟨b₁,t,rfl,c₁⟩ := cont_behind c₁
    obtain ⟨b₂,t,rfl,c₂⟩ := cont_behind c₂
    obtain ⟨b₃,t,rfl,c₃⟩ := cont_behind c₃
    have r₁ := cont b₁ (by simp) c₁
    have r₂ := cont b₂ (by simp) c₂
    have r₃ := cont b₃ (by simp) c₃
    simp only [List.getD_cons_zero,List.getD_cons_succ,Option.some.injEq] at found
    refine ⟨t,?_⟩
    have low : 0xF0 ≤ b ∧ b < 0xF5 := by split_ifs at size <;> omega
    have range : ¬ cp < 0x80 ∧ ¬ cp < 0x800 ∧ ¬ cp < 0x10000 := by omega
    simp only [units,if_neg range.1,if_neg range.2.1,if_neg range.2.2,List.cons_append,List.nil_append,
      List.cons.injEq,and_true]
    exact ⟨⟨by omega,by omega,by omega,by omega⟩,rfl⟩

private theorem verify_some {b len : Nat} {s : List Nat} (small : ∀ x ∈ b :: s, x < 256)
    (valid : verifyUtf8Sequence (b :: s) = some len) :
    ∃ c t, b :: s = codes c ++ t ∧ (codes c).length = len := by
  rw [verifyUtf8Sequence,List.getD_cons_zero] at valid
  split at valid
  · cases valid
  · rename_i cp found
    split_ifs at valid with long high surrogate
    cases valid
    simp only [Bool.or_eq_true,Bool.and_eq_true,decide_eq_true_eq] at long surrogate
    have valid : cp.isValidChar := by
      unfold Nat.isValidChar
      omega
    have whole := codePoint_some small rfl found (by omega) (by omega) (by omega)
    rw [← codes_toNat valid] at whole
    obtain ⟨t,same,size⟩ := whole
    exact ⟨_,t,same,size⟩

/-! The whole string. -/

private theorem validLoop_ahead (ahead : Nat) (s : List Nat) : validLoop ahead s = validLoop 0 (s.drop ahead) := by
  induction ahead generalizing s with
  | zero => rfl
  | succ ahead ih =>
    cases s with
    | nil => simp [validLoop]
    | cons b s => rw [validLoop,ih,List.drop_succ_cons]

theorem validLoop_codes (c : Char) (t : List Nat) : validLoop 0 (codes c ++ t) = validLoop 0 t := by
  have some' : codes c ≠ [] := by
    rw [codes_units]
    exact units_ne_nil _
  obtain ⟨b,s,first⟩ := List.exists_cons_of_ne_nil some'
  have verified := verify_codes c t
  rw [first] at verified ⊢
  rw [List.cons_append] at verified ⊢
  rw [validLoop,verified]
  simp only [List.length_cons,Nat.add_sub_cancel]
  rw [validLoop_ahead,List.drop_left]

private theorem validLoop_iff {s : List Nat} (small : ∀ b ∈ s, b < 256) : validLoop 0 s = true ↔ Encoded s := by
  constructor
  · intro valid
    induction size : s.length using Nat.strong_induction_on generalizing s with
    | h n ih =>
      cases s with
      | nil => exact encoded_nil
      | cons b s =>
        cases verified : verifyUtf8Sequence (b :: s) with
        | none =>
          rw [validLoop,verified] at valid
          cases valid
        | some len =>
          obtain ⟨c,t,same,_⟩ := verify_some small verified
          rw [same] at valid small size ⊢
          rw [validLoop_codes] at valid
          have shorter : t.length < n := by
            have some' : 0 < (codes c).length := by
              rw [codes_units]
              exact List.length_pos_of_ne_nil (units_ne_nil _)
            rw [List.length_append] at size
            omega
          exact (encoded_codes c).append (ih _ shorter (fun b inside => small b (by simp [inside])) valid rfl)
  · rintro ⟨cs,rfl⟩
    induction cs with
    | nil => rfl
    | cons c cs ih =>
      rw [encode,List.flatMap_cons,validLoop_codes]
      exact ih fun b inside => small b (by
        rw [encode,List.flatMap_cons]
        exact List.mem_append_right _ inside)

def Valid (s : Text) : Prop := Encoded (bytes s)

/-- The strings that are taken are the encodings of lists of characters. -/
theorem isValidUtf8_iff (s : Text) : isValidUtf8 s = true ↔ Valid s := by
  apply validLoop_iff
  intro b member
  obtain ⟨c,_,rfl⟩ := List.mem_map.mp member
  exact Nat.mod_lt _ (by decide)

end Mybmm.Json
