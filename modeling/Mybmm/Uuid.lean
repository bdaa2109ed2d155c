import Mathlib.Data.Fintype.Basic
import Mathlib.Data.List.GetD
import Mathlib.Tactic.FinCases
import Mybmm.Support.Arrays
import Mybmm.Support.Hex
import Mybmm.Support.Libc

/-! uuid.c: the bytes of a UUID and its text. -/
namespace Mybmm.Uuid
open CString Libc Arrays Hex

abbrev UuidT := Vector Byte 16

/-- The random bytes become a UUID of version four. -/
def uuidGenerateRandom (random : UuidT) : UuidT :=
  let uuid := random.set 6 (random[6] &&& 0x0F ||| 0x40)
  uuid.set 8 (uuid[8] &&& 0x3F ||| 0x80)

structure Unpacked where
  timeLow : BitVec 32
  timeMid : BitVec 16
  timeHiAndVersion : BitVec 16
  clockSeq : BitVec 16
  node : Vector Byte 6

def push (tmp : BitVec 32) (b : Byte) : BitVec 32 := tmp <<< 8 ||| b.setWidth 32

def uuidUnpack (uu : UuidT) : Unpacked where
  timeLow := push (push (push (uu[0].setWidth 32) uu[1]) uu[2]) uu[3]
  timeMid := (push (uu[4].setWidth 32) uu[5]).setWidth 16
  timeHiAndVersion := (push (uu[6].setWidth 32) uu[7]).setWidth 16
  clockSeq := (push (uu[8].setWidth 32) uu[9]).setWidth 16
  node := Vector.ofFn fun i => uu[10 + i.val]

/-- `uuid_unparse_x`, with what prints a number with so many digits. -/
def uuidUnparseX (uu : UuidT) (hex : Nat → Nat → Text) : Text :=
  let uuid := uuidUnpack uu
  hex 8 uuid.timeLow.toNat ++ '-' :: hex 4 uuid.timeMid.toNat ++ '-' :: hex 4 uuid.timeHiAndVersion.toNat ++
    '-' :: hex 2 (uuid.clockSeq >>> 8).toNat ++ hex 2 (uuid.clockSeq &&& 0xFF).toNat ++
    '-' :: hex 2 uuid.node[0].toNat ++ hex 2 uuid.node[1].toNat ++ hex 2 uuid.node[2].toNat ++
    hex 2 uuid.node[3].toNat ++ hex 2 uuid.node[4].toNat ++ hex 2 uuid.node[5].toNat

def uuidUnparseLower (uu : UuidT) : Text := uuidUnparseX uu zeroPadded

def myUuidUnparse : UuidT → Text := uuidUnparseLower

def hexToBin (ch : Char) : Int :=
  if '0' ≤ ch ∧ ch ≤ '9' then ch.toNat - 48
  else
    let ch := ch.toLower
    if 'a' ≤ ch ∧ ch ≤ 'f' then ch.toNat - 97 + 10 else -1

def isxdigit (c : Char) : Bool := isdigit c || ('a' ≤ c.toLower && c.toLower ≤ 'f')

def uuidStringLen : Nat := 37

def hyphens : List Nat := [8,13,18,23]

/-- Behind the last character stands the terminator, which is no digit. -/
def uuidIsValid (uuid : Text) : Bool :=
  (List.range uuidStringLen).all fun i =>
    if i ∈ hyphens then uuid.getD i nul = '-' else isxdigit (uuid.getD i nul)

def si : Vector Nat 16 := #v[0,2,4,6,9,11,14,16,19,21,24,26,28,30,32,34]

/-- The byte that two digits stand for. -/
def parseByte (uuid : Text) (i : Fin 16) : Byte :=
  let hi := BitVec.ofInt 32 (hexToBin (uuid.getD si[i] nul))
  let lo := BitVec.ofInt 32 (hexToBin (uuid.getD (si[i] + 1) nul))
  (hi <<< 4 ||| lo).setWidth 8

/-- `uuid_parse`, with the bytes in their order. -/
def uuidParse (uuid : Text) : Option UuidT :=
  if uuidIsValid uuid = false then none else some (Vector.ofFn (parseByte uuid))

/-! The text of a UUID. -/

private theorem push_toNat {tmp : BitVec 32} (b : Byte) (small : tmp.toNat < 2 ^ 24) :
    (push tmp b).toNat = tmp.toNat * 256 + b.toNat := by
  have byte : b.toNat < 2 ^ 8 := b.isLt
  have whole : tmp.toNat <<< 8 < 2 ^ 32 := by
    rw [Nat.shiftLeft_eq]
    omega
  rw [push,BitVec.toNat_or,BitVec.toNat_shiftLeft,BitVec.toNat_setWidth,Nat.mod_eq_of_lt whole,
    Nat.mod_eq_of_lt (by omega),← Nat.shiftLeft_add_eq_or_of_lt byte,Nat.shiftLeft_eq]

def high (b : Byte) : Char := Nat.digitChar (b.toNat / 16)

def low (b : Byte) : Char := Nat.digitChar (b.toNat % 16)

private theorem hexes_byte (b : Byte) : hexes 2 b.toNat = [high b,low b] := by
  have small : b.toNat / 16 % 16 = b.toNat / 16 := Nat.mod_eq_of_lt (by omega)
  rw [high,low,← small]
  rfl

private theorem byte_padded (b : Byte) : zeroPadded 2 b.toNat = [high b,low b] := by
  rw [zeroPadded_fits (by decide) b.isLt,hexes_byte]

private theorem word_toNat (b c : Byte) : ((push (b.setWidth 32) c).setWidth 16).toNat = b.toNat * 256 + c.toNat := by
  have first : (b.setWidth 32).toNat = b.toNat := by
    rw [BitVec.toNat_setWidth]
    exact Nat.mod_eq_of_lt (by omega)
  rw [BitVec.toNat_setWidth,push_toNat c (by omega),first]
  exact Nat.mod_eq_of_lt (by omega)

private theorem word_padded (b c : Byte) : zeroPadded 4 ((push (b.setWidth 32) c).setWidth 16).toNat =
    [high b,low b,high c,low c] := by
  rw [word_toNat,zeroPadded_fits (by decide) (by omega),hexes_push 2 b.toNat c.isLt,hexes_byte,hexes_byte]
  rfl

private theorem long_padded (a b c d : Byte) :
    zeroPadded 8 (push (push (push (a.setWidth 32) b) c) d).toNat =
      [high a,low a,high b,low b,high c,low c,high d,low d] := by
  have first : (a.setWidth 32).toNat = a.toNat := by
    rw [BitVec.toNat_setWidth]
    exact Nat.mod_eq_of_lt (by omega)
  have second : (push (a.setWidth 32) b).toNat = a.toNat * 256 + b.toNat := by rw [push_toNat b (by omega),first]
  have third : (push (push (a.setWidth 32) b) c).toNat = (a.toNat * 256 + b.toNat) * 256 + c.toNat := by
    rw [push_toNat c (by omega),second]
  rw [push_toNat d (by omega),third,zeroPadded_fits (by decide) (by omega)]
  rw [hexes_push 6 _ d.isLt,hexes_push 4 _ c.isLt,hexes_push 2 _ b.isLt,hexes_byte,hexes_byte,hexes_byte,hexes_byte]
  rfl

private theorem clock_halves (b c : Byte) :
    (((push (b.setWidth 32) c).setWidth 16) >>> 8).toNat = b.toNat ∧
      (((push (b.setWidth 32) c).setWidth 16) &&& 0xFF).toNat = c.toNat := by
  constructor
  · rw [BitVec.toNat_ushiftRight,word_toNat,Nat.shiftRight_eq_div_pow]
    omega
  · have mask : (0xFF : BitVec 16).toNat = 2 ^ 8 - 1 := rfl
    rw [BitVec.toNat_and,word_toNat,mask,Nat.and_two_pow_sub_one_eq_mod]
    omega

def spelled (uu : UuidT) : Text :=
  [high uu[0],low uu[0],high uu[1],low uu[1],high uu[2],low uu[2],high uu[3],low uu[3],'-',high uu[4],low uu[4],
    high uu[5],low uu[5],'-',high uu[6],low uu[6],high uu[7],low uu[7],'-',high uu[8],low uu[8],high uu[9],low uu[9],
    '-',high uu[10],low uu[10],high uu[11],low uu[11],high uu[12],low uu[12],high uu[13],low uu[13],high uu[14],
    low uu[14],high uu[15],low uu[15]]

private theorem unparse_spelled (uu : UuidT) : myUuidUnparse uu = spelled uu := by
  obtain ⟨first,second⟩ := clock_halves uu[8] uu[9]
  simp only [myUuidUnparse,uuidUnparseLower,uuidUnparseX,uuidUnpack,long_padded,word_padded,first,second,byte_padded,
    Vector.getElem_ofFn]
  rfl

theorem unparse_length (uu : UuidT) : (myUuidUnparse uu).length = 36 := by
  rw [unparse_spelled]
  rfl

private theorem digitChar_plain : ∀ n < 16, nul ≠ Nat.digitChar n := by decide

theorem unparse_plain (uu : UuidT) : nul ∉ myUuidUnparse uu := by
  have first (b : Byte) : nul ≠ high b := digitChar_plain _ (by omega)
  have second (b : Byte) : nul ≠ low b := digitChar_plain _ (by omega)
  have hyphen : nul ≠ '-' := by decide
  rw [unparse_spelled]
  simp [spelled,first,second,hyphen]

/-! Where the digits stand. -/

private theorem spelled_length (uu : UuidT) : (spelled uu).length = 36 := rfl

private theorem spelled_hyphens (uu : UuidT) : ∀ i ∈ hyphens, (spelled uu).getD i nul = '-' := by
  simp only [hyphens,List.forall_mem_cons]
  exact ⟨rfl,rfl,rfl,rfl,List.forall_mem_nil _⟩

/-- The two digits of a byte are where `si` has them. -/
structure Spells (s : Text) (i : Fin 16) (b : Byte) : Prop where
  first : s.getD si[i] nul = high b
  second : s.getD (si[i] + 1) nul = low b

private theorem spelled_digits (uu : UuidT) (i : Fin 16) : Spells (spelled uu) i uu[i] := by
  fin_cases i <;> exact ⟨rfl,rfl⟩

theorem places : ∀ i < 36, i ∈ hyphens ∨ ∃ j : Fin 16, i = si[j] ∨ i = si[j] + 1 := by decide

private theorem si_apart : ∀ j : Fin 16, si[j] ∉ hyphens ∧ si[j] + 1 ∉ hyphens ∧ si[j] + 1 < 36 := by decide

private theorem eq_spelled {s : Text} {uu : UuidT} (length : s.length = 36) (hyphen : ∀ i ∈ hyphens, s.getD i nul = '-')
    (digits : ∀ i : Fin 16, Spells s i uu[i]) : s = spelled uu := by
  have each : ∀ i < 36, s.getD i nul = (spelled uu).getD i nul := by
    intro i inside
    obtain held | ⟨j,rfl | rfl⟩ := places i inside
    · rw [hyphen i held,spelled_hyphens uu i held]
    · rw [(digits j).first,(spelled_digits uu j).first]
    · rw [(digits j).second,(spelled_digits uu j).second]
  apply List.ext_getElem (by rw [length,spelled_length])
  intro i first second
  have same := each i (length ▸ first)
  rwa [List.getD_eq_getElem?_getD,List.getD_eq_getElem?_getD,List.getElem?_eq_getElem first,
    List.getElem?_eq_getElem second] at same

/-! Reading the digits. -/

private theorem hexToBin_table : ∀ k < 128, isxdigit (Char.ofNat k) = true →
    (hexToBin (Char.ofNat k)).toNat < 16 ∧ hexToBin (Char.ofNat k) = (hexToBin (Char.ofNat k)).toNat ∧
      (Char.ofNat k).toLower = Nat.digitChar (hexToBin (Char.ofNat k)).toNat := by decide +kernel

private theorem digitChar_table : ∀ k < 128, ∀ n < 16, (Char.ofNat k).toLower = Nat.digitChar n →
    isxdigit (Char.ofNat k) = true ∧ hexToBin (Char.ofNat k) = n := by decide +kernel

private theorem toLower_high {c : Char} (high : 128 ≤ c.toNat) : c.toLower = c := by
  unfold Char.toLower
  rw [dif_neg]
  rintro ⟨_,upper⟩
  have upper : c.toNat ≤ 90 := upper
  omega

private theorem hexToBin_digit {c : Char} (digit : isxdigit c = true) :
    ∃ n : Nat, n < 16 ∧ hexToBin c = n ∧ c.toLower = Nat.digitChar n := by
  have low : c.toNat < 128 := by
    by_contra high
    rw [isxdigit,toLower_high (Nat.le_of_not_lt high)] at digit
    simp only [isdigit,Char.isDigit,Bool.or_eq_true,Bool.and_eq_true,decide_eq_true_eq] at digit
    rcases digit with ⟨_,upper⟩ | ⟨_,upper⟩
    · have upper : c.toNat ≤ 57 := upper
      omega
    · have upper : c.toNat ≤ 102 := upper
      omega
  have table := hexToBin_table c.toNat low
  rw [Char.ofNat_toNat] at table
  obtain ⟨small,same,lower⟩ := table digit
  exact ⟨_,small,same,lower⟩

private theorem hexToBin_lower {c : Char} {n : Nat} (small : n < 16) (lower : c.toLower = Nat.digitChar n) :
    isxdigit c = true ∧ hexToBin c = n := by
  have low : c.toNat < 128 := by
    by_contra high
    rw [toLower_high (Nat.le_of_not_lt high)] at lower
    have ascii : ∀ n < 16, (Nat.digitChar n).toNat < 128 := by decide
    exact high (lower ▸ ascii n small)
  have table := digitChar_table c.toNat low n small
  rw [Char.ofNat_toNat] at table
  exact table lower

private theorem hyphen_table : ∀ k < 128, (Char.ofNat k).toLower = '-' → Char.ofNat k = '-' := by decide +kernel

private theorem toLower_hyphen {c : Char} (lower : c.toLower = '-') : c = '-' := by
  by_cases ascii : c.toNat < 128
  · have table := hyphen_table c.toNat ascii
    rw [Char.ofNat_toNat] at table
    exact table lower
  · rwa [toLower_high (Nat.le_of_not_lt ascii)] at lower

private theorem byte_of_digits {hi lo : Nat} (high : hi < 16) (low : lo < 16) :
    ((BitVec.ofInt 32 hi <<< 4 ||| BitVec.ofInt 32 lo).setWidth 8 : Byte).toNat = hi * 16 + lo := by
  rw [BitVec.ofInt_natCast,BitVec.ofInt_natCast,BitVec.toNat_setWidth,BitVec.toNat_or,BitVec.toNat_shiftLeft,
    BitVec.toNat_ofNat,BitVec.toNat_ofNat,Nat.mod_eq_of_lt (by omega : hi < 2 ^ 32),
    Nat.mod_eq_of_lt (by omega : lo < 2 ^ 32),Nat.shiftLeft_eq,Nat.mod_eq_of_lt (by omega : hi * 2 ^ 4 < 2 ^ 32),
    ← Nat.shiftLeft_eq,← Nat.shiftLeft_add_eq_or_of_lt low,Nat.shiftLeft_eq]
  omega

private theorem getD_tolower (s : Text) (i : Nat) : (tolower s).getD i nul = (s.getD i nul).toLower := by
  rw [tolower,List.getD_eq_getElem?_getD,List.getD_eq_getElem?_getD,List.getElem?_map]
  cases s[i]? <;> rfl

private theorem halves_small (b : Byte) : b.toNat / 16 < 16 ∧ b.toNat % 16 < 16 := by omega

/-- The digits of a byte, in either case, are read as that byte. -/
private theorem parseByte_spells {s : Text} {i : Fin 16} {b : Byte} (spells : Spells (tolower s) i b) :
    parseByte s i = b := by
  obtain ⟨first,second⟩ := spells
  obtain ⟨small,small'⟩ := halves_small b
  rw [getD_tolower] at first second
  have hi := (hexToBin_lower small first).2
  have lo := (hexToBin_lower small' second).2
  apply BitVec.eq_of_toNat_eq
  rw [parseByte]
  simp only [hi,lo]
  rw [byte_of_digits small small']
  omega

private theorem spells_parseByte {s : Text} {i : Fin 16} (first : isxdigit (s.getD si[i] nul) = true)
    (second : isxdigit (s.getD (si[i] + 1) nul) = true) : Spells (tolower s) i (parseByte s i) := by
  obtain ⟨hi,small,readHi,lowerHi⟩ := hexToBin_digit first
  obtain ⟨lo,small',readLo,lowerLo⟩ := hexToBin_digit second
  have whole : (parseByte s i).toNat = hi * 16 + lo := by
    rw [parseByte]
    simp only [readHi,readLo]
    exact byte_of_digits small small'
  constructor
  · rw [getD_tolower,lowerHi,high,whole]
    congr 1
    omega
  · rw [getD_tolower,lowerLo,low,whole]
    congr 1
    omega

private theorem uuidIsValid_iff {s : Text} : uuidIsValid s = true ↔
    (∀ i ∈ hyphens, s.getD i nul = '-') ∧ ∀ i < 37, i ∉ hyphens → isxdigit (s.getD i nul) = true := by
  have inside : ∀ i ∈ hyphens, i < uuidStringLen := by decide
  simp only [uuidIsValid,List.all_eq_true,List.mem_range]
  constructor
  · intro each
    refine ⟨fun i member => ?_,fun i bound other => ?_⟩
    · have held := each i (inside i member)
      rwa [if_pos member,decide_eq_true_eq] at held
    · have held := each i bound
      rwa [if_neg other] at held
  · rintro ⟨hyphen,digit⟩ i bound
    split_ifs with member
    · exact decide_eq_true (hyphen i member)
    · exact digit i bound member

private theorem digit_inside {s : Text} {i : Nat} (digit : isxdigit (s.getD i nul) = true) : i < s.length := by
  by_contra outside
  rw [List.getD_eq_getElem?_getD,List.getElem?_eq_none (Nat.le_of_not_lt outside)] at digit
  exact absurd digit (by decide)

private theorem parsed_spelled {s : Text} (valid : uuidIsValid s = true) :
    tolower (s.take 36) = spelled (Vector.ofFn (parseByte s)) := by
  obtain ⟨hyphen,digit⟩ := uuidIsValid_iff.mp valid
  have long : 36 < s.length := digit_inside (digit 36 (by decide) (by decide))
  have front (i : Nat) (inside : i < 36) : (tolower (s.take 36)).getD i nul = (tolower s).getD i nul := by
    rw [getD_tolower,getD_tolower,List.getD_eq_getElem?_getD,List.getD_eq_getElem?_getD,List.getElem?_take_of_lt inside]
  have bounds : ∀ i ∈ hyphens, i < 36 := by decide
  apply eq_spelled
  · rw [tolower,List.length_map,List.length_take]
    omega
  · intro i member
    rw [front i (bounds i member),getD_tolower,hyphen i member]
    rfl
  · intro j
    obtain ⟨first,second,inside⟩ := si_apart j
    have byte : (Vector.ofFn (parseByte s))[j] = parseByte s j := Vector.getElem_ofFn j.isLt
    obtain ⟨spelled,spelled'⟩ :=
      spells_parseByte (digit _ (by omega) first) (digit _ (by omega) second)
    rw [byte]
    exact ⟨(front _ (by omega)).trans spelled,(front _ inside).trans spelled'⟩

private theorem valid_spelled {u t : Text} {c : Char} {uu : UuidT} (same : tolower u = spelled uu)
    (digit : isxdigit c = true) :
    uuidIsValid (u ++ c :: t) = true ∧ Vector.ofFn (parseByte (u ++ c :: t)) = uu := by
  have length : u.length = 36 := by
    rw [← List.length_map Char.toLower]
    exact (congrArg List.length same).trans (spelled_length uu)
  have front (i : Nat) (inside : i < 36) : ((u ++ c :: t).getD i nul).toLower = (spelled uu).getD i nul := by
    rw [← same,getD_tolower,List.getD_append _ _ _ _ (length ▸ inside)]
  have spells (j : Fin 16) : Spells (tolower (u ++ c :: t)) j uu[j] := by
    obtain ⟨_,_,inside⟩ := si_apart j
    constructor
    · rw [getD_tolower,front _ (by omega),(spelled_digits uu j).first]
    · rw [getD_tolower,front _ inside,(spelled_digits uu j).second]
  refine ⟨uuidIsValid_iff.mpr ⟨fun i member => ?_,fun i bound other => ?_⟩,?_⟩
  · have bounds : ∀ i ∈ hyphens, i < 36 := by decide
    apply toLower_hyphen
    rw [front i (bounds i member),spelled_hyphens uu i member]
  · by_cases last : i = 36
    · subst last
      rw [List.getD_eq_getElem?_getD,← length,List.getElem?_append_right le_rfl,Nat.sub_self]
      exact digit
    · obtain held | ⟨j,rfl | rfl⟩ := places i (by omega)
      · exact absurd held other
      · have lower := (spells j).first
        rw [getD_tolower] at lower
        exact (hexToBin_lower (halves_small _).1 lower).1
      · have lower := (spells j).second
        rw [getD_tolower] at lower
        exact (hexToBin_lower (halves_small _).2 lower).1
  · apply Vector.ext
    intro i inside
    rw [Vector.getElem_ofFn]
    exact parseByte_spells (spells ⟨i,inside⟩)

/-- What is accepted is the text of a UUID, in letters of either case, with one more digit
behind it: the loop goes one too far. -/
theorem uuidParse_iff (s : Text) (uu : UuidT) : uuidParse s = some uu ↔
    ∃ u c t, s = u ++ c :: t ∧ tolower u = myUuidUnparse uu ∧ isxdigit c = true := by
  rw [unparse_spelled,uuidParse]
  constructor
  · intro parsed
    split_ifs at parsed with invalid
    have valid : uuidIsValid s = true := Bool.eq_true_of_not_eq_false invalid
    cases parsed
    obtain ⟨_,digit⟩ := uuidIsValid_iff.mp valid
    have last := digit 36 (by decide) (by decide)
    have long : 36 < s.length := digit_inside last
    refine ⟨s.take 36,s[36],s.drop 37,?_,parsed_spelled valid,?_⟩
    · rw [List.getElem_cons_drop,List.take_append_drop]
    · rwa [List.getD_eq_getElem?_getD,List.getElem?_eq_getElem long] at last
  · rintro ⟨u,c,t,rfl,same,digit⟩
    obtain ⟨valid,bytes⟩ := valid_spelled same digit (t := t)
    rw [if_neg (by simp [valid]),bytes]

/-! The UUIDs that are made. -/

private theorem digitChar_inj : ∀ m < 16, ∀ n < 16, Nat.digitChar m = Nat.digitChar n → m = n := by decide

private theorem unparse_inj {uu vv : UuidT} : myUuidUnparse uu = myUuidUnparse vv ↔ uu = vv := by
  refine ⟨fun same => ?_,congrArg _⟩
  rw [unparse_spelled,unparse_spelled] at same
  apply Vector.ext
  intro i inside
  have first := (spelled_digits uu ⟨i,inside⟩).first
  have second := (spelled_digits uu ⟨i,inside⟩).second
  rw [same,(spelled_digits vv ⟨i,inside⟩).first] at first
  rw [same,(spelled_digits vv ⟨i,inside⟩).second] at second
  have hi := digitChar_inj _ (halves_small _).1 _ (halves_small _).1 first
  have lo := digitChar_inj _ (halves_small _).2 _ (halves_small _).2 second
  apply BitVec.eq_of_toNat_eq
  change (vv[i]).toNat / 16 = (uu[i]).toNat / 16 at hi
  change (vv[i]).toNat % 16 = (uu[i]).toNat % 16 at lo
  omega

def lowerHex : Text := "0123456789abcdef".toList

private theorem digitChar_lower : ∀ n < 16, Nat.digitChar n ∈ lowerHex := by decide

private theorem version_digit : ∀ b : Byte, high (b &&& 0x0F ||| 0x40) = '4' := by decide +kernel

private theorem variant_digit : ∀ b : Byte, high (b &&& 0x3F ||| 0x80) ∈ ['8','9','a','b'] := by decide +kernel

/-- The text of a new UUID, which `uuid_parse` does not take. -/
theorem generated_text (random : UuidT) :
    let s := myUuidUnparse (uuidGenerateRandom random)
    s.length = 36 ∧ (∀ i < 36, s.getD i nul = '-' ∧ i ∈ hyphens ∨ s.getD i nul ∈ lowerHex ∧ i ∉ hyphens) ∧
      s.getD 14 nul = '4' ∧ s.getD 19 nul ∈ ['8','9','a','b'] ∧ uuidParse s = none := by
  intro s
  have text : s = spelled (uuidGenerateRandom random) := unparse_spelled _
  have length : s.length = 36 := text ▸ spelled_length _
  refine ⟨length,fun i inside => ?_,?_,?_,?_⟩
  · rw [text]
    obtain held | ⟨j,rfl | rfl⟩ := places i inside
    · exact Or.inl ⟨spelled_hyphens _ i held,held⟩
    · rw [(spelled_digits _ j).first]
      exact Or.inr ⟨digitChar_lower _ (halves_small _).1,(si_apart j).1⟩
    · rw [(spelled_digits _ j).second]
      exact Or.inr ⟨digitChar_lower _ (halves_small _).2,(si_apart j).2.1⟩
  · have byte : (uuidGenerateRandom random)[6] = random[6] &&& 0x0F ||| 0x40 := by simp [uuidGenerateRandom]
    rw [text,← version_digit random[6],← byte]
    exact (spelled_digits _ 6).first
  · have byte : (uuidGenerateRandom random)[8] = random[8] &&& 0x3F ||| 0x80 := by simp [uuidGenerateRandom]
    have first := (spelled_digits (uuidGenerateRandom random) 8).first
    rw [text,show (19 : Nat) = si[(8 : Fin 16)] from rfl,first]
    exact byte ▸ variant_digit random[8]
  · rw [uuidParse,if_pos]
    rw [Bool.eq_false_iff]
    intro valid
    have long := digit_inside ((uuidIsValid_iff.mp valid).2 36 (by decide) (by decide))
    omega

private theorem version_masked : ∀ b : Byte, (b &&& 0x0F ||| 0x40) &&& 0x0F = b &&& 0x0F := by decide +kernel

private theorem variant_masked : ∀ b : Byte, (b &&& 0x3F ||| 0x80) &&& 0x3F = b &&& 0x3F := by decide +kernel

/-- Two new UUIDs have one text only when the random bytes they were made from agree but for
the six bits of the version and the variant. -/
theorem generated_distinct (random random' : UuidT) :
    myUuidUnparse (uuidGenerateRandom random) = myUuidUnparse (uuidGenerateRandom random') ↔
      (∀ i : Fin 16, i ≠ 6 → i ≠ 8 → random[i] = random'[i]) ∧ random[6] &&& (0x0F : Byte) = random'[6] &&& 0x0F ∧
        random[8] &&& (0x3F : Byte) = random'[8] &&& 0x3F := by
  have made (random : UuidT) (i : Fin 16) : (uuidGenerateRandom random)[i] =
      if i = 6 then random[6] &&& 0x0F ||| 0x40 else if i = 8 then random[8] &&& 0x3F ||| 0x80 else random[i] := by
    fin_cases i <;> simp [uuidGenerateRandom]
  rw [unparse_inj]
  constructor
  · intro same
    have each (i : Fin 16) : (uuidGenerateRandom random)[i] = (uuidGenerateRandom random')[i] := by rw [same]
    refine ⟨fun i other other' => ?_,?_,?_⟩
    · have held := each i
      rwa [made,made,if_neg other,if_neg other,if_neg other',if_neg other'] at held
    · have held := each 6
      rw [made,made,if_pos rfl,if_pos rfl] at held
      rw [← version_masked,held,version_masked]
    · have held := each 8
      simp only [made,if_neg (by decide : (8 : Fin 16) ≠ 6),if_true] at held
      rw [← variant_masked,held,variant_masked]
  · rintro ⟨others,version,variant⟩
    apply Vector.ext
    intro i inside
    change (uuidGenerateRandom random)[(⟨i,inside⟩ : Fin 16)] = (uuidGenerateRandom random')[(⟨i,inside⟩ : Fin 16)]
    rw [made,made]
    split_ifs with six eight
    · rw [version]
    · rw [variant]
    · exact others _ six eight

end Mybmm.Uuid
