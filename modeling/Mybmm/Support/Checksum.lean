import Mathlib.Data.List.Basic
import Mathlib.Logic.Function.Iterate

/-! Checksums kept in a shift register, least significant bit first. They are linear in
what is fed to them, and a register takes no burst of errors to zero that it could hold. -/
namespace Mybmm.Checksum

variable {w : Nat}

def shift (poly x : BitVec w) : BitVec w := if x.getLsbD 0 then (x >>> 1) ^^^ poly else x >>> 1

def feed (poly x : BitVec w) (bit : Bool) : BitVec w := shift poly (x ^^^ (BitVec.ofBool bit).setWidth w)

def feedAll (poly x : BitVec w) (bits : List Bool) : BitVec w := bits.foldl (feed poly) x

/-- The bits of a word, the least significant first. -/
def bitsOf {n : Nat} (b : BitVec n) : List Bool := List.ofFn fun i : Fin n => b.getLsbD i

section
variable (poly x : BitVec w)

theorem feedAll_cons (bit : Bool) (bits : List Bool) :
    feedAll poly x (bit :: bits) = feedAll poly (feed poly x bit) bits := rfl

theorem feedAll_append (first second : List Bool) :
    feedAll poly x (first ++ second) = feedAll poly (feedAll poly x first) second := List.foldl_append

theorem shift_xor (y : BitVec w) : shift poly (x ^^^ y) = shift poly x ^^^ shift poly y := by
  unfold shift
  rw [BitVec.getLsbD_xor,BitVec.ushiftRight_xor_distrib]
  cases x.getLsbD 0 <;> cases y.getLsbD 0
  · rfl
  · exact BitVec.xor_assoc _ _ _
  · simp only [Bool.bne_false,if_true,Bool.false_eq_true,if_false]
    ac_rfl
  · simp only [bne_self_eq_false,Bool.false_eq_true,if_true,if_false]
    rw [BitVec.xor_assoc (x >>> 1),BitVec.xor_comm poly,BitVec.xor_assoc (y >>> 1),BitVec.xor_self,BitVec.xor_zero]

theorem ofBool_xor (a b : Bool) : (BitVec.ofBool (a ^^ b)).setWidth w =
    (BitVec.ofBool a).setWidth w ^^^ (BitVec.ofBool b).setWidth w := by
  rw [← BitVec.setWidth_xor,BitVec.ofBool_xor_ofBool]

theorem feed_xor (y : BitVec w) (a b : Bool) : feed poly (x ^^^ y) (a ^^ b) = feed poly x a ^^^ feed poly y b := by
  rw [feed,feed,feed,← shift_xor,ofBool_xor]
  congr 1
  ac_rfl

theorem feedAll_xor (y : BitVec w) (as bs : List Bool) (same : as.length = bs.length) :
    feedAll poly (x ^^^ y) (List.zipWith Bool.xor as bs) = feedAll poly x as ^^^ feedAll poly y bs := by
  induction as generalizing x y bs with
  | nil =>
    obtain rfl := List.eq_nil_of_length_eq_zero same.symm
    rfl
  | cons a as ih =>
    cases bs with
    | nil => simp at same
    | cons b bs =>
      rw [List.zipWith_cons_cons,feedAll_cons,feedAll_cons,feedAll_cons,feed_xor]
      exact ih (feed poly x a) (feed poly y b) bs (Nat.succ.inj same)

end

section
variable {poly : BitVec w} (top : poly.msb = true)
include top

theorem shift_lsb {x : BitVec w} (low : (shift poly x).getLsbD (w - 1) = false) : x.getLsbD 0 = false := by
  have wide : 0 < w := Nat.pos_of_ne_zero fun zero => by
    subst zero
    simp [BitVec.msb_eq_getLsbD_last] at top
  cases first : x.getLsbD 0 with
  | false => rfl
  | true =>
    rw [BitVec.msb_eq_getLsbD_last] at top
    have beyond : x.getLsbD (1 + (w - 1)) = false := BitVec.getLsbD_of_ge x _ (by omega)
    rw [shift,if_pos first,BitVec.getLsbD_xor,BitVec.getLsbD_ushiftRight,beyond,top] at low
    exact absurd low (by decide)

/-- A register that so many bits take to zero, no more than it has, holds just these. -/
theorem feedAll_eq_zero {x : BitVec w} {bits : List Bool} (short : bits.length ≤ w) (zero : feedAll poly x bits = 0)
    (i : Nat) : x.getLsbD i = bits[i]?.getD false := by
  induction bits generalizing x i with
  | nil =>
    obtain rfl : x = 0 := zero
    simp
  | cons bit bits ih =>
    rw [feedAll_cons] at zero
    have few : bits.length < w := short
    have held := fun i => ih (Nat.le_of_lt few) zero i
    have last := held (w - 1)
    rw [List.getElem?_eq_none (by omega),Option.getD_none] at last
    have low := shift_lsb top last
    have fed : feed poly x bit = (x ^^^ (BitVec.ofBool bit).setWidth w) >>> 1 := by
      rw [feed,shift,if_neg (by simp [low])]
    cases i with
    | zero =>
      have wide : 0 < w := Nat.zero_lt_of_lt few
      simpa [BitVec.getLsbD_setWidth,BitVec.getLsbD_ofBool,wide] using low
    | succ i =>
      have next := held i
      rw [fed,BitVec.getLsbD_ushiftRight,BitVec.getLsbD_xor,BitVec.getLsbD_setWidth,BitVec.getLsbD_ofBool] at next
      simpa [Nat.add_comm] using next

/-- Nothing but zeros is fed: a register is taken to zero if it was there. -/
theorem feedAll_still (x : BitVec w) {bits : List Bool} (still : ∀ bit ∈ bits, bit = false) :
    feedAll poly x bits = 0 ↔ x = 0 := by
  have wide : 0 < w := Nat.pos_of_ne_zero fun zero => by
    subst zero
    simp [BitVec.msb_eq_getLsbD_last] at top
  induction bits generalizing x with
  | nil => rfl
  | cons bit bits ih =>
    obtain ⟨rfl,rest⟩ := List.forall_mem_cons.mp still
    refine (ih (feed poly x false) rest).trans ⟨fun zero => ?_,?_⟩
    · have single : [false].length ≤ w := wide
      apply BitVec.eq_of_getLsbD_eq
      intro i _
      have held := feedAll_eq_zero top single zero i
      cases i <;> simpa using held
    · rintro rfl
      simp [feed,shift]

/-- Errors that lie no further apart than the register is wide do not come to zero. -/
theorem burst_nonzero {bits : List Bool} (start : Nat) (wrong : true ∈ bits)
    (burst : ∀ i, bits[i]? = some true → start ≤ i ∧ i < start + w) : feedAll poly 0 bits ≠ 0 := by
  intro zero
  have before : ∀ bit ∈ bits.take start, bit = false := by
    intro bit member
    obtain ⟨i,held⟩ := List.mem_iff_getElem?.mp member
    rw [List.getElem?_take] at held
    split_ifs at held with early
    exact Bool.eq_false_iff.mpr fun on => absurd (burst i (on ▸ held)).1 (Nat.not_le_of_gt early)
  have after : ∀ bit ∈ bits.drop (start + w), bit = false := by
    intro bit member
    obtain ⟨i,held⟩ := List.mem_iff_getElem?.mp member
    rw [List.getElem?_drop] at held
    exact Bool.eq_false_iff.mpr fun on => absurd (burst _ (on ▸ held)).2 (by omega)
  have parts : bits = bits.take start ++ ((bits.drop start).take w ++ bits.drop (start + w)) := by
    rw [← List.drop_drop,List.take_append_drop,List.take_append_drop]
  rw [parts,feedAll_append,(feedAll_still top 0 before).mpr rfl,feedAll_append,feedAll_still top _ after] at zero
  have within := feedAll_eq_zero top (List.length_take_le _ _) zero
  have still : ∀ bit ∈ (bits.drop start).take w, bit = false := by
    intro bit member
    obtain ⟨i,held⟩ := List.mem_iff_getElem?.mp member
    simpa [held] using (within i).symm
  have all : ∀ bit ∈ bits, bit = false := by
    rw [parts]
    exact List.forall_mem_append.mpr ⟨before,List.forall_mem_append.mpr ⟨still,after⟩⟩
  exact absurd (all true wrong) (by decide)

end

/-! Words. -/

theorem bitsOf_succ {n : Nat} (b : BitVec (n + 1)) : bitsOf b = b.getLsbD 0 :: bitsOf (b.extractLsb' 1 n) := by
  rw [bitsOf,List.ofFn_succ,bitsOf]
  congr 2
  ext i
  simp [Nat.add_comm]

theorem shift_shiftLeft (poly : BitVec w) {y : BitVec w} (top : y.getLsbD (w - 1) = false) :
    shift poly (y <<< 1) = y := by
  have low : (y <<< 1).getLsbD 0 = false := by simp
  rw [shift,if_neg (by simp [low])]
  apply BitVec.eq_of_getLsbD_eq
  intro i inside
  rw [BitVec.getLsbD_ushiftRight,BitVec.getLsbD_shiftLeft,Nat.add_sub_cancel_left]
  by_cases last : i = w - 1
  · subst last
    simp [top]
  · have room : 1 + i < w := by omega
    simp [room]

theorem setWidth_succ {n : Nat} (b : BitVec (n + 1)) :
    b.setWidth w = (BitVec.ofBool (b.getLsbD 0)).setWidth w ^^^ (b.extractLsb' 1 n).setWidth w <<< 1 := by
  apply BitVec.eq_of_getLsbD_eq
  intro i inside
  rw [BitVec.getLsbD_xor,BitVec.getLsbD_shiftLeft]
  cases i with
  | zero => simp [inside]
  | succ i =>
    have before : i < w := Nat.lt_of_succ_lt inside
    simp only [BitVec.getLsbD_setWidth,BitVec.getLsbD_ofBool,BitVec.getLsbD_extractLsb',inside]
    by_cases within : i < n
    · simp [within,before,Nat.add_comm]
    · simp [within,BitVec.getLsbD_of_ge b (i + 1) (by omega)]

/-- A word is fed at once, and then shifted through. -/
theorem feedAll_word (poly x : BitVec w) {n : Nat} (b : BitVec n) (fits : n ≤ w) :
    feedAll poly x (bitsOf b) = (shift poly)^[n] (x ^^^ b.setWidth w) := by
  induction n generalizing x with
  | zero =>
    obtain rfl : b = 0 := BitVec.eq_nil b
    simp [feedAll,bitsOf]
  | succ n ih =>
    have top : ((b.extractLsb' 1 n).setWidth w).getLsbD (w - 1) = false := by
      rw [BitVec.getLsbD_setWidth,BitVec.getLsbD_of_ge _ _ (by omega),Bool.and_false]
    rw [bitsOf_succ,feedAll_cons,ih _ _ (by omega),Function.iterate_succ_apply,setWidth_succ,← BitVec.xor_assoc,
      shift_xor,shift_shiftLeft poly top,feed]

/-- The checksum of a message, word by word. -/
def checksum {n : Nat} (poly init : BitVec w) (message : List (BitVec n)) : BitVec w :=
  message.foldl (fun x b => (shift poly)^[n] (x ^^^ b.setWidth w)) init

section
variable {n : Nat}

theorem checksum_bits (fits : n ≤ w) (poly init : BitVec w) (message : List (BitVec n)) :
    checksum poly init message = feedAll poly init (message.flatMap bitsOf) := by
  induction message generalizing init with
  | nil => rfl
  | cons b message ih =>
    rw [List.flatMap_cons,feedAll_append,feedAll_word poly init b fits]
    exact ih _

theorem bitsOf_xor (a b : BitVec n) : bitsOf (a ^^^ b) = List.zipWith Bool.xor (bitsOf a) (bitsOf b) := by
  apply List.ext_getElem
  · simp [bitsOf]
  · intro i _ _
    simp [bitsOf]

theorem bits_xor (as bs : List (BitVec n)) (same : as.length = bs.length) :
    (List.zipWith (· ^^^ ·) as bs).flatMap bitsOf = List.zipWith Bool.xor (as.flatMap bitsOf) (bs.flatMap bitsOf) := by
  induction as generalizing bs with
  | nil => rfl
  | cons a as ih =>
    cases bs with
    | nil => simp at same
    | cons b bs =>
      have equal : (bitsOf a).length = (bitsOf b).length := by simp [bitsOf]
      rw [List.zipWith_cons_cons,List.flatMap_cons,List.flatMap_cons,List.flatMap_cons,List.zipWith_append equal,
        ih bs (Nat.succ.inj same),bitsOf_xor]

theorem bits_length (message : List (BitVec n)) : (message.flatMap bitsOf).length = n * message.length := by
  induction message with
  | nil => rfl
  | cons b message ih =>
    rw [List.flatMap_cons,List.length_append,ih,bitsOf,List.length_ofFn,List.length_cons,Nat.mul_succ,Nat.add_comm]

/-- Where the bits of a message are. -/
theorem bits_at {message : List (BitVec n)} {k : Nat} (held : (message.flatMap bitsOf)[k]? = some true) :
    ∃ i j b, k = n * i + j ∧ message[i]? = some b ∧ b.getLsbD j = true := by
  induction message generalizing k with
  | nil => simp at held
  | cons b message ih =>
    have size : (bitsOf b).length = n := List.length_ofFn
    rw [List.flatMap_cons] at held
    rcases Nat.lt_or_ge k n with here | later
    · rw [List.getElem?_append_left (by omega)] at held
      refine ⟨0,k,b,by simp,rfl,?_⟩
      simpa [bitsOf,here] using held
    · rw [List.getElem?_append_right (by omega),size] at held
      obtain ⟨i,j,c,place,found,on⟩ := ih held
      refine ⟨i + 1,j,c,?_,found,on⟩
      rw [Nat.mul_succ]
      omega

theorem bits_nonzero {message : List (BitVec n)} {b : BitVec n} (member : b ∈ message) (nonzero : b ≠ 0) :
    true ∈ message.flatMap bitsOf := by
  refine List.mem_flatMap.mpr ⟨b,member,?_⟩
  by_contra none
  apply nonzero
  apply BitVec.eq_of_getLsbD_eq
  intro i inside
  have off : b.getLsbD i ≠ true := fun on => none (by simpa [bitsOf,List.mem_ofFn] using ⟨⟨i,inside⟩,on⟩)
  simpa using off

/-- A burst changes the checksum of every message. -/
theorem burst_changes {poly : BitVec w} (top : poly.msb = true) (fits : n ≤ w) (init : BitVec w)
    (message errors : List (BitVec n)) (same : message.length = errors.length) {b : BitVec n} (member : b ∈ errors)
    (nonzero : b ≠ 0) (start : Nat)
    (burst : ∀ i j b, errors[i]? = some b → b.getLsbD j = true → start ≤ n * i + j ∧ n * i + j < start + w) :
    checksum poly init (List.zipWith (· ^^^ ·) message errors) ≠ checksum poly init message := by
  intro equal
  have lengths : (message.flatMap bitsOf).length = (errors.flatMap bitsOf).length := by
    rw [bits_length,bits_length,same]
  have linear := feedAll_xor poly init 0 _ _ lengths
  have plain : init ^^^ 0 = init := BitVec.xor_zero
  rw [plain,← bits_xor message errors same,← checksum_bits fits,← checksum_bits fits,equal] at linear
  have gone : feedAll poly 0 (errors.flatMap bitsOf) = 0 := by
    have twice := congrArg (checksum poly init message ^^^ ·) linear
    simpa [← BitVec.xor_assoc] using twice.symm
  refine burst_nonzero top start (bits_nonzero member nonzero) (fun k held => ?_) gone
  obtain ⟨i,j,b,rfl,found,on⟩ := bits_at held
  exact burst i j b found on

end

end Mybmm.Checksum
