import Mybmm.JbdAgree
import Mybmm.JbdBounds

/-! The balance bits from the wire to what is sent on. Each of the two words is a signed
number, and the sign of the low one is carried into the place of the high one. -/
namespace Mybmm.JbdBalance
open Config Flags Arrays Cellmon Routine Jbd JbdBounds

/-- The loop of `pack_send_mqtt` over the cells. -/
def bitText (bits : BitVec 32) : (left : Nat) → (mask : BitVec 64) → List Char
  | 0, _ => []
  | left + 1, mask => (if bits.setWidth 64 &&& mask ≠ 0 then '1' else '0') :: bitText bits left (mask <<< 1)

def packSendMqttBits (pp : PackInfo) : List Char := bitText pp.balancebits pp.cells.toNat 1

/-- The two words as they are received, when they are: the bytes that a packet does not
bring are zeros. -/
def balanceWords (can : Bool) (replies : Replies) : Option (BitVec 16 × BitVec 16) :=
  if can then (jbdCanGetCrc replies 0x102).map fun data => (wordAt data 0,wordAt data 2)
  else (jbdRw replies jbdCmdHwinfo).map fun reply =>
    (getshort (reply[12]?.getD 0) (reply[13]?.getD 0),getshort (reply[14]?.getD 0) (reply[15]?.getD 0))

def received (lo hi : BitVec 16) (k : Nat) : Bool := if k < 16 then lo.getLsbD k else hi.getLsbD (k - 16)

structure BitForBit (lo hi : BitVec 16) (pp : PackInfo) : Prop where
  value : pp.balancebits.toNat = lo.toNat + 65536 * hi.toNat
  bits : ∀ k, pp.balancebits.getLsbD k = received lo hi k
  sent : ∀ k : Nat, k < pp.cells → (packSendMqttBits pp)[k]? = some (if received lo hi k then '1' else '0')

/-! The text. -/

private theorem mask_bit (bits : BitVec 32) (i : Nat) : (bits.setWidth 64 &&& (1#64 <<< i) ≠ 0) ↔ bits.getLsbD i = true := by
  rw [← BitVec.twoPow_eq,BitVec.and_twoPow,BitVec.getLsbD_setWidth]
  cases held : bits.getLsbD i with
  | false => simp
  | true =>
    have inside : i < 32 := BitVec.lt_of_getLsbD held
    have mask : (BitVec.twoPow 64 i).toNat = 2 ^ i := BitVec.toNat_twoPow_of_lt (by omega)
    have wide : decide (i < 64) = true := decide_eq_true (by omega)
    simp only [wide,Bool.and_self,if_true,iff_true]
    intro zero
    rw [zero] at mask
    exact absurd mask (Nat.pos_iff_ne_zero.mp (Nat.two_pow_pos i)).symm

private theorem bitText_at (bits : BitVec 32) (left i k : Nat) (inside : k < left) :
    (bitText bits left (1#64 <<< i))[k]? = some (if bits.getLsbD (i + k) then '1' else '0') := by
  induction left generalizing i k with
  | zero => omega
  | succ left ih =>
    have next : 1#64 <<< i <<< 1 = 1#64 <<< (i + 1) := (BitVec.shiftLeft_add ..).symm
    cases k with
    | zero => simp only [bitText,mask_bit,List.getElem?_cons_zero,Nat.add_zero]
    | succ k =>
      rw [bitText,List.getElem?_cons_succ,next,ih (i + 1) k (by omega),Nat.add_right_comm,Nat.add_assoc]

/-! The words. -/

private theorem append_bits (lo hi : BitVec 16) (k : Nat) : (hi ++ lo).getLsbD k = received lo hi k := by
  rw [received,BitVec.getLsbD_append]

private theorem append_toNat (lo hi : BitVec 16) : (hi ++ lo).toNat = lo.toNat + 65536 * hi.toNat := by
  rw [BitVec.toNat_append,← Nat.shiftLeft_add_eq_or_of_lt lo.isLt,Nat.shiftLeft_eq]
  omega

private theorem ones_bit (k : Nat) (below : k < 16) : (0xFFFF : BitVec 16).getLsbD k = true := by
  rw [show (0xFFFF : BitVec 16) = BitVec.allOnes 16 from rfl,BitVec.getLsbD_allOnes]
  exact decide_eq_true below

/-- The sign of the low word is the only thing in the way. -/
private theorem signs_iff (lo hi : BitVec 16) :
    lo.signExtend 32 ||| (hi.signExtend 32 <<< 16) = hi ++ lo ↔ lo.msb = false ∨ hi = 0xFFFF := by
  have bit (k : Nat) (wide : k < 32) : (lo.signExtend 32 ||| (hi.signExtend 32 <<< 16)).getLsbD k =
      if k < 16 then lo.getLsbD k else (lo.msb || hi.getLsbD (k - 16)) := by
    rw [BitVec.getLsbD_or,BitVec.getLsbD_shiftLeft,BitVec.getLsbD_signExtend,BitVec.getLsbD_signExtend]
    by_cases low : k < 16
    · simp [low,wide]
    · have high : k - 16 < 16 := by omega
      have small : k - 16 < 32 := by omega
      simp [low,wide,high,small]
  constructor
  · intro same
    cases negative : lo.msb with
    | false => exact Or.inl rfl
    | true =>
      refine Or.inr (BitVec.eq_of_getLsbD_eq fun k below => ?_)
      have carried := bit (k + 16) (by omega)
      rw [same,append_bits,received,if_neg (by omega),if_neg (by omega),negative,Nat.add_sub_cancel,Bool.true_or] at carried
      rw [carried]
      exact (ones_bit k below).symm
  · intro condition
    refine BitVec.eq_of_getLsbD_eq fun k wide => ?_
    rw [bit k wide,append_bits,received]
    by_cases low : k < 16
    · rw [if_pos low,if_pos low]
    · rw [if_neg low,if_neg low]
      rcases condition with positive | ones
      · rw [positive,Bool.false_or]
      · rw [ones,ones_bit (k - 16) (by omega),Bool.or_true]

private theorem bitForBit_iff (lo hi : BitVec 16) (pp : PackInfo)
    (held : pp.balancebits = lo.signExtend 32 ||| (hi.signExtend 32 <<< 16)) :
    BitForBit lo hi pp ↔ lo.msb = false ∨ hi = 0xFFFF := by
  rw [← signs_iff,← held]
  constructor
  · intro same
    exact BitVec.eq_of_toNat_eq (same.value.trans (append_toNat lo hi).symm)
  · intro same
    have bits (k : Nat) : pp.balancebits.getLsbD k = received lo hi k := by rw [same,append_bits]
    refine ⟨by rw [same,append_toNat],bits,fun k inside => ?_⟩
    have text := bitText_at pp.balancebits pp.cells.toNat 0 k (by omega)
    rw [Nat.zero_add,bits k] at text
    exact text

/-! The reads keep what they decode first. -/

def Holds (bits : BitVec 32) (pp : PackInfo) : Prop := pp.balancebits = bits

private theorem putTemp_holds (bits : BitVec 32) (i : Nat) (v : ℚ) (pp t : PackInfo) (held : Holds bits pp)
    (written : putTemp i v pp = some t) : Holds bits t := by
  obtain ⟨temps,_,rfl⟩ := Option.map_eq_some_iff.mp written
  exact held

private theorem putCell_holds (bits : BitVec 32) (i : Nat) (v : ℚ) (pp t : PackInfo) (held : Holds bits pp)
    (written : putCell i v pp = some t) : Holds bits t := by
  obtain ⟨cellvolt,_,rfl⟩ := Option.map_eq_some_iff.mp written
  exact held

section Loops

variable (bits : BitVec 32) (write : Nat → ℚ → PackInfo → Option PackInfo) (decode : BitVec 16 → ℚ)
  (kept : ∀ i v pp t, Holds bits pp → write i v pp = some t → Holds bits t)

include kept

theorem serialWords_holds (data : Vector Byte 128) (base left i : Nat) (pp t : PackInfo) (held : Holds bits pp)
    (done : serialWords write decode data base left i pp = some t) : Holds bits t := by
  induction left generalizing i pp with
  | zero =>
    obtain rfl := Option.some.inj done
    exact held
  | succ left ih =>
    simp only [serialWords,Option.bind_eq_bind,Option.bind_eq_some_iff] at done
    obtain ⟨hi,_,lo,_,next,written,rest⟩ := done
    exact ih (i + 1) next (kept i _ pp next held written) rest

private theorem frameWords_preserves (count : PackInfo → Int) (ws : List (BitVec 16)) (i : Nat) :
    Preserves (Holds bits) (frameWords write decode count ws i) := by
  induction ws generalizing i with
  | nil => exact preserves_pure false
  | cons w ws ih =>
    refine preserves_bind (preserves_update (kept i (decode w))) fun _ => preserves_bind (preserves_gets count) fun n => ?_
    split
    · exact preserves_pure true
    · exact ih (i + 1)

private theorem canWords_preserves (bus : Replies) (count : PackInfo → Int) (frames id i : Nat) :
    Preserves (Holds bits) (canWords bus write decode count frames id i) := by
  induction frames generalizing id i with
  | zero => exact preserves_pure ()
  | succ frames ih =>
    refine preserves_bind (preserves_orReturn 1 _) fun data => ?_
    refine preserves_bind (frameWords_preserves bits write decode kept count (words data) i) fun stop => ?_
    split
    · exact preserves_pure ()
    · exact ih (id + 1) (i + 3)

end Loops

private theorem serial_holds (s : JbdSession) (replies : Replies) (lo hi : BitVec 16) (pp t : PackInfo) (code : Int)
    (brought : balanceWords false replies = some (lo,hi)) (returned : returns (jbdGetPack s replies) pp = some (code,t)) :
    Holds (lo.signExtend 32 ||| (hi.signExtend 32 <<< 16)) t := by
  obtain ⟨reply,answered,same⟩ := Option.map_eq_some_iff.mp brought
  obtain ⟨rfl,rfl⟩ := Prod.mk.inj same
  rw [returns,jbdGetPack,answered,bind_some] at returned
  cases held : filled 128 0 reply with
  | none =>
    rw [held] at returned
    contradiction
  | some data =>
    rw [held,bind_index,bind_modify] at returned
    have reads (k : Nat) (inside : k < 128) : data[k] = reply[k]?.getD 0 := filled_getElem held k inside
    have decoded : Holds _ (hwinfo s data pp) := rfl
    have bits : (hwinfo s data pp).balancebits = (getshort data[12] data[13]).signExtend 32 |||
        ((getshort data[14] data[15]).signExtend 32 <<< 16) := by
      simp [hwinfo,setPackState,balance]
    rw [bits,reads,reads,reads,reads] at decoded
    refine preserves_returns (m := do update (serialTemps data); cellinfo replies) ?_ decoded returned
    refine preserves_bind (preserves_update fun pp t => ?_) fun _ => preserves_bind (preserves_orReturn 1 _) fun reply => ?_
    · exact serialWords_holds _ putTemp ctemp (putTemp_holds _) data 23 _ 0 pp t
    refine preserves_bind (preserves_index _) fun data => preserves_update fun pp t => ?_
    exact serialWords_holds _ putCell millivolts (putCell_holds _) data 0 _ 0 pp t

private theorem can_holds (s : JbdSession) (bus : Replies) (lo hi : BitVec 16) (pp t : PackInfo) (code : Int)
    (brought : balanceWords true bus = some (lo,hi)) (returned : returns (jbdCanGetPack s bus) pp = some (code,t)) :
    Holds (lo.signExtend 32 ||| (hi.signExtend 32 <<< 16)) t := by
  obtain ⟨data,answered,same⟩ := Option.map_eq_some_iff.mp brought
  obtain ⟨rfl,rfl⟩ := Prod.mk.inj same
  rw [returns,jbdCanGetPack,answered,bind_some,bind_modify] at returned
  have decoded : Holds _ (balance (getshort data[0] data[1]) (getshort data[2] data[3]) pp) := rfl
  refine preserves_returns (m := do
    let data ← orReturn 1 (jbdCanGetCrc bus 0x103)
    modify (canState s (getshort data[0] data[1]))
    let data ← orReturn 1 (jbdCanGetCrc bus 0x104)
    modify fun pp => { pp with cells := data[0].toNat, ntemps := data[1].toNat }
    canTemps bus
    canCells bus) ?_ decoded returned
  refine preserves_bind (preserves_orReturn 1 _) fun data => preserves_bind (preserves_modify fun pp held => ?_) fun _ => ?_
  · simpa [Holds,canState] using held
  refine preserves_bind (preserves_orReturn 1 _) fun data => preserves_bind (preserves_modify fun pp held => held) fun _ => ?_
  refine preserves_bind (canWords_preserves _ putTemp ctemp (putTemp_holds _) bus PackInfo.ntemps 2 0x105 0) fun _ => ?_
  exact canWords_preserves _ putCell millivolts (putCell_holds _) bus PackInfo.cells 10 0x107 0

private theorem jbdRead_holds (s : JbdSession) (can : Bool) (replies : Replies) (lo hi : BitVec 16) (pp t : PackInfo)
    (code : Int)
    (brought : balanceWords can replies = some (lo,hi)) (returned : returns (jbdRead s can replies) pp = some (code,t)) :
    Holds (lo.signExtend 32 ||| (hi.signExtend 32 <<< 16)) t := by
  cases can with
  | false => exact serial_holds s replies lo hi pp t code brought returned
  | true => exact can_holds s replies lo hi pp t code brought returned

/-- The bits are right exactly when the low word has no sign, or the high word only
ones. -/
theorem balancebits_iff (s : JbdSession) (can : Bool) (replies : Replies) (lo hi : BitVec 16) (pp t : PackInfo)
    (code : Int) (brought : balanceWords can replies = some (lo,hi))
    (returned : returns (jbdRead s can replies) pp = some (code,t)) :
    BitForBit lo hi t ↔ lo.msb = false ∨ hi = 0xFFFF :=
  bitForBit_iff lo hi t (jbdRead_holds s can replies lo hi pp t code brought returned)

def registers (lo hi : BitVec 16) : JbdAgree.Registers where
  voltage := 0
  current := 0
  remaining := 0
  nominal := 0
  cycles := 0
  date := 0
  balanceLow := lo
  balanceHigh := hi
  protection := 0
  version := 0
  percent := 0
  fetbits := 0
  temps := [2731]
  cells := List.replicate 16 3300
  probes := by decide
  strings := by decide

private theorem run_registers (lo hi : BitVec 16) : balanceWords true (JbdAgree.can (registers lo hi)) = some (lo,hi) ∧
    ∃ t, returns (jbdRead ⟨0⟩ true (JbdAgree.can (registers lo hi))) blankPack = some (0,t) := by
  obtain ⟨t,done,_⟩ := JbdAgree.can_decoded ⟨0⟩ (registers lo hi) blankPack
  refine ⟨?_,t,?_⟩
  · have answered := JbdAgree.jbdCanGetCrc_frame (JbdAgree.can (registers lo hi)) 0x102 lo hi 0 rfl
    have words := JbdAgree.words_frame lo hi 0
    simp only [Jbd.words,List.cons.injEq] at words
    have low : wordAt (padded (JbdAgree.frame lo hi 0)) 0 = lo := words.1
    have high : wordAt (padded (JbdAgree.frame lo hi 0)) 2 = hi := words.2.1
    rw [balanceWords,if_pos rfl,answered,Option.map_some,low,high]
  · rw [jbdRead,if_pos rfl,returns,done]
    rfl

theorem balancebits_all : ∃ t,
    returns (jbdRead ⟨0⟩ true (JbdAgree.can (registers 0xFFFF 0xFFFF))) blankPack = some (0,t) ∧
      (BitForBit 0xFFFF 0xFFFF t ↔ (0xFFFF : BitVec 16).msb = false ∨ (0xFFFF : BitVec 16) = 0xFFFF) := by
  obtain ⟨brought,t,returned⟩ := run_registers 0xFFFF 0xFFFF
  exact ⟨t,returned,balancebits_iff ⟨0⟩ true _ 0xFFFF 0xFFFF blankPack t 0 brought returned⟩

/-- The sixteenth cell alone is balancing. -/
theorem sixteenth_cell : ¬ ∀ (s : JbdSession) (can : Bool) (replies : Replies) (lo hi : BitVec 16) (pp t : PackInfo)
    (code : Int), balanceWords can replies = some (lo,hi) → returns (jbdRead s can replies) pp = some (code,t) →
      BitForBit lo hi t := by
  intro claimed
  obtain ⟨brought,t,returned⟩ := run_registers 0x8000 0
  have decoded := claimed ⟨0⟩ true _ 0x8000 0 blankPack t 0 brought returned
  have condition := (bitForBit_iff _ _ t (jbdRead_holds ⟨0⟩ true _ _ _ blankPack t 0 brought returned)).mp decoded
  exact absurd condition (by decide)

end Mybmm.JbdBalance
