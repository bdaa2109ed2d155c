import Mybmm.JbdAgree

/-! The packets of the serial line as byte strings: which ones `jbd_verify` takes,
and which one ends the tries of a request. -/
namespace Mybmm.JbdPackets
open Arrays Jbd JbdAgree

/-- A packet to the byte. Neither the register nor the status is any one value. -/
def reply (reg status : Byte) (data : List Byte) : List Byte :=
  0xDD :: reg :: status :: BitVec.ofNat 8 data.length ::
    (data ++ bytes (jbdCrc (status :: BitVec.ofNat 8 data.length :: data)) ++ [0x77])

def IsPacket (buf : List Byte) : Prop := ∃ reg status data, data.length ≤ 255 ∧ buf = reply reg status data

theorem reply_length (reg status : Byte) (data : List Byte) : (reply reg status data).length = data.length + 7 := by
  simp [reply,bytes]

private theorem getshort_getLsbD (hi lo : Byte) (i : Nat) :
    (getshort hi lo).getLsbD i = if i < 8 then lo.getLsbD i else hi.getLsbD (i - 8) := BitVec.getLsbD_append

theorem bytes_getshort (hi lo : Byte) : bytes (getshort hi lo) = [hi,lo] := by
  simp only [bytes,List.cons.injEq,and_true]
  constructor
  · ext i bound
    simp [getshort_getLsbD,BitVec.getLsbD_eq_getElem bound]
  · ext i bound
    simp [getshort_getLsbD,bound]

theorem toNat_length {data : List Byte} (fits : data.length ≤ 255) : (BitVec.ofNat 8 data.length).toNat = data.length := by
  rw [BitVec.toNat_ofNat]
  omega

theorem jbdVerify_reply (reg status : Byte) (data : List Byte) (fits : data.length ≤ 255) :
    jbdVerify (reply reg status data) = some data := by
  simp [jbdVerify,reply,bytes,toNat_length fits]

theorem jbdVerify_some {buf data : List Byte} (taken : jbdVerify buf = some data) :
    data.length ≤ 255 ∧ ∃ reg status, buf = reply reg status data := by
  unfold jbdVerify at taken
  split at taken
  · rename_i start reg status length rest
    dsimp only at taken
    split at taken
    · rename_i hi lo stop ends
      split at taken
      · rename_i checked
        obtain ⟨begins,summed,stops⟩ := checked
        have data' : rest.take length.toNat = data := Option.some.inj taken
        have whole : rest = data ++ [hi,lo,stop] := by rw [← data',← ends,List.take_append_drop]
        have count : length.toNat = data.length := by
          have dropped := congrArg List.length ends
          simp only [whole,List.length_drop,List.length_append,List.length_cons,List.length_nil] at dropped
          omega
        have byte : length = BitVec.ofNat 8 data.length := by rw [← count,BitVec.ofNat_toNat,BitVec.setWidth_eq]
        have fits : data.length ≤ 255 := by
          have bound := length.isLt
          omega
        refine ⟨fits,reg,status,?_⟩
        rw [data'] at summed
        rw [reply,← byte,summed,bytes_getshort,whole,begins,stops,List.append_assoc]
        rfl
      · contradiction
    · contradiction
  · contradiction

/-- `jbd_verify` takes the packets, of any register and any status. -/
theorem jbdVerify_isSome_iff (buf : List Byte) : (jbdVerify buf).isSome ↔ IsPacket buf := by
  constructor
  · intro taken
    obtain ⟨data,taken⟩ := Option.isSome_iff_exists.mp taken
    obtain ⟨fits,reg,status,same⟩ := jbdVerify_some taken
    exact ⟨reg,status,data,fits,same⟩
  · rintro ⟨reg,status,data,fits,rfl⟩
    rw [jbdVerify_reply reg status data fits]
    rfl

/-! The tries. -/

/-- The answer that ends the tries is the first that is accepted, if none fails
before it. -/
theorem attempt_eq_some_iff {α : Type} (accept : List Byte → Option α) (answer : Nat → Option (List Byte))
    (left k : Nat) (a : α) :
    attempt accept answer left k = some a ↔
      ∃ j < left, (∃ bytes, answer (k + j) = some bytes ∧ accept bytes = some a) ∧
        ∀ i < j, ∃ bytes, answer (k + i) = some bytes ∧ accept bytes = none := by
  induction left generalizing k with
  | zero => simp [attempt]
  | succ left ih =>
    have shift (j : Nat) : k + 1 + j = k + (j + 1) := by omega
    simp only [attempt]
    cases brought : answer k with
    | none =>
      simp only [reduceCtorEq,false_iff]
      rintro ⟨j,_,⟨bytes,here,_⟩,before⟩
      cases j with
      | zero => simp [brought] at here
      | succ j =>
        obtain ⟨bytes,first,_⟩ := before 0 (by omega)
        simp [brought] at first
    | some bytes =>
      dsimp only
      cases taken : accept bytes with
      | some b =>
        constructor
        · intro same
          exact ⟨0,by omega,⟨bytes,brought,taken.trans same⟩,fun i none => absurd none (by omega)⟩
        · rintro ⟨j,_,⟨other,here,accepted⟩,before⟩
          cases j with
          | zero =>
            obtain rfl : bytes = other := Option.some.inj (brought.symm.trans here)
            exact taken.symm.trans accepted
          | succ j =>
            obtain ⟨other,first,refused⟩ := before 0 (by omega)
            obtain rfl : bytes = other := Option.some.inj (brought.symm.trans first)
            simp [taken] at refused
      | none =>
        rw [ih]
        constructor
        · rintro ⟨j,below,⟨other,here,accepted⟩,before⟩
          refine ⟨j + 1,by omega,⟨other,shift j ▸ here,accepted⟩,fun i earlier => ?_⟩
          cases i with
          | zero => exact ⟨bytes,brought,taken⟩
          | succ i => exact shift i ▸ before i (by omega)
        · rintro ⟨j,below,⟨other,here,accepted⟩,before⟩
          cases j with
          | zero =>
            obtain rfl : bytes = other := Option.some.inj (brought.symm.trans here)
            simp [taken] at accepted
          | succ j =>
            refine ⟨j,by omega,⟨other,(shift j).symm ▸ here,accepted⟩,fun i earlier => ?_⟩
            exact (shift i).symm ▸ before (i + 1) (by omega)

/-- The first packet that a request's answers bring, in its three tries and before
the transport fails. Of a longer answer the buffer takes 256 bytes. -/
def FirstPacket (answer : Nat → Option (List Byte)) (reg status : Byte) (data : List Byte) : Prop :=
  ∃ k < 3, (∃ bytes, answer k = some bytes ∧ bytes.take 256 = reply reg status data) ∧
    ∀ j < k, ∃ bytes, answer j = some bytes ∧ ¬IsPacket (bytes.take 256)

theorem FirstPacket.fits {answer : Nat → Option (List Byte)} {reg status : Byte} {data : List Byte}
    (first : FirstPacket answer reg status data) : data.length ≤ 249 := by
  obtain ⟨_,_,⟨bytes,_,same⟩,_⟩ := first
  have length := congrArg List.length same
  rw [reply_length,List.length_take] at length
  omega

theorem jbdVerify_eq_none_iff (buf : List Byte) : jbdVerify buf = none ↔ ¬IsPacket buf := by
  rw [← jbdVerify_isSome_iff,Option.not_isSome_iff_eq_none]

theorem jbdRw_eq_some_iff (replies : Replies) (request : Nat) (data : List Byte) :
    jbdRw replies request = some data ↔ ∃ reg status, FirstPacket (replies request) reg status data := by
  rw [jbdRw,attempt_eq_some_iff]
  simp only [Nat.zero_add,jbdVerify_eq_none_iff]
  constructor
  · rintro ⟨k,below,⟨bytes,here,taken⟩,before⟩
    obtain ⟨_,reg,status,same⟩ := jbdVerify_some taken
    exact ⟨reg,status,k,below,⟨bytes,here,same⟩,before⟩
  · rintro ⟨reg,status,first⟩
    have fits := first.fits
    obtain ⟨k,below,⟨bytes,here,same⟩,before⟩ := first
    refine ⟨k,below,⟨bytes,here,?_⟩,before⟩
    rw [same]
    exact jbdVerify_reply reg status data (by omega)

end Mybmm.JbdPackets
