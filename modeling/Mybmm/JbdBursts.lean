import Mybmm.Support.Checksum
import Mybmm.Jbd

/-! What `jbd_can_crc` tells of a frame whose payload was damaged on the way: errors that
lie within sixteen bits change it. -/
namespace Mybmm.JbdBursts
open Arrays Cellmon Jbd Checksum

/-- A frame is six bytes and their checksum. -/
def packet (payload : Vector Byte 6) (hi lo : Byte) : Frame := payload ++ #v[hi,lo]

def damaged (payload e : Vector Byte 6) : Vector Byte 6 := payload.zipWith (· ^^^ ·) e

/-- The bits that are set lie within sixteen places in a row; the places are counted byte
by byte, from the least significant bit of each. -/
def Burst (start : Nat) (e : Vector Byte 6) : Prop :=
  ∀ (i : Fin 6) (j : Fin 8), (e.get i).getLsbD j = true → start ≤ 8 * i.val + j.val ∧ 8 * i.val + j.val < start + 16

private theorem crcBit_shift : crcBit = shift 0xa001 := by
  funext crc
  have low : crc &&& 1 = (BitVec.ofBool (crc.getLsbD 0)).setWidth 16 := BitVec.and_one_eq_setWidth_ofBool_getLsbD
  rw [crcBit,shift,low]
  cases crc.getLsbD 0 <;> rfl

private theorem jbdCanCrc_packet (payload : Vector Byte 6) (hi lo : Byte) :
    jbdCanCrc (packet payload hi lo) = checksum 0xa001 0xFFFF payload.toList := by
  have six : ((packet payload hi lo).toList.take 6) = payload.toList := by
    rw [packet,Vector.toList_append,List.take_left' payload.length_toList]
  rw [jbdCanCrc,six,crcBit_shift,checksum]

private theorem burst_places {e : Vector Byte 6} {start : Nat} (burst : Burst start e) (i j : Nat) (b : Byte)
    (held : e.toList[i]? = some b) (on : b.getLsbD j = true) : start ≤ 8 * i + j ∧ 8 * i + j < start + 16 := by
  obtain ⟨inside,rfl⟩ := List.getElem?_eq_some_iff.mp held
  rw [Vector.length_toList] at inside
  rw [Vector.getElem_toList] at on
  exact burst ⟨i,inside⟩ ⟨j,BitVec.lt_of_getLsbD on⟩ on

private theorem checksum_burst (payload : Vector Byte 6) {e : Vector Byte 6} (errors : e ≠ Vector.replicate 6 0)
    {start : Nat}
    (burst : Burst start e) :
    checksum (0xa001 : BitVec 16) 0xFFFF (damaged payload e).toList ≠ checksum 0xa001 0xFFFF payload.toList := by
  have wrong : ∃ b ∈ e.toList, b ≠ 0 := by
    by_contra none
    push Not at none
    refine errors (Vector.toList_inj.mp ?_)
    rw [Vector.toList_replicate]
    exact List.eq_replicate_iff.mpr ⟨e.length_toList,none⟩
  obtain ⟨b,member,nonzero⟩ := wrong
  rw [damaged,Vector.toList_zipWith]
  exact burst_changes rfl (by decide) _ _ _ (by rw [Vector.length_toList,Vector.length_toList]) member nonzero start
    (burst_places burst)

/-- A burst changes the checksum of every payload. -/
theorem burst_detected (payload e : Vector Byte 6) (errors : e ≠ Vector.replicate 6 0) (start : Nat)
    (burst : Burst start e) (hi lo hi' lo' : Byte) :
    jbdCanCrc (packet (damaged payload e) hi' lo') ≠ jbdCanCrc (packet payload hi lo) := by
  rw [jbdCanCrc_packet,jbdCanCrc_packet]
  exact checksum_burst payload errors burst

theorem burst_detected_sixteen : jbdCanCrc (packet (damaged #v[1,2,3,4,5,6] #v[0,0x80,0xFF,0x7F,0,0]) 0 0) ≠
    jbdCanCrc (packet #v[1,2,3,4,5,6] 0 0) :=
  burst_detected _ _ (by decide) 15 (by unfold Burst; decide) _ _ _ _

/-- A frame that was damaged so is taken only if the checksum it came with is zero, which
stands for none. -/
theorem burst_refused (payload e : Vector Byte 6) (errors : e ≠ Vector.replicate 6 0) (start : Nat)
    (burst : Burst start e) (hi lo : Byte) (sent : getshort hi lo = jbdCanCrc (packet payload hi lo)) :
    jbdCanVerify (packet (damaged payload e) hi lo) =
      if getshort hi lo = 0 then some (packet (damaged payload e) hi lo) else none := by
  have high : (packet (damaged payload e) hi lo)[6] = hi := Vector.getElem_append_right (by decide) (by decide)
  have low : (packet (damaged payload e) hi lo)[7] = lo := Vector.getElem_append_right (by decide) (by decide)
  have differ : ¬ getshort hi lo = jbdCanCrc (packet (damaged payload e) hi lo) := by
    rw [sent,jbdCanCrc_packet,jbdCanCrc_packet]
    exact (checksum_burst payload errors burst).symm
  rw [jbdCanVerify,high,low]
  simp only [differ,or_false]

end Mybmm.JbdBursts
