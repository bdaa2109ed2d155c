import Mybmm.CanData

/-! A frame that a CAN server hands out and the same frame on a bus of one's own:
the drivers deliver the second one only, since what the server's transport returns
is the data, and what they wait for is the frame. -/
namespace Mybmm.CanAgree
open Arrays Feed Routine Devserver Can CanData

/-- Both deliver, and the same: what the frame carries. -/
def Agree (frame : RawFrame) (remote direct : Answer) : Prop :=
  ∃ data, remote = .delivered data ∧ direct = .delivered data ∧
    data.take (canDlc frame) = (payload frame).take (canDlc frame)

/-- What si gets once its thread has read the frame from the bus. -/
def siDirect (bus : Int) (id : BitVec 32) (len : Nat) (s : SiSession) (held stale frame : RawFrame) : Answer :=
  siGetLocalCanData id len fun _ => siThread s (canRead bus anyId frameSize held stale [some frame])

def prehDirect (bus : Int) (id : BitVec 32) (s : PrehSession) (held stale frame : RawFrame) : Answer :=
  prehGetLocalCanData id fun _ => prehThread s (canRead bus anyId frameSize held stale [some frame])

/-! The bus: a frame of the driver's range arrives. -/

private theorem canRead_any (bus : Int) (attached : 0 ≤ bus) (held stale frame : RawFrame) (whole : frame.length = frameSize)
    (first : held.length = frameSize) (second : stale.length = frameSize) :
    canRead bus anyId frameSize held stale [some frame] = .returned frameSize frame [] := by
  have all : frame.take frameSize = frame := List.take_of_length_le (by omega)
  have laid (old : RawFrame) (same : old.length = frameSize) : overlay old frame = frame :=
    overlay_whole old frame (by omega)
  have loop : canLoop anyId stale [some frame] = some (frame,[]) := by
    simp only [canLoop,all,laid stale second]
    simp
  rw [canRead,if_neg (by omega),loop]
  simp only [copyOut,if_pos,Nat.min_self,all,laid held first]

private theorem frameData_toList (frame : RawFrame) (whole : frame.length = frameSize) :
    (frameData frame).toList = payload frame := by
  refine List.ext_getElem (by simp [payload,whole,frameSize]) fun i inside other => ?_
  have bound : 8 + i < frame.length := by
    simp only [payload,List.length_drop] at other
    omega
  simp [frameData,payload,byteAt,bound]

theorem siDirect_delivers (bus : Int) (attached : 0 ≤ bus) (s : SiSession) (held stale frame : RawFrame)
    (whole : frame.length = frameSize) (first : held.length = frameSize) (second : stale.length = frameSize)
    (low : 0x300 ≤ canId frame) (high : canId frame ≤ 0x30a) :
    siDirect bus (canId frame) 8 s held stale frame = .delivered (payload frame) := by
  obtain ⟨idx,position⟩ : ∃ idx, idx = (canId frame).toNat - 0x300 := ⟨_,rfl⟩
  have small : idx < 16 := by
    have := BitVec.le_def.mp high
    simp at this
    omega
  have inside : ¬ (canId frame < 0x300 ∨ 0x30a < canId frame) := by
    rw [not_or,BitVec.not_lt,BitVec.not_lt]
    exact ⟨low,high⟩
  have stored : siThread s (.returned frameSize frame ([] : Results)) =
      { messages := s.messages.set idx (frameData frame) small, bitmap := s.bitmap ||| (1 : BitVec 32) <<< idx } := by
    rw [siThread,if_neg (by omega),if_neg (by simp),if_neg inside]
    simp [← position,put,small]
  have marked : (s.bitmap ||| (1 : BitVec 32) <<< idx) &&& ((1 : BitVec 16) <<< idx).setWidth 32 ≠ 0 := by
    intro empty
    have bit := congrArg (fun v : BitVec 32 => v.getLsbD idx) empty
    have wide : idx < 32 := by omega
    simp [small,wide] at bit
  have defined : ¬ (canId frame < 0x300 ∨ 32 ≤ (canId frame).toNat - 0x300) := by
    rw [not_or,BitVec.not_lt,← position]
    exact ⟨low,by omega⟩
  have eight : (payload frame).length = 8 := by rw [payload,List.length_drop,whole]; rfl
  rw [siDirect,canRead_any bus attached held stale frame whole first second,stored,siGetLocalCanData,siLocal,
    if_neg defined]
  simp only [← position,if_neg marked]
  simp only [Vector.getElem?_set_self,frameData_toList frame whole]
  rw [List.take_of_length_le (by omega)]

theorem prehDirect_delivers (bus : Int) (attached : 0 ≤ bus) (s : PrehSession) (held stale frame : RawFrame)
    (whole : frame.length = frameSize) (first : held.length = frameSize) (second : stale.length = frameSize)
    (low : 0x100 ≤ canId frame) (high : canId frame ≤ 0x1FF) :
    prehDirect bus (canId frame) s held stale frame = .delivered (payload frame) := by
  obtain ⟨idx,position⟩ : ∃ idx, idx = (canId frame).toNat - 0x100 := ⟨_,rfl⟩
  have small : idx < 256 := by
    have := BitVec.le_def.mp high
    simp at this
    omega
  have word : idx / 32 < 8 := by omega
  have inside : ¬ (canId frame < 0x100 ∨ 0x1FF < canId frame) := by
    rw [not_or,BitVec.not_lt,BitVec.not_lt]
    exact ⟨low,high⟩
  have stored : prehThread s (.returned frameSize frame ([] : Results)) =
      { messages := s.messages.set idx (frameData frame) small
        bitmaps := s.bitmaps.set (idx / 32) (s.bitmaps[idx / 32] ||| (1 : BitVec 32) <<< (idx % 32)) word } := by
    rw [prehThread,if_neg (by omega),if_neg (by simp),if_neg inside]
    simp [← position,put,small,word]
  have marked : (s.bitmaps[idx / 32] ||| (1 : BitVec 32) <<< (idx % 32)) &&& (1 : BitVec 32) <<< (idx % 32) ≠ 0 := by
    intro empty
    have bit := congrArg (fun v : BitVec 32 => v.getLsbD (idx % 32)) empty
    have wide : idx % 32 < 32 := Nat.mod_lt idx (by decide)
    simp [wide] at bit
  rw [prehDirect,canRead_any bus attached held stale frame whole first second,stored,prehGetLocalCanData,prehLocal]
  simp only [if_neg (BitVec.not_lt.mpr low),← position,Vector.getElem?_set_self,if_neg marked,
    frameData_toList frame whole]

/-! The server gives the data of a frame where the drivers wait for the frame. -/

private theorem canIpRead_short (fd : Int) (id : BitVec 32) (one : id ≠ anyId) (buf : List Byte) (stale : RawFrame)
    (feed rest : Pieces Byte) (bytes : Int) (out : List Byte)
    (read : canIpRead fd id frameSize buf stale feed = .returned bytes out rest) : bytes ≤ 8 := by
  unfold canIpRead at read
  split_ifs at read with closed
  · cases read
    decide
  · cases result : value (devserverRecv true frameSize) (replyTo stale feed) with
    | none =>
      rw [result] at read
      contradiction
    | some reply =>
      rw [result] at read
      simp only at read
      split_ifs at read with failed
      · cases read
        decide
      · simp only [copyOut,if_neg one] at read
        split_ifs at read with fits
        · cases read
          omega

private theorem remote_failed (accept : Nat → RawFrame → Answer) (fd : Int) (id : BitVec 32) (one : id ≠ anyId)
    (stale : Nat → RawFrame) (retries k : Nat) (frame : RawFrame) (feed : Pieces Byte) (data : List Byte) :
    remote accept fd id stale retries k frame feed ≠ .delivered data := by
  induction retries generalizing k frame feed with
  | zero => simp [remote]
  | succ retries ih =>
    rw [remote]
    split
    · rename_i bytes out rest read
      have short := canIpRead_short fd id one frame (stale k) feed rest bytes out read
      have small : ¬ bytes = (frameSize : Int) := by
        simp only [frameSize]
        omega
      split_ifs with failed
      · simp
      · exact ih (k + 1) out rest
    · simp

/-! Nothing arrives both ways. -/

private theorem siLocal_any (len : Nat) (sessions : Nat → SiSession) :
    siGetLocalCanData anyId len sessions = .undefined := by
  rw [siGetLocalCanData,siLocal,if_pos (by decide)]

private theorem prehLocal_any (sessions : Nat → PrehSession) : prehGetLocalCanData anyId sessions = .undefined := by
  rw [prehGetLocalCanData,prehLocal]
  simp [anyId]

/-- Whatever the server sends, no driver gets from it what it gets from the bus. -/
theorem agree_never (fd bus : Int) (id : BitVec 32) (len : Nat) (si : SiSession) (preh : PrehSession)
    (held stale frame kept : RawFrame) (stack : Nat → RawFrame) (feed : Pieces Byte) :
    ¬ Agree frame (siGetRemoteCanData fd id len stack kept feed) (siDirect bus id len si held stale frame) ∧
      ¬ Agree frame (prehGetRemoteCanData fd id stack kept feed) (prehDirect bus id preh held stale frame) := by
  by_cases one : id = anyId
  · subst one
    constructor
    · rintro ⟨data,_,direct,_⟩
      rw [siDirect,siLocal_any] at direct
      contradiction
    · rintro ⟨data,_,direct,_⟩
      rw [prehDirect,prehLocal_any] at direct
      contradiction
  · constructor
    · rintro ⟨data,remote,_⟩
      exact remote_failed _ fd id one stack 5 0 kept feed data remote
    · rintro ⟨data,remote,_⟩
      exact remote_failed _ fd id one stack 5 0 kept feed data remote

def voltages : RawFrame := [0x05,0x03,0,0,4,0,0,0,0x10,0x02,0x20,0x01,0,0,0,0]

/-- The server hands the frame out at each try, and the thread has read it too. -/
theorem voltages_lost :
    siGetRemoteCanData 3 0x305 8 (fun _ => List.replicate 16 0) (List.replicate 16 0)
        (List.replicate 5 (some (packet 0 1 voltages))) = .failed ∧
      siDirect 3 0x305 8 ⟨0,Vector.replicate 16 (Vector.replicate 8 0)⟩ (List.replicate 16 0) (List.replicate 16 0)
        voltages = .delivered [0x10,0x02,0x20,0x01,0,0,0,0] := by
  decide +kernel

end Mybmm.CanAgree
