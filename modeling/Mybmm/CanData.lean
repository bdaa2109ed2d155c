import Mybmm.Can

/-! The frames that si.c and preh.c work on: kept by a thread that reads a bus of its
own, or asked of a CAN server, one read a frame. -/
namespace Mybmm.CanData
open Arrays Feed Routine Devserver Can

inductive Answer where
  | undefined
  | failed
  | delivered (data : List Byte)
deriving DecidableEq

def frameData (frame : RawFrame) : Vector Byte 8 := Vector.ofFn fun i => byteAt frame (8 + i)

/-! The threads, one read each. -/

structure SiSession where
  bitmap : BitVec 32
  messages : Vector (Vector Byte 8) 16

def siThread (s : SiSession) : Outcome Results → SiSession
  | .returned r frame _ =>
    if r < 0 then { s with bitmap := 0 }
    else if r ≠ frameSize then s
    else if canId frame < 0x300 ∨ 0x30a < canId frame then s
    else
      let idx := (canId frame).toNat - 0x300
      { messages := (put s.messages idx (frameData frame)).getD s.messages, bitmap := s.bitmap ||| (1 : BitVec 32) <<< idx }
  | _ => s

structure PrehSession where
  bitmaps : Vector (BitVec 32) 8
  messages : Vector (Vector Byte 8) 256

def prehThread (s : PrehSession) : Outcome Results → PrehSession
  | .returned r frame _ =>
    if r < 0 then { s with bitmaps := Vector.replicate 8 0 }
    else if r ≠ frameSize then s
    else if canId frame < 0x100 ∨ 0x1FF < canId frame then s
    else
      let idx := (canId frame).toNat - 0x100
      let bits := s.bitmaps[idx / 32]?.getD 0 ||| (1 : BitVec 32) <<< (idx % 32)
      { messages := (put s.messages idx (frameData frame)).getD s.messages
        bitmaps := (put s.bitmaps (idx / 32) bits).getD s.bitmaps }
  | _ => s

/-! What the threads have kept, `at` telling the session at each of the tries. A
shift or an index out of range has no meaning. -/

def siLocal (id : BitVec 32) (len : Nat) (sessions : Nat → SiSession) : (retries k : Nat) → Answer
  | 0, _ => .failed
  | retries + 1, k =>
    if id < 0x300 ∨ 32 ≤ id.toNat - 0x300 then .undefined else
    let idx := id.toNat - 0x300
    let mask := (1 : BitVec 16) <<< idx
    if (sessions k).bitmap &&& mask.setWidth 32 = 0 then siLocal id len sessions retries (k + 1) else
    match (sessions k).messages[idx]? with
    | none => .undefined
    | some data => .delivered (data.toList.take (min len 8))

def siGetLocalCanData (id : BitVec 32) (len : Nat) (sessions : Nat → SiSession) : Answer := siLocal id len sessions 5 0

def prehLocal (id : BitVec 32) (sessions : Nat → PrehSession) : (retries k : Nat) → Answer
  | 0, _ => .failed
  | retries + 1, k =>
    let idx := id.toNat - 0x100
    let mask := (1 : BitVec 32) <<< (idx % 32)
    if id < 0x100 then .undefined else
    match (sessions k).bitmaps[idx / 32]?, (sessions k).messages[idx]? with
    | some bits, some data => if bits &&& mask = 0 then prehLocal id sessions retries (k + 1) else .delivered data.toList
    | _, _ => .undefined

def prehGetLocalCanData (id : BitVec 32) (sessions : Nat → PrehSession) : Answer := prehLocal id sessions 4 0

/-! What the server is asked for. Each read has a frame of its own on the stack. -/

/-- The tries for a frame; `accept` makes something of it, with so many tries left. -/
def remote (accept : Nat → RawFrame → Answer) (fd : Int) (id : BitVec 32) (stale : Nat → RawFrame) :
    (retries k : Nat) → RawFrame → Pieces Byte → Answer
  | 0, _, _, _ => .failed
  | retries + 1, k, frame, feed =>
    match canIpRead fd id frameSize frame (stale k) feed with
    | .returned bytes frame rest =>
      if bytes < 0 then .failed
      else if bytes = frameSize then accept retries frame
      else remote accept fd id stale retries (k + 1) frame rest
    | _ => .undefined

/-- The last try counts as a failure, whatever it brought. -/
def siAccept (len retries : Nat) (frame : RawFrame) : Answer :=
  if 8 < canDlc frame ∨ len < canDlc frame then .undefined
  else if 0 < retries then .delivered (overlay (List.replicate len 0) ((payload frame).take (canDlc frame)))
  else .failed

def siGetRemoteCanData (fd : Int) (id : BitVec 32) (len : Nat) (stale : Nat → RawFrame) (frame : RawFrame)
    (feed : Pieces Byte) : Answer := remote (siAccept len) fd id stale 5 0 frame feed

def prehGetRemoteCanData (fd : Int) (id : BitVec 32) (stale : Nat → RawFrame) (frame : RawFrame) (feed : Pieces Byte) :
    Answer := remote (fun _ frame => .delivered (frameData frame).toList) fd id stale 5 0 frame feed

end Mybmm.CanData
