import Mybmm.Devserver

/-! can.c and can_ip.c: reading a frame from a CAN socket, and from a CAN server by
way of packets. Both take a wanted identifier, or 0xFFFF for any, and end in the
same copy. -/
namespace Mybmm.Can
open Arrays Feed Routine Devserver

/-- The bytes of a `struct can_frame`, 16 of them: the identifier, the length, three
bytes of padding and the data. -/
abbrev RawFrame := List Byte

def frameSize : Nat := 16

def byteAt (frame : RawFrame) (i : Nat) : Byte := frame[i]?.getD 0

def canId (frame : RawFrame) : BitVec 32 := byteAt frame 3 ++ byteAt frame 2 ++ byteAt frame 1 ++ byteAt frame 0

def canDlc (frame : RawFrame) : Nat := (byteAt frame 4).toNat

def payload (frame : RawFrame) : List Byte := frame.drop 8

def anyId : BitVec 32 := 0xFFFF

/-- A read lays what it brings over what was there. -/
def overlay (old new : List Byte) : List Byte := new ++ old.drop new.length

/-- What both reads end in: how many bytes go to the buffer, and the buffer then. The
copy of more than the data of the frame has no meaning. -/
def copyOut (id : BitVec 32) (frame : RawFrame) (buflen : Nat) (buf : List Byte) : Option (Nat × List Byte) :=
  if id = anyId then some (min buflen frameSize,overlay buf (frame.take (min buflen frameSize)))
  else
    let len := min buflen (canDlc frame)
    if len ≤ 8 then some (len,overlay buf ((payload frame).take len)) else none

/-! The socket. -/

/-- What the calls of `read` bring: a failure, or some bytes. -/
abbrev Results := List (Option (List Byte))

/-- The frame with which the loop is left, and the results behind; `none` when they
do not get it there. A short result is tested for the identifier too, and a failure
leaves the loop with the frame as it is. -/
def canLoop (id : BitVec 32) : RawFrame → Results → Option (RawFrame × Results)
  | _, [] => none
  | frame, none :: rest => some (frame,rest)
  | frame, some bytes :: rest =>
    let frame := overlay frame (bytes.take frameSize)
    if id ≠ anyId ∧ canId frame ≠ id then canLoop id frame rest else some (frame,rest)

/-- What a caller sees of a read, and what it leaves to the next. -/
inductive Outcome (ρ : Type) where
  | blocked
  | undefined
  | returned (code : Int) (buf : List Byte) (rest : ρ)

/-- `can_read`; the frame on its stack holds something to begin with. -/
def canRead (fd : Int) (id : BitVec 32) (buflen : Nat) (buf : List Byte) (stale : RawFrame) (results : Results) :
    Outcome Results :=
  if fd < 0 then .returned (-1) buf results else
  match canLoop id stale results with
  | none => .blocked
  | some (frame,rest) =>
    match copyOut id frame buflen buf with
    | none => .undefined
    | some (len,buf) => .returned len buf rest

/-! The server. -/

/-- The connection at the read of the reply, `frame` being what is on the stack. -/
def replyTo (stale : RawFrame) (feed : Pieces Byte) : Conn := ⟨feed,0,0,stale⟩

/-- `can_ip_read`; whatever becomes of the request, the reply is waited for. -/
def canIpRead (fd : Int) (id : BitVec 32) (buflen : Nat) (buf : List Byte) (stale : RawFrame) (feed : Pieces Byte) :
    Outcome (Pieces Byte) :=
  if fd < 0 then .returned (-1) buf feed else
  match value (devserverRecv true frameSize) (replyTo stale feed) with
  | none => .undefined
  | some (bytes,conn) =>
    if bytes < 0 then .returned (-1) buf conn.feed else
    match copyOut id conn.data buflen buf with
    | none => .undefined
    | some (len,buf) => .returned len buf conn.feed

@[simp] theorem overlay_length (old new : List Byte) (fits : new.length ≤ old.length) :
    (overlay old new).length = old.length := by
  rw [overlay,List.length_append,List.length_drop]
  omega

theorem overlay_whole (old new : List Byte) (covers : old.length ≤ new.length) : overlay old new = new := by
  rw [overlay,List.drop_of_length_le covers,List.append_nil]

end Mybmm.Can
