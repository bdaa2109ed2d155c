import Mybmm.Can
import Mybmm.Streams

/-! can.c and can_ip.c: opening, writing and closing. One gives its descriptor back
when a later call fails, the other keeps it. -/
namespace Mybmm.CanSessions
open Arrays Feed Routine Sessions Streams Devserver Can

def frameOf (id : BitVec 32) (data : List Byte) : RawFrame :=
  [id.extractLsb' 0 8,id.extractLsb' 8 8,id.extractLsb' 16 8,id.extractLsb' 24 8,BitVec.ofNat 8 data.length,0,0,0] ++
    data ++ List.replicate (8 - data.length) 0

/-! can.c. -/

/-- `f` tells whether there is a filter. -/
structure CanSession where
  fd : Int
  interface : CString.Text
  bitrate : BitVec 32
  f : Bool

/-- What the calls bring that set up an interface: failures, or else for `getFlags`
whether it is up, and for `canGetBittiming` its bitrate. -/
structure Link where
  socket : Int
  getFlags : Option Bool
  setFlags : Bool
  canSetBitrate : Bool
  canGetBittiming : Option (BitVec 32)
  getIndex : Bool
  bind : Bool
  setsockopt : Bool

/-- What has to succeed once there is a socket. Bringing the interface up at the end
may fail unseen. -/
def canSetUp (s : CanSession) (link : Link) : Option Unit := do
  let up ← link.getFlags
  if !up then
    guard link.canSetBitrate
  else
    let bitrate ← link.canGetBittiming
    if bitrate ≠ s.bitrate then
      guard link.setFlags
      guard link.canSetBitrate
  guard link.getIndex
  guard link.bind
  if s.f then
    guard link.setsockopt

def canOpen (s : CanSession) (link : Link) : Reply CanSession Int :=
  if 0 ≤ s.fd then ⟨0,s,[]⟩
  else if link.socket < 0 then ⟨1,{ s with fd := link.socket },[]⟩
  else match canSetUp s link with
    | some _ => ⟨0,{ s with fd := link.socket },[.acquired link.socket]⟩
    | none => ⟨1,{ s with fd := -1 },[.acquired link.socket,.released link.socket]⟩

def canWrite (s : CanSession) (id : BitVec 32) (buf : List Byte) (write : RawFrame → Int) : Int :=
  if s.fd < 0 then -1
  else if write (frameOf id (buf.take 8)) < 0 then -1 else min buf.length 8

def canClose (s : CanSession) : Reply CanSession Int :=
  if 0 ≤ s.fd then ⟨0,{ s with fd := -1 },[.released s.fd]⟩ else ⟨0,s,[]⟩

/-! can_ip.c. -/

structure CanIpSession where
  fd : Int
  target : CString.Text
  port : Int
  interface : CString.Text
  unit : Byte

/-- What the network makes of an attempt, and what it brings then. -/
structure Server where
  socket : Int
  gethostbyname : CString.Text → Option CString.Text
  connect : CString.Text → Int → Bool
  setsockopt : Bool
  feed : Pieces Byte

def canIpOpen (s : CanIpSession) (server : Server) : Option (Reply CanIpSession Int) :=
  if 0 ≤ s.fd then some ⟨0,s,[]⟩
  else if server.socket < 0 then some ⟨1,{ s with fd := server.socket },[]⟩
  else (peer server.gethostbyname s.target).bind fun address =>
    let s := { s with fd := server.socket }
    if ¬ server.connect address s.port then some ⟨1,s,[.acquired s.fd]⟩
    else if ¬ server.setsockopt then some ⟨1,s,[.acquired s.fd]⟩
    -- The reply is waited for whether the request went out or not; its unit is kept.
    else (value (devserverRecv false 0) ⟨server.feed,0,s.unit,[]⟩).map fun
      | (bytes,conn) => ⟨if bytes < 0 then -1 else 0,{ s with unit := conn.unit },[.acquired s.fd]⟩

def canserverWrite : Byte := 4

def canserverClose : Byte := 5

/-- `devserver_request` without a buffer; the length of what it sends is zero. -/
def devserverRequest (opcode unit : Byte) (write : List Byte → Int) (feed : Pieces Byte) : Option Int :=
  if write (packet opcode unit []) < 0 then some (-1)
  else (value (devserverRecv false 0) ⟨feed,0,0,[]⟩).map fun
    | (bytes,conn) => if bytes < 0 then -1 else if conn.opcode ≠ 0 then 0 else bytes

def canIpWrite (s : CanIpSession) (id : BitVec 32) (buf : List Byte) (write : List Byte → Int) (feed : Pieces Byte) :
    Option Int :=
  if s.fd < 0 then some (-1)
  else if write (packet canserverWrite s.unit (frameOf id (buf.take 8))) < 0 then some (-1)
  else (value (devserverRecv false 0) ⟨feed,0,0,[]⟩).map fun (bytes,_) => if bytes < 0 then -1 else bytes

def canIpClose (s : CanIpSession) (write : List Byte → Int) (feed : Pieces Byte) : Option (Reply CanIpSession Int) :=
  if 0 ≤ s.fd then
    (devserverRequest canserverClose s.unit write feed).map fun _ => ⟨0,{ s with fd := -1 },[.released s.fd]⟩
  else some ⟨0,s,[]⟩

end Mybmm.CanSessions
