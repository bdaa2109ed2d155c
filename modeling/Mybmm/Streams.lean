import Mybmm.Support.Arrays
import Mybmm.Support.Libc
import Mybmm.Support.Sessions

/-! ip.c and serial.c: sessions on a byte stream. Opening goes to the network or to
a device, reading polls until the buffer is full or nothing comes. -/
namespace Mybmm.Streams
open Arrays CString Libc Sessions

def targetLen : Nat := 32

def holding (fd : Int) : Option Int := if fd < 0 then none else some fd

/-! Names of hosts. -/

def isIpFrom : (dots digits : Nat) → Text → Bool
  | dots, _, [] => dots = 4
  | dots, digits, c :: rest =>
    if c = '.' then
      if digits = 0 then false
      else if 4 < dots + 1 then false
      else isIpFrom (dots + 1) 0 rest
    else if isdigit c then
      if 3 < digits + 1 then false else isIpFrom dots (digits + 1) rest
    else isIpFrom dots digits rest

def isIp (s : Text) : Bool := isIpFrom 0 0 s

/-- What the network makes of an attempt; an address is the text of its four numbers. -/
structure Network where
  socket : Int
  gethostbyname : Text → Option Text
  connect : Text → Int → Bool

/-- The text that goes to `inet_addr`. A target does not leave it room when it is as
long as a session can keep. -/
def peer (gethostbyname : Text → Option Text) (target : Text) : Option Text :=
  match if isIp target then none else gethostbyname target with
  | some address => some address
  | none => if target.length < targetLen then some target else none

/-! Reading. -/

/-- One turn of the loop: nothing within the time, a failure, which says whether to
try again, or data. -/
inductive Poll where
  | quiet
  | failed (again : Bool)
  | data (bytes : List Byte)

/-- The value, and what went to the buffer; `retry` tells whether a failure that asks
for another try gets it. -/
def pollRead (retry : Bool) : (buflen : Nat) → List Poll → Option (Int × List Byte)
  | _, [] => none
  | _, .quiet :: _ => some (0,[])
  | buflen, .failed again :: polls => if retry && again then pollRead retry buflen polls else some (-1,[])
  | buflen, .data bytes :: polls =>
    let bytes := bytes.take buflen
    if bytes = [] then some (0,[])
    else if buflen - bytes.length < 1 then some (bytes.length,bytes)
    else (pollRead retry (buflen - bytes.length) polls).map fun
      | (code,more) => (if code < 0 then -1 else bytes.length + code,bytes ++ more)

/-! ip.c. -/

structure IpSession where
  fd : Int
  target : Text
  port : Int

def defaultPort : Int := 23

def ipNew (target : Text) : IpSession :=
  let port := match target.dropWhile (· ≠ ':') with
    | [] => 0
    | _ :: port => atoi port
  ⟨-1,(target.takeWhile (· ≠ ':')).take targetLen,if port = 0 then defaultPort else port⟩

def ipOpen (s : IpSession) (net : Network) : Option (Reply IpSession Int) :=
  if 0 ≤ s.fd then some ⟨0,s,[]⟩
  else if net.socket < 0 then some ⟨1,{ s with fd := net.socket },[]⟩
  else (peer net.gethostbyname s.target).map fun address =>
    if net.connect address s.port then ⟨0,{ s with fd := net.socket },[.acquired net.socket]⟩
    else ⟨1,{ s with fd := -1 },[.acquired net.socket,.released net.socket]⟩

def ipRead (s : IpSession) (buflen : Nat) (polls : List Poll) : Option (Int × List Byte) :=
  if s.fd < 0 then some (-1,[]) else pollRead true buflen polls

/-- `ready` is what `select` tells within its time. -/
def ipWrite (s : IpSession) (buf : List Byte) (ready : Bool) (write : List Byte → Int) : Int :=
  if s.fd < 0 then -1 else if ready then write buf else -1

def ipClose (s : IpSession) : Reply IpSession Int :=
  if 0 ≤ s.fd then ⟨0,{ s with fd := -1 },[.released s.fd]⟩ else ⟨0,s,[]⟩

/-! serial.c. -/

structure SerialSession where
  fd : Int
  device : Text
  speed : Int

def defaultSpeed : Int := 9600

def serialNew (target : Text) : SerialSession :=
  let speed := match target.dropWhile (· ≠ ',') with
    | [] => defaultSpeed
    | _ :: speed => atoi speed
  ⟨-1,(target.takeWhile (· ≠ ',')).take targetLen,speed⟩

/-- A name that is a file as it stands is taken for one in /dev. -/
def devicePath (device : Text) (access : Text → Bool) : Text :=
  if access device ∧ ¬ "/dev".toList <+: device then "/dev/".toList ++ device else device

def serialOpen (s : SerialSession) (access : Text → Bool) (openPath : Text → Int) : Reply SerialSession Int :=
  if 0 ≤ s.fd then ⟨0,s,[]⟩ else
  let fd := openPath (devicePath s.device access)
  if fd < 0 then ⟨1,{ s with fd := fd },[]⟩ else ⟨0,{ s with fd := fd },[.acquired fd]⟩

def serialRead (s : SerialSession) (buflen : Nat) (polls : List Poll) : Option (Int × List Byte) :=
  if s.fd < 0 then some (-1,[]) else pollRead false buflen polls

def serialWrite (s : SerialSession) (buf : List Byte) (write : List Byte → Int) : Int :=
  if s.fd < 0 then -1 else write buf

def serialClose (s : SerialSession) : Reply SerialSession Int :=
  if 0 ≤ s.fd then ⟨0,{ s with fd := -1 },[.released s.fd]⟩ else ⟨0,s,[]⟩

end Mybmm.Streams
