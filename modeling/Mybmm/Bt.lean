import Mybmm.Support.Arrays
import Mybmm.Support.Sessions

/-! bt.c: a session over a Bluetooth connection. What arrives comes by a callback,
which collects it until it is read. -/
namespace Mybmm.Bt
open Arrays Sessions

def dataSize : Nat := 4096

/-- A connection is known by its pointer; `data` are the first `len` bytes. -/
structure BtSession where
  c : Option Nat
  data : List Byte
  not : Bool

def btNew : BtSession := ⟨none,[],false⟩

structure Device where
  stringToUuid : Bool
  connect : Option Nat
  notificationStart : Bool

/-- The connection is made whatever the session holds. -/
def btOpen (s : BtSession) (device : Device) : Reply BtSession Nat :=
  if ¬ device.stringToUuid then ⟨1,s,[]⟩ else
  match device.connect with
  | none => ⟨1,{ s with c := none },[]⟩
  | some c =>
    if ¬ device.notificationStart then ⟨1,{ s with c := some c },[.acquired c,.released c]⟩
    else ⟨0,{ s with c := some c, not := true },[.acquired c]⟩

def notificationCb (s : BtSession) (bytes : List Byte) : BtSession :=
  { s with data := s.data ++ bytes.take (dataSize - s.data.length) }

/-- A turn for each time it waits, in which the callback may be called. -/
def btWait (buflen : Nat) : BtSession → List (List Byte) → Int × List Byte × BtSession
  | s, [] => if s.data = [] then (0,[],s) else (min s.data.length buflen,s.data.take buflen,{ s with data := [] })
  | s, bytes :: arrivals =>
    if s.data = [] then btWait buflen (notificationCb s bytes) arrivals
    else (min s.data.length buflen,s.data.take buflen,{ s with data := [] })

/-- Waits twice at most, `first` and `second` being what arrives then. -/
def btRead (s : BtSession) (buflen : Nat) (first second : List Byte) : Int × List Byte × BtSession :=
  if s.c = none then (-1,[],s) else btWait buflen s [first,second]

def btWrite (s : BtSession) (buf : List Byte) (writeChar : List Byte → Bool) : Int × BtSession :=
  if s.c = none then (-1,s)
  else (if writeChar buf then buf.length else -1,{ s with data := [] })

def btClose (s : BtSession) : Reply BtSession Nat :=
  match s.c with
  | some c => ⟨0,{ s with c := none },[.released c]⟩
  | none => ⟨0,s,[]⟩

end Mybmm.Bt
