import Mybmm.Cellmon

/-! jk.c: a pack read over a byte stream. What a read of the transport brings is
scanned for records, which are found by their signature; the buffer is not
cleared between reads. -/
namespace Mybmm.Jk
open Config Flags Arrays Cellmon Routine

abbrev Buffer := Vector Byte 2048

inductive Got where
  | res | volt | info
deriving DecidableEq

instance : FlagSet Got 32 where
  mask
    | .res => 1
    | .volt => 2
    | .info => 4
  mask_ne_zero a := by cases a <;> decide
  mask_disjoint a b ne := by cases a <;> cases b <;> first | contradiction | decide

def getshort (data : Buffer) (k : Nat) : Routine PackInfo (BitVec 16) := do
  let lo ← index data[k]?
  let hi ← index data[k + 1]?
  return hi ++ lo

/-- The loop of `_getvolts` over the cells, up to one without a voltage. -/
def cellvolts (data : Buffer) (start : Nat) : (left j : Nat) → Routine PackInfo Nat
  | 0, j => return j
  | left + 1, j => do
    let v ← getshort data (start + (6 + 2 * j))
    update (putCell j (v.toInt / 1000))
    if v.toInt = 0 then return j else cellvolts data start left (j + 1)

def getvolts (data : Buffer) (start : Nat) : Routine PackInfo Unit := do
  let j ← cellvolts data start 24 0
  modify fun pp => { pp with cells := j }
  let v ← getshort data (start + 118)
  modify fun pp => { pp with voltage := v.toNat / 1000 }
  let v ← getshort data (start + 126)
  modify fun pp => { pp with current := v.toInt / 1000, ntemps := 2 }
  let v ← getshort data (start + 130)
  update (putTemp 0 (v.toNat / 10))
  let v ← getshort data (start + 132)
  update (putTemp 1 (v.toNat / 10))

def sig : Vector Byte 4 := #v[0x55,0xAA,0xEB,0x90]

def noted (kind : Byte) (r : BitVec 32) : BitVec 32 :=
  if kind = 1 then set r Got.res else if kind = 3 then set r Got.info else r

/-- The bytes from `i` on, with `j` bytes of the signature seen and the first of
them at `start`. A byte that does not match leaves `j` as it is. -/
def getdata (data : Buffer) (bytes i j start : Nat) (r : BitVec 32) : Routine PackInfo (BitVec 32) :=
  if inside : i < bytes then do
    let b ← index data[i]?
    let want ← index sig[j]?
    if b = want then
      let start := if j = 0 then i else start
      if 4 ≤ j + 1 ∧ start + 300 < bytes then do
        let kind ← index data[i + 1]?
        if kind = 2 then do
          getvolts data start
          return set r Got.volt
        else getdata data bytes (i + 301) 0 start (noted kind r)
      else getdata data bytes (i + 1) (j + 1) start r
    else getdata data bytes (i + 1) j start r
  else return r
termination_by bytes - i
decreasing_by all_goals omega

/-- A read of the transport overwrites the front of the buffer. -/
def received (data : Buffer) (reply : List Byte) : Buffer := Vector.ofFn fun i => reply[i.val]?.getD data[i]

def readBytes (reply : List Byte) : Nat := min reply.length 2048

/-- What the reads of either loop bring, and whether the cell data could be asked
for. A read of the first loop fails with its request too. -/
structure Replies where
  info : Nat → Option (List Byte)
  requested : Bool
  cell : Nat → Option (List Byte)

def infoTries (info : Nat → Option (List Byte)) : (retries k : Nat) → Buffer → Routine PackInfo Buffer
  | 0, _, data => return data
  | retries + 1, k, data => do
    let reply ← orReturn (-1) (info k)
    let data := received data reply
    let r ← getdata data (readBytes reply) 0 0 0 0
    if check r Got.info then return data else infoTries info retries (k + 1) data

/-- The retries left when the loop ends. A failed read scans nothing. -/
def cellTries (cell : Nat → Option (List Byte)) : (retries k : Nat) → Buffer → Routine PackInfo Int
  | 0, _, _ => return -1
  | retries + 1, k, data =>
    match cell k with
    | none => cellTries cell retries (k + 1) data
    | some reply => do
      let data := received data reply
      let r ← getdata data (readBytes reply) 0 0 0 0
      if check r Got.volt then return retries else cellTries cell retries (k + 1) data

/-- `jk_read`; `data` is what the buffer holds at first. -/
def jkRead (data : Buffer) (replies : Replies) : Routine PackInfo Unit := do
  let data ← infoTries replies.info 5 0 data
  orReturn (-1) (if replies.requested then some () else none)
  let retries ← cellTries replies.cell 5 0 data
  if retries < 1 then orReturn (-1) none else return ()

/-! What the bytes hold, told without the pack. -/

def nextByte (data : Buffer) (bytes i : Nat) (b : Byte) : Option Nat :=
  (List.range' i (bytes - i)).find? fun k => data[k]? = some b

/-- Where the signature begins and ends, when it is there from `i` on. Other bytes
may stand between its bytes. -/
def signature (data : Buffer) (bytes i : Nat) : Option (Nat × Nat) := do
  let first ← nextByte data bytes i 0x55
  let second ← nextByte data bytes (first + 1) 0xAA
  let third ← nextByte data bytes (second + 1) 0xEB
  let last ← nextByte data bytes (third + 1) 0x90
  some (first,last)

/-- A signature with a record behind it does not end the buffer; one without is
the end of what was received. -/
def WellFramed (data : Buffer) (bytes : Nat) : (left i : Nat) → Prop
  | 0, _ => True
  | left + 1, i => ∀ first last, signature data bytes i = some (first,last) →
      if first + 300 < bytes then
        last + 1 < 2048 ∧ (data[last + 1]? ≠ some 2 → WellFramed data bytes left (last + 301))
      else bytes ≤ last + 1

/-- The kinds of the records, up to the first with voltages. -/
def kinds (data : Buffer) (bytes : Nat) : (left i : Nat) → List Byte
  | 0, _ => []
  | left + 1, i =>
    match signature data bytes i with
    | none => []
    | some (first,last) =>
      if first + 300 < bytes then
        match data[last + 1]? with
        | none => []
        | some kind => kind :: if kind = 2 then [] else kinds data bytes left (last + 301)
      else []

def holds (data : Buffer) (reply : List Byte) (kind : Byte) : Bool :=
  kind ∈ kinds (received data reply) (readBytes reply) (readBytes reply) 0

def Framed (data : Buffer) (reply : List Byte) : Prop :=
  WellFramed (received data reply) (readBytes reply) (readBytes reply) 0

/-- Every reply up to the one with the info is framed, and the buffer it leaves
is good for what follows. -/
def InfoFramed (info : Nat → Option (List Byte)) (rest : Buffer → Prop) : (retries k : Nat) → Buffer → Prop
  | 0, _, data => rest data
  | retries + 1, k, data => ∀ reply, info k = some reply → Framed data reply ∧
      if holds data reply 3 then rest (received data reply)
      else InfoFramed info rest retries (k + 1) (received data reply)

def CellFramed (cell : Nat → Option (List Byte)) : (retries k : Nat) → Buffer → Prop
  | 0, _, _ => True
  | retries + 1, k, data =>
    match cell k with
    | none => CellFramed cell retries (k + 1) data
    | some reply => Framed data reply ∧ (holds data reply 2 = false →
        CellFramed cell retries (k + 1) (received data reply))

/-- Every reply that `jk_read` scans is framed. -/
def Within (data : Buffer) (replies : Replies) : Prop :=
  InfoFramed replies.info (fun data => replies.requested = true → CellFramed replies.cell 5 0 data) 5 0 data

end Mybmm.Jk
