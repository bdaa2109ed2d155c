import Mybmm.Cellmon

/-! jbd.c: reading a pack over a serial line, in packets, and over CAN, in frames.
A read asks for each register or identifier in turn, a bounded number of times,
so what the transport brings is given by the request and the attempt at it. -/
namespace Mybmm.Jbd
open Config Flags Arrays Cellmon Routine

/-- What an attempt brings, unless the transport fails. -/
abbrev Replies := Nat → Nat → Option (List Byte)

structure JbdSession where
  balancing : Int

/-- The first attempt from which `accept` makes something; the transport's first
failure ends the tries. -/
def attempt {α : Type} (accept : List Byte → Option α) (answer : Nat → Option (List Byte)) : (left k : Nat) → Option α
  | 0, _ => none
  | left + 1, k =>
    match answer k with
    | none => none
    | some bytes =>
      match accept bytes with
      | some a => some a
      | none => attempt accept answer left (k + 1)

def getshort (hi lo : Byte) : BitVec 16 := hi ++ lo

def ctemp (v : BitVec 16) : ℚ := (v.toInt - 2731) / 10

def millivolts (v : BitVec 16) : ℚ := v.toInt / 1000

def balance (low high : BitVec 16) (pp : PackInfo) : PackInfo :=
  { pp with balancebits := low.signExtend 32 ||| (high.signExtend 32 <<< 16) }

def jbdMosCharge : BitVec 16 := 1

def jbdMosDischarge : BitVec 16 := 2

/-! The serial line. -/

def jbdCrc (data : List Byte) : BitVec 16 := data.foldl (fun crc b => crc - b.setWidth 16) 0

def jbdVerify (buf : List Byte) : Option (List Byte) :=
  match buf with
  | start :: _ :: status :: length :: rest =>
    let data := rest.take length.toNat
    match rest.drop length.toNat with
    | [hi,lo,stop] =>
      if start = 0xDD ∧ jbdCrc (status :: length :: data) = getshort hi lo ∧ stop = 0x77 then some data else none
    | _ => none
  | _ => none

def jbdRw (replies : Replies) (reg : Nat) : Option (List Byte) :=
  attempt (fun bytes => jbdVerify (bytes.take 256)) (replies reg) 3 0

def jbdCmdHwinfo : Nat := 0x03

def jbdCmdCellinfo : Nat := 0x04

def hwinfo (s : JbdSession) (data : Vector Byte 128) (pp : PackInfo) : PackInfo :=
  let pp := { pp with
    voltage := (getshort data[0] data[1]).toInt / 100
    current := (getshort data[2] data[3]).toInt / 100
    capacity := (getshort data[6] data[7]).toInt / 100 }
  let pp := balance (getshort data[12] data[13]) (getshort data[14] data[15]) pp
  let fetbits := data[20].setWidth 16
  let pp := putPackState .charging (fetbits &&& jbdMosCharge ≠ 0) pp
  -- Both branches set the bit.
  let pp := if fetbits &&& jbdMosDischarge ≠ 0 then setPackState .discharging pp else setPackState .discharging pp
  let pp := putPackState .balancing (s.balancing ≠ 0) pp
  { pp with cells := data[21].toNat, ntemps := data[22].toNat }

def serialWords (write : Nat → ℚ → PackInfo → Option PackInfo) (decode : BitVec 16 → ℚ) (data : Vector Byte 128)
    (base : Nat) : (left i : Nat) → PackInfo → Option PackInfo
  | 0, _, pp => some pp
  | left + 1, i, pp => do
    let hi ← data[base + 2 * i]?
    let lo ← data[base + 2 * i + 1]?
    let pp ← write i (decode (getshort hi lo)) pp
    serialWords write decode data base left (i + 1) pp

def serialTemps (data : Vector Byte 128) (pp : PackInfo) : Option PackInfo :=
  serialWords putTemp ctemp data 23 pp.ntemps.toNat 0 pp

def serialCells (data : Vector Byte 128) (pp : PackInfo) : Option PackInfo :=
  serialWords putCell millivolts data 0 pp.cells.toNat 0 pp

def jbdGetPack (s : JbdSession) (replies : Replies) : Routine PackInfo Unit := do
  let reply ← orReturn 1 (jbdRw replies jbdCmdHwinfo)
  let data ← index (filled 128 0 reply)
  modify (hwinfo s data)
  update (serialTemps data)
  let reply ← orReturn 1 (jbdRw replies jbdCmdCellinfo)
  let data ← index (filled 128 0 reply)
  update (serialCells data)

/-! The CAN bus. -/

def padded (bytes : List Byte) : Frame := Vector.ofFn fun i => bytes[i.val]?.getD 0

def crcBit (crc : BitVec 16) : BitVec 16 :=
  if crc &&& 1 ≠ 0 then (crc >>> 1) ^^^ 0xa001 else crc >>> 1

def jbdCanCrc (data : Frame) : BitVec 16 :=
  (data.toList.take 6).foldl (fun crc b => crcBit^[8] (crc ^^^ b.setWidth 16)) 0xFFFF

def jbdCanVerify (data : Frame) : Option Frame :=
  let crc := getshort data[6] data[7]
  if crc = 0 ∨ crc = jbdCanCrc data then some data else none

def jbdCanGetCrc (bus : Replies) (id : Nat) : Option Frame :=
  attempt (fun bytes => jbdCanVerify (padded bytes)) (bus id) 4 0

def canState (s : JbdSession) (fetbits : BitVec 16) (pp : PackInfo) : PackInfo :=
  let pp := putPackState .charging (fetbits &&& jbdMosCharge ≠ 0) pp
  let pp := putPackState .discharging (fetbits &&& jbdMosDischarge ≠ 0) pp
  putPackState .balancing (s.balancing ≠ 0) pp

/-- The three words of a frame, and whether the loop over the frames is left. -/
def frameWords (write : Nat → ℚ → PackInfo → Option PackInfo) (decode : BitVec 16 → ℚ) (count : PackInfo → Int) :
    List (BitVec 16) → Nat → Routine PackInfo Bool
  | [], _ => return false
  | w :: ws, i => do
    update (write i (decode w))
    let n ← gets count
    if (i + 1 : Int) ≥ n then return true else frameWords write decode count ws (i + 1)

def words (data : Frame) : List (BitVec 16) :=
  [getshort data[0] data[1],getshort data[2] data[3],getshort data[4] data[5]]

def canWords (bus : Replies) (write : Nat → ℚ → PackInfo → Option PackInfo) (decode : BitVec 16 → ℚ)
    (count : PackInfo → Int) : (frames id i : Nat) → Routine PackInfo Unit
  | 0, _, _ => return ()
  | frames + 1, id, i => do
    let data ← orReturn 1 (jbdCanGetCrc bus id)
    let stop ← frameWords write decode count (words data) i
    if stop then return () else canWords bus write decode count frames (id + 1) (i + 3)

def canTemps (bus : Replies) : Routine PackInfo Unit := canWords bus putTemp ctemp PackInfo.ntemps 2 0x105 0

def canCells (bus : Replies) : Routine PackInfo Unit := canWords bus putCell millivolts PackInfo.cells 10 0x107 0

def jbdCanGetPack (s : JbdSession) (bus : Replies) : Routine PackInfo Unit := do
  let data ← orReturn 1 (jbdCanGetCrc bus 0x102)
  modify (balance (getshort data[0] data[1]) (getshort data[2] data[3]))
  let data ← orReturn 1 (jbdCanGetCrc bus 0x103)
  modify (canState s (getshort data[0] data[1]))
  let data ← orReturn 1 (jbdCanGetCrc bus 0x104)
  modify fun pp => { pp with cells := data[0].toNat, ntemps := data[1].toNat }
  canTemps bus
  canCells bus

/-- `jbd_read`: the name of the transport decides. -/
def jbdRead (s : JbdSession) (can : Bool) (replies : Replies) : Routine PackInfo Unit :=
  if can then jbdCanGetPack s replies else jbdGetPack s replies

/-! What the loops write. -/

def wordAt {n : Nat} (data : Vector Byte n) (j : Nat) : BitVec 16 :=
  getshort (data[j]?.getD 0) (data[j + 1]?.getD 0)

theorem serialWords_inside (write : Nat → ℚ → PackInfo → Option PackInfo) (decode : BitVec 16 → ℚ)
    (data : Vector Byte 128) (base left i : Nat) (pp : PackInfo) (inside : base + 2 * (i + left) ≤ 128) :
    serialWords write decode data base left i pp =
      writeAll write i ((List.range' i left).map fun k => decode (wordAt data (base + 2 * k))) pp := by
  induction left generalizing i pp with
  | zero => rfl
  | succ left ih =>
    have first : base + 2 * i < 128 := by omega
    have second : base + 2 * i + 1 < 128 := by omega
    have hi : data[base + 2 * i]? = some data[base + 2 * i] := Vector.getElem?_eq_getElem first
    have lo : data[base + 2 * i + 1]? = some data[base + 2 * i + 1] := Vector.getElem?_eq_getElem second
    simp only [serialWords,hi,lo,Option.bind_eq_bind,Option.bind_some,List.range'_succ,List.map_cons,writeAll,wordAt,
      Option.getD_some]
    exact congrArg _ (funext fun pp => ih (i + 1) pp (by omega))

theorem serialWords_outside (write : Nat → ℚ → PackInfo → Option PackInfo) (decode : BitVec 16 → ℚ)
    (data : Vector Byte 128) (base size : Nat) (stuck : ∀ v pp, write size v pp = none) (left i : Nat) (pp : PackInfo)
    (before : i ≤ size) (past : size < i + left) : serialWords write decode data base left i pp = none := by
  induction left generalizing i pp with
  | zero => omega
  | succ left ih =>
    simp only [serialWords,Option.bind_eq_bind,Option.bind_eq_none_iff]
    intro hi _ lo _ next written
    rcases Nat.lt_or_eq_of_le before with below | rfl
    · exact ih (i + 1) next below (by omega)
    · rw [stuck] at written
      contradiction

theorem frameWords_eq (write : Nat → ℚ → PackInfo → Option PackInfo) (decode : BitVec 16 → ℚ) (count : PackInfo → Int)
    (keeps : ∀ i v pp t, write i v pp = some t → count t = count pp) (n : Nat) (ws : List (BitVec 16)) (i : Nat)
    (pp : PackInfo) (counted : count pp = n) (goes : ws ≠ [] ∨ i < n) :
    frameWords write decode count ws i pp =
      (writeAll write i ((ws.take (max 1 (n - i))).map decode) pp).map fun t =>
        (.ok (decide (n ≤ i + ws.length)),t) := by
  induction ws generalizing i pp with
  | nil =>
    have more : decide (n ≤ i) = false := by simpa using goes.resolve_left fun ne => ne rfl
    simp only [frameWords,List.take_nil,List.map_nil,writeAll,Option.map_some,List.length_nil,Nat.add_zero,more]
    rfl
  | cons w ws ih =>
    have some : ∃ k, max 1 (n - i) = k + 1 := ⟨max 1 (n - i) - 1,by omega⟩
    obtain ⟨k,size⟩ := some
    simp only [frameWords,size,List.take_succ_cons,List.map_cons,writeAll]
    cases written : write i (decode w) pp with
    | none => exact bind_update_none written
    | some next =>
      have counted : count next = n := (keeps i _ pp next written).trans counted
      rw [bind_update_some written,bind_gets,counted,List.length_cons,Option.bind_some]
      by_cases last : n ≤ i + 1
      · have none : k = 0 := by omega
        have done : n ≤ i + (ws.length + 1) := by omega
        rw [if_pos (by exact_mod_cast last),none]
        simp only [List.take_zero,List.map_nil,writeAll,Option.map_some,done,decide_true]
        rfl
      · have rest : k = max 1 (n - (i + 1)) := by omega
        have shift : i + (ws.length + 1) = i + 1 + ws.length := by omega
        rw [if_neg (by exact_mod_cast last),ih (i + 1) next counted (Or.inr (by omega)),rest,shift]

/-- With every frame at hand, the loop writes as many words as are counted, but
one at least. -/
theorem canWords_available (bus : Replies) (write : Nat → ℚ → PackInfo → Option PackInfo) (decode : BitVec 16 → ℚ)
    (count : PackInfo → Int) (keeps : ∀ i v pp t, write i v pp = some t → count t = count pp) (n : Nat)
    (frames : List Frame) (id i : Nat) (pp : PackInfo) (counted : count pp = n)
    (available : ∀ j (inside : j < frames.length), jbdCanGetCrc bus (id + j) = some frames[j]) :
    canWords bus write decode count frames.length id i pp =
      (writeAll write i (((frames.flatMap words).take (max 1 (n - i))).map decode) pp).map fun t => (.ok (),t) := by
  induction frames generalizing id i pp with
  | nil =>
    simp only [List.flatMap_nil,List.take_nil,List.map_nil,writeAll,Option.map_some]
    rfl
  | cons frame frames ih =>
    have first : jbdCanGetCrc bus id = some frame := available 0 (by simp)
    have three : (words frame).length = 3 := rfl
    have entered := frameWords_eq write decode count keeps n (words frame) i pp counted (Or.inl (by simp [words]))
    simp only [List.length_cons,canWords,first,bind_some,List.flatMap_cons,List.take_append,three,List.map_append,
      writeAll_append]
    cases written : writeAll write i ((List.take (max 1 (n - i)) (words frame)).map decode) pp with
    | none =>
      rw [written] at entered
      exact bind_none entered
    | some next =>
      rw [written] at entered
      rw [bind_ok entered,three,Option.bind_some]
      by_cases last : n ≤ i + 3
      · have none : max 1 (n - i) - 3 = 0 := by omega
        simp only [last,decide_true,if_true,none,List.take_zero,List.map_nil,writeAll,Option.map_some]
        rfl
      · have rest : max 1 (n - i) - 3 = max 1 (n - (i + 3)) := by omega
        have whole : ((List.take (max 1 (n - i)) (words frame)).map decode).length = 3 := by
          simp only [List.length_map,List.length_take,three]
          omega
        have counted := (writeAll_keeps count write keeps i _ pp next written).trans counted
        simp only [last,decide_false,Bool.false_eq_true,if_false,rest,whole]
        refine ih (id + 1) (i + 3) next counted fun j inside => ?_
        have later := available (j + 1) (by simpa using inside)
        rwa [← Nat.add_assoc,Nat.add_right_comm] at later

end Mybmm.Jbd
