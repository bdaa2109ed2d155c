import Mybmm.Jk

/-! The scan of jk.c over memory of any length, with the places at which it takes a
record to begin. -/
namespace Mybmm.JkScan
open Config Flags Arrays Cellmon Routine
open Jk (Got sig noted)

abbrev Memory := Nat → Option Byte

def getshort (mem : Memory) (k : Nat) : Routine PackInfo (BitVec 16) := do
  let lo ← index (mem k)
  let hi ← index (mem (k + 1))
  return hi ++ lo

def cellvolts (mem : Memory) (start : Nat) : (left j : Nat) → Routine PackInfo Nat
  | 0, j => return j
  | left + 1, j => do
    let v ← getshort mem (start + (6 + 2 * j))
    update (putCell j (v.toInt / 1000))
    if v.toInt = 0 then return j else cellvolts mem start left (j + 1)

def getvolts (mem : Memory) (start : Nat) : Routine PackInfo Unit := do
  let j ← cellvolts mem start 24 0
  modify fun pp => { pp with cells := j }
  let v ← getshort mem (start + 118)
  modify fun pp => { pp with voltage := v.toNat / 1000 }
  let v ← getshort mem (start + 126)
  modify fun pp => { pp with current := v.toInt / 1000, ntemps := 2 }
  let v ← getshort mem (start + 130)
  update (putTemp 0 (v.toNat / 10))
  let v ← getshort mem (start + 132)
  update (putTemp 1 (v.toNat / 10))

/-- As `Jk.getdata`; `hits` are the records taken so far. -/
def getdata (mem : Memory) (bytes i j start : Nat) (r : BitVec 32) (hits : List Nat) :
    Routine PackInfo (BitVec 32 × List Nat) :=
  if inside : i < bytes then do
    let b ← index (mem i)
    let want ← index sig[j]?
    if b = want then
      let start := if j = 0 then i else start
      if 4 ≤ j + 1 ∧ start + 300 < bytes then do
        let kind ← index (mem (i + 1))
        if kind = 2 then do
          getvolts mem start
          return (set r Got.volt,hits ++ [start])
        else getdata mem bytes (i + 301) 0 start (noted kind r) (hits ++ [start])
      else getdata mem bytes (i + 1) (j + 1) start r hits
    else getdata mem bytes (i + 1) j start r hits
  else return (r,hits)
termination_by bytes - i
decreasing_by all_goals omega

private theorem getdata_past (mem : Memory) (bytes i j start : Nat) (r : BitVec 32) (hits : List Nat) (past : bytes ≤ i) :
    getdata mem bytes i j start r hits = pure (r,hits) := by
  rw [getdata,dif_neg (by omega)]

private theorem getdata_inside (mem : Memory) (bytes i j start : Nat) (r : BitVec 32) (hits : List Nat)
    (inside : i < bytes) :
    getdata mem bytes i j start r hits = (do
      let b ← index (mem i)
      let want ← index sig[j]?
      if b = want then
        let start := if j = 0 then i else start
        if 4 ≤ j + 1 ∧ start + 300 < bytes then do
          let kind ← index (mem (i + 1))
          if kind = 2 then do
            getvolts mem start
            return (set r Got.volt,hits ++ [start])
          else getdata mem bytes (i + 301) 0 start (noted kind r) (hits ++ [start])
        else getdata mem bytes (i + 1) (j + 1) start r hits
      else getdata mem bytes (i + 1) j start r hits) := by
  rw [getdata,dif_pos inside]

def memory (buf : List Byte) : Memory := fun k => buf[k]?

/-- What was received and nothing else: every index that the scan uses is checked. -/
def scan (buf : List Byte) : Routine PackInfo (BitVec 32 × List Nat) := getdata (memory buf) buf.length 0 0 0 0 []

/-! The scan of the driver is this one over its buffer. -/

private theorem getshort_buffer (data : Jk.Buffer) (k : Nat) : Jk.getshort data k = getshort (fun k => data[k]?) k := rfl

private theorem cellvolts_buffer (data : Jk.Buffer) (start left j : Nat) :
    Jk.cellvolts data start left j = cellvolts (fun k => data[k]?) start left j := by
  induction left generalizing j with
  | zero => rfl
  | succ left ih => simp only [Jk.cellvolts,cellvolts,getshort_buffer,ih]

private theorem getvolts_buffer (data : Jk.Buffer) (start : Nat) :
    Jk.getvolts data start = getvolts (fun k => data[k]?) start := by
  simp only [Jk.getvolts,getvolts,getshort_buffer,cellvolts_buffer]

def flagsOf (ends : Option (Except Int (BitVec 32 × List Nat) × PackInfo)) : Option (Except Int (BitVec 32) × PackInfo) :=
  ends.map fun
    | (.ok (r,_),t) => (.ok r,t)
    | (.error code,t) => (.error code,t)

theorem getdata_buffer (data : Jk.Buffer) (bytes i j start : Nat) (r : BitVec 32) (hits : List Nat) (pp : PackInfo) :
    Jk.getdata data bytes i j start r pp = flagsOf (getdata (fun k => data[k]?) bytes i j start r hits pp) := by
  induction left : bytes - i using Nat.strong_induction_on generalizing i j start r hits with
  | h left ih =>
    rw [Jk.getdata,getdata]
    by_cases inside : i < bytes
    · rw [dif_pos inside,dif_pos inside]
      cases here : data[i]? with
      | none => rfl
      | some b =>
        rw [bind_index,bind_index]
        cases sig[j]? with
        | none => rfl
        | some want =>
          rw [bind_index,bind_index]
          by_cases matching : b = want
          · rw [if_pos matching,if_pos matching]
            by_cases whole : 4 ≤ j + 1 ∧ (if j = 0 then i else start) + 300 < bytes
            · simp only [if_pos whole]
              cases data[i + 1]? with
              | none => rfl
              | some kind =>
                rw [bind_index,bind_index]
                by_cases volts : kind = 2
                · rw [if_pos volts,if_pos volts,getvolts_buffer]
                  simp only [bind]
                  rcases getvolts (fun k => data[k]?) (if j = 0 then i else start) pp with _ | ⟨_ | _,_⟩ <;> rfl
                · rw [if_neg volts,if_neg volts]
                  exact ih _ (by omega) _ _ _ _ _ rfl
            · simp only [if_neg whole]
              exact ih _ (by omega) _ _ _ _ _ rfl
          · rw [if_neg matching,if_neg matching]
            exact ih _ (by omega) _ _ _ _ _ rfl
    · rw [dif_neg inside,dif_neg inside]
      rfl

/-! Where memory goes further, so does the scan. -/

private theorem getshort_extends {mem mem' : Memory} (longer : ∀ k b, mem k = some b → mem' k = some b) (k : Nat) :
    Extends (getshort mem k) (getshort mem' k) :=
  extends_bind (extends_index (longer k)) fun _ => extends_bind (extends_index (longer (k + 1))) fun _ => extends_refl _

private theorem cellvolts_extends {mem mem' : Memory} (longer : ∀ k b, mem k = some b → mem' k = some b)
    (start left j : Nat) : Extends (cellvolts mem start left j) (cellvolts mem' start left j) := by
  induction left generalizing j with
  | zero => exact extends_refl _
  | succ left ih =>
    refine extends_bind (getshort_extends longer _) fun v => extends_bind (extends_refl _) fun _ => ?_
    by_cases empty : v.toInt = 0
    · rw [if_pos empty,if_pos empty]
      exact extends_refl _
    · rw [if_neg empty,if_neg empty]
      exact ih (j + 1)

private theorem getvolts_extends {mem mem' : Memory} (longer : ∀ k b, mem k = some b → mem' k = some b) (start : Nat) :
    Extends (getvolts mem start) (getvolts mem' start) := by
  refine extends_bind (cellvolts_extends longer start 24 0) fun _ => extends_bind (extends_refl _) fun _ => ?_
  refine extends_bind (getshort_extends longer _) fun _ => extends_bind (extends_refl _) fun _ => ?_
  refine extends_bind (getshort_extends longer _) fun _ => extends_bind (extends_refl _) fun _ => ?_
  refine extends_bind (getshort_extends longer _) fun _ => extends_bind (extends_refl _) fun _ => ?_
  exact extends_bind (getshort_extends longer _) fun _ => extends_refl _

private theorem getdata_extends {mem mem' : Memory} (longer : ∀ k b, mem k = some b → mem' k = some b)
    (bytes i j start : Nat) (r : BitVec 32) (hits : List Nat) :
    Extends (getdata mem bytes i j start r hits) (getdata mem' bytes i j start r hits) := by
  induction left : bytes - i using Nat.strong_induction_on generalizing i j start r hits with
  | h left ih =>
    by_cases inside : i < bytes
    · rw [getdata_inside mem _ _ _ _ _ _ inside,getdata_inside mem' _ _ _ _ _ _ inside]
      refine extends_bind (extends_index (longer i)) fun b => extends_bind (extends_refl _) fun want => ?_
      by_cases matching : b = want
      · rw [if_pos matching,if_pos matching]
        by_cases whole : 4 ≤ j + 1 ∧ (if j = 0 then i else start) + 300 < bytes
        · simp only [if_pos whole]
          refine extends_bind (extends_index (longer (i + 1))) fun kind => ?_
          by_cases volts : kind = 2
          · rw [if_pos volts,if_pos volts]
            exact extends_bind (getvolts_extends longer _) fun _ => extends_refl _
          · rw [if_neg volts,if_neg volts]
            exact ih _ (by omega) _ _ _ _ _ rfl
        · simp only [if_neg whole]
          exact ih _ (by omega) _ _ _ _ _ rfl
      · rw [if_neg matching,if_neg matching]
        exact ih _ (by omega) _ _ _ _ _ rfl
    · rw [getdata_past mem _ _ _ _ _ _ (by omega),getdata_past mem' _ _ _ _ _ _ (by omega)]
      exact extends_refl _

/-- What a scan of the received bytes alone gives is what the driver's gives, whatever
its buffer held. -/
theorem getdata_received (data : Jk.Buffer) (reply : List Byte) (pp : PackInfo)
    (ends : Except Int (BitVec 32 × List Nat) × PackInfo) (done : scan (reply.take 2048) pp = some ends) :
    Jk.getdata (Jk.received data reply) (Jk.readBytes reply) 0 0 0 0 pp = flagsOf (some ends) := by
  have length : (reply.take 2048).length = Jk.readBytes reply := by
    rw [List.length_take,Jk.readBytes,Nat.min_comm]
  have longer : ∀ (k : Nat) (b : Byte), (reply.take 2048)[k]? = some b → (Jk.received data reply)[k]? = some b := by
    intro k b here
    obtain ⟨inside,byte⟩ := List.getElem?_eq_some_iff.mp here
    rw [List.length_take] at inside
    rw [List.getElem_take] at byte
    have listed : reply[k]? = some b := by rw [List.getElem?_eq_getElem (by omega),byte]
    rw [Vector.getElem?_eq_getElem (by omega)]
    simp [Jk.received,listed]
  rw [getdata_buffer _ _ _ _ _ _ [],← length,getdata_extends longer _ _ _ _ _ _ pp ends done]

/-! The flags. -/

def code : Got → Byte
  | .res => 1
  | .volt => 2
  | .info => 3

theorem check_noted {kind : Byte} (other : kind ≠ 2) (r : BitVec 32) (g : Got) :
    check (noted kind r) g = (decide (kind = code g) || check r g) := by
  unfold noted
  by_cases res : kind = 1
  · subst res
    cases g <;> simp [code]
  · rw [if_neg res]
    by_cases info : kind = 3
    · subst info
      cases g <;> simp [code]
    · have unknown : kind ≠ code g := by cases g <;> assumption
      rw [if_neg info,decide_eq_false unknown,Bool.false_or]

/-! The signature. -/

def nextByte (mem : Memory) (bytes i : Nat) (b : Byte) : Option Nat :=
  (List.range' i (bytes - i)).find? fun k => mem k = some b

/-- Where the signature begins and ends, when it is there from `i` on. Other bytes
may stand between its bytes. -/
def signature (mem : Memory) (bytes i : Nat) : Option (Nat × Nat) := do
  let first ← nextByte mem bytes i 0x55
  let second ← nextByte mem bytes (first + 1) 0xAA
  let third ← nextByte mem bytes (second + 1) 0xEB
  let last ← nextByte mem bytes (third + 1) 0x90
  some (first,last)

private theorem nextByte_step (mem : Memory) (bytes i : Nat) (b : Byte) (inside : i < bytes) :
    nextByte mem bytes i b = if mem i = some b then some i else nextByte mem bytes (i + 1) b := by
  have more : bytes - i = (bytes - (i + 1)) + 1 := by omega
  simp only [nextByte,more,List.range'_succ,List.find?_cons]
  by_cases here : mem i = some b <;> simp [here]

private theorem nextByte_none (mem : Memory) (bytes i : Nat) (b : Byte) (past : bytes ≤ i) : nextByte mem bytes i b =
    none := by
  simp [nextByte,Nat.sub_eq_zero_of_le past]

private theorem nextByte_some {mem : Memory} {bytes i k : Nat} {b : Byte} (found : nextByte mem bytes i b = some k) :
    i ≤ k ∧ k < bytes ∧ mem k = some b := by
  have holds := List.find?_some found
  have listed := List.mem_of_find?_eq_some found
  rw [List.mem_range'_1] at listed
  exact ⟨listed.1,by omega,of_decide_eq_true holds⟩

theorem nextByte_reaches (mem : Memory) {bytes i k : Nat} {b : Byte} (from_here : i ≤ k) (inside : k < bytes)
    (here : mem k = some b) : ∃ first, nextByte mem bytes i b = some first ∧ first ≤ k := by
  induction left : k - i generalizing i with
  | zero =>
    obtain rfl : i = k := by omega
    exact ⟨i,by rw [nextByte_step _ _ _ _ inside,if_pos here],le_rfl⟩
  | succ left ih =>
    rw [nextByte_step _ _ _ _ (by omega)]
    by_cases same : mem i = some b
    · exact ⟨i,if_pos same,from_here⟩
    · rw [if_neg same]
      exact ih (by omega) (by omega)

theorem signature_bytes {mem : Memory} {bytes i first last : Nat} (found : signature mem bytes i = some (first,last)) :
    ∃ second third, i ≤ first ∧ first < second ∧ second < third ∧ third < last ∧ last < bytes ∧
      mem first = some 0x55 ∧ mem second = some 0xAA ∧ mem third = some 0xEB ∧ mem last = some 0x90 := by
  simp only [signature,Option.bind_eq_bind,Option.bind_eq_some_iff,Option.some.injEq,Prod.mk.injEq] at found
  obtain ⟨a,one,b,two,c,three,d,four,rfl,rfl⟩ := found
  obtain ⟨after,_,byte1⟩ := nextByte_some one
  obtain ⟨after2,_,byte2⟩ := nextByte_some two
  obtain ⟨after3,_,byte3⟩ := nextByte_some three
  obtain ⟨after4,inside,byte4⟩ := nextByte_some four
  exact ⟨b,c,after,after2,after3,after4,inside,byte1,byte2,byte3,byte4⟩

theorem signature_some {mem : Memory} {bytes i first last : Nat} (found : signature mem bytes i = some (first,last)) :
    i ≤ first ∧ first + 3 ≤ last ∧ last < bytes ∧ mem last = some 0x90 := by
  obtain ⟨second,third,after,_,_,_,inside,_,_,_,ends⟩ := signature_bytes found
  exact ⟨after,by omega,inside,ends⟩

/-! The scan goes from signature to signature. -/

/-- Memory reaches as far as what was received. -/
def Full (mem : Memory) (bytes : Nat) : Prop := ∀ k < bytes, ∃ b, mem k = some b

private theorem getdata_enter (mem : Memory) (bytes i j start : Nat) (r : BitVec 32) (hits : List Nat) (pp : PackInfo)
    (full : Full mem bytes) (inside : i < bytes) (known : j < 4) : getdata mem bytes i j start r hits pp =
      (if mem i = some sig[j] then
        let start := if j = 0 then i else start
        if 4 ≤ j + 1 ∧ start + 300 < bytes then do
          let kind ← index (mem (i + 1))
          if kind = 2 then do
            getvolts mem start
            return (set r Got.volt,hits ++ [start])
          else getdata mem bytes (i + 301) 0 start (noted kind r) (hits ++ [start])
        else getdata mem bytes (i + 1) (j + 1) start r hits
      else getdata mem bytes (i + 1) j start r hits) pp := by
  obtain ⟨b,byte⟩ := full i inside
  have want : sig[j]? = some sig[j] := Vector.getElem?_eq_getElem known
  rw [getdata_inside _ _ _ _ _ _ _ inside,byte,bind_index,want,bind_index]
  simp only [Option.some.injEq]

private theorem getdata_stuck (mem : Memory) (bytes i start : Nat) (r : BitVec 32) (hits : List Nat) (pp : PackInfo)
    (full : Full mem bytes) (inside : i < bytes) : getdata mem bytes i 4 start r hits pp = none := by
  obtain ⟨b,byte⟩ := full i inside
  rw [getdata_inside _ _ _ _ _ _ _ inside,byte,bind_index]
  rfl

private theorem getdata_next (mem : Memory) (bytes i j start : Nat) (r : BitVec 32) (hits : List Nat) (pp : PackInfo)
    (full : Full mem bytes) (known : j < 4) (b : Byte) (want : sig[j] = b) : getdata mem bytes i j start r hits pp =
      match nextByte mem bytes i b with
      | none => some (.ok (r,hits),pp)
      | some k => getdata mem bytes k j start r hits pp := by
  induction left : bytes - i generalizing i with
  | zero =>
    rw [nextByte_none _ _ _ _ (by omega),getdata_past _ _ _ _ _ _ _ (by omega)]
    rfl
  | succ left ih =>
    have inside : i < bytes := by omega
    rw [nextByte_step _ _ _ _ inside]
    by_cases here : mem i = some b
    · rw [if_pos here]
    · rw [if_neg here,getdata_enter _ _ _ _ _ _ _ _ full inside known,want,if_neg here]
      exact ih (i + 1) (by omega)

private theorem getdata_match (mem : Memory) (bytes k j start : Nat) (r : BitVec 32) (hits : List Nat) (pp : PackInfo)
    (full : Full mem bytes) (inside : k < bytes) (early : j < 3) (here : mem k = some sig[j]) :
    getdata mem bytes k j start r hits pp =
      getdata mem bytes (k + 1) (j + 1) (if j = 0 then k else start) r hits pp := by
  rw [getdata_enter _ _ _ _ _ _ _ _ full inside (by omega),if_pos here]
  exact congrFun (if_neg fun whole => absurd whole.1 (by omega)) pp

theorem getdata_signature (mem : Memory) (bytes i start : Nat) (r : BitVec 32) (hits : List Nat) (pp : PackInfo)
    (full : Full mem bytes) : getdata mem bytes i 0 start r hits pp =
      match signature mem bytes i with
      | none => some (.ok (r,hits),pp)
      | some (first,last) => getdata mem bytes last 3 first r hits pp := by
  simp only [signature]
  rw [getdata_next mem bytes i 0 start r hits pp full (by decide) 0x55 rfl]
  cases one : nextByte mem bytes i 0x55 with
  | none => rfl
  | some first =>
    obtain ⟨_,inside,here⟩ := nextByte_some one
    simp only [Option.bind_eq_bind,Option.bind_some]
    rw [getdata_match mem bytes first 0 start r hits pp full inside (by decide) here,if_pos rfl,
      getdata_next mem bytes (first + 1) 1 first r hits pp full (by decide) 0xAA rfl]
    cases two : nextByte mem bytes (first + 1) 0xAA with
    | none => rfl
    | some second =>
      obtain ⟨_,inside,here⟩ := nextByte_some two
      simp only [Option.bind_some]
      rw [getdata_match mem bytes second 1 first r hits pp full inside (by decide) here,if_neg (by decide),
        getdata_next mem bytes (second + 1) 2 first r hits pp full (by decide) 0xEB rfl]
      cases three : nextByte mem bytes (second + 1) 0xEB with
      | none => rfl
      | some third =>
        obtain ⟨_,inside,here⟩ := nextByte_some three
        simp only [Option.bind_some]
        rw [getdata_match mem bytes third 2 first r hits pp full inside (by decide) here,if_neg (by decide),
          getdata_next mem bytes (third + 1) 3 first r hits pp full (by decide) 0x90 rfl]
        cases four : nextByte mem bytes (third + 1) 0x90 <;> rfl

/-- After a signature: its record when the room for it is there, else nothing more
unless bytes are left, for which the signature has no fifth byte. -/
theorem getdata_found (mem : Memory) (bytes i start : Nat) (r : BitVec 32) (hits : List Nat) (pp : PackInfo)
    (full : Full mem bytes) {first last : Nat} (found : signature mem bytes i = some (first,last)) :
    getdata mem bytes i 0 start r hits pp =
      if first + 300 < bytes then (do
        let kind ← index (mem (last + 1))
        if kind = 2 then do
          getvolts mem first
          return (set r Got.volt,hits ++ [first])
        else getdata mem bytes (last + 301) 0 first (noted kind r) (hits ++ [first])) pp
      else if bytes ≤ last + 1 then some (.ok (r,hits),pp) else none := by
  obtain ⟨_,_,inside,here⟩ := signature_some found
  rw [getdata_signature mem bytes i start r hits pp full,found]
  simp only
  rw [getdata_enter mem bytes last 3 first r hits pp full inside (by decide),if_pos (show mem last = some sig[3] from here)]
  simp only [show (4 : Nat) ≤ 3 + 1 from le_rfl,true_and,show ¬ (3 : Nat) = 0 by decide,if_false]
  by_cases whole : first + 300 < bytes
  · rw [if_pos whole,if_pos whole]
  · rw [if_neg whole,if_neg whole]
    by_cases ends : bytes ≤ last + 1
    · rw [if_pos ends,getdata_past _ _ _ _ _ _ _ ends]
      rfl
    · rw [if_neg ends]
      exact getdata_stuck mem bytes _ _ _ _ _ full (by omega)

/-! The voltages, which lie in the first 134 bytes of a record. -/

private theorem getshort_inside (mem : Memory) (bytes k : Nat) (pp : PackInfo) (full : Full mem bytes)
    (inside : k + 1 < bytes) :
    ∃ v, getshort mem k pp = some (.ok v,pp) := by
  obtain ⟨lo,first⟩ := full k (by omega)
  obtain ⟨hi,second⟩ := full (k + 1) inside
  exact ⟨hi ++ lo,by rw [getshort,first,bind_index,second,bind_index]; rfl⟩

private theorem cellvolts_inside (mem : Memory) (bytes start left j : Nat) (pp : PackInfo) (full : Full mem bytes)
    (inside : start + 134 ≤ bytes) (few : j + left ≤ 24) :
    ∃ n t, cellvolts mem start left j pp = some (.ok n,t) ∧ n ≤ 24 := by
  induction left generalizing j pp with
  | zero => exact ⟨j,pp,rfl,few⟩
  | succ left ih =>
    obtain ⟨v,word⟩ := getshort_inside mem bytes (start + (6 + 2 * j)) pp full (by omega)
    obtain ⟨next,written⟩ := putCell_total j (v.toInt / 1000) pp (by simp only [maxCells]; omega)
    rw [cellvolts,bind_ok word,bind_update_some written]
    by_cases empty : v.toInt = 0
    · exact ⟨j,next,by rw [if_pos empty]; rfl,by omega⟩
    · rw [if_neg empty]
      exact ih (j + 1) next (by omega)

theorem getvolts_fits (mem : Memory) (bytes start : Nat) (pp : PackInfo) (full : Full mem bytes)
    (inside : start + 134 ≤ bytes) : ∃ t, getvolts mem start pp = some (.ok (),t) ∧ Fits t := by
  obtain ⟨n,counted,volts,bound⟩ := cellvolts_inside mem bytes start 24 0 pp full inside le_rfl
  obtain ⟨voltage,word118⟩ := getshort_inside mem bytes (start + 118) { counted with cells := n } full (by omega)
  obtain ⟨current,word126⟩ := getshort_inside mem bytes (start + 126)
    { counted with cells := n, voltage := voltage.toNat / 1000 } full (by omega)
  obtain ⟨pp',measured⟩ : ∃ pp' : PackInfo, pp' =
      { counted with cells := n, voltage := voltage.toNat / 1000, current := current.toInt / 1000, ntemps := 2 } :=
    ⟨_,rfl⟩
  have fits : Fits pp' := by
    rw [measured]
    constructor
    · simp only [maxCells]
      omega
    · simp only [maxTemps]
      omega
  obtain ⟨first,word130⟩ := getshort_inside mem bytes (start + 130) pp' full (by omega)
  obtain ⟨one,put0⟩ := putTemp_total 0 (first.toNat / 10) pp' (by decide)
  obtain ⟨second,word132⟩ := getshort_inside mem bytes (start + 132) one full (by omega)
  obtain ⟨two,put1⟩ := putTemp_total 1 (second.toNat / 10) one (by decide)
  refine ⟨two,?_,?_⟩
  · rw [getvolts,bind_ok volts,bind_modify,bind_ok word118,bind_modify,bind_ok word126,bind_modify,← measured,
      bind_ok word130,bind_update_some put0,bind_ok word132,update,put1]
    rfl
  · obtain ⟨cells,ntemps⟩ := putTemp_keeps 0 _ pp' one put0
    obtain ⟨cells',ntemps'⟩ := putTemp_keeps 1 _ one two put1
    constructor
    · rw [cells',cells]
      exact fits.cells
    · rw [ntemps',ntemps]
      exact fits.ntemps

/-! One step of the scan, from signature to signature. -/

/-- What the scan comes to from where no byte of a signature has been seen. -/
inductive Onward (mem : Memory) (bytes i : Nat) (r : BitVec 32) (hits : List Nat) (pp : PackInfo) :
    Option (Except Int (BitVec 32 × List Nat) × PackInfo) → Prop where
  | quiet (none : signature mem bytes i = none) : Onward mem bytes i r hits pp (some (.ok (r,hits),pp))
  | cut {first last : Nat} (found : signature mem bytes i = some (first,last)) (short : bytes ≤ first + 300)
      (ends : last + 1 = bytes) : Onward mem bytes i r hits pp (some (.ok (r,hits),pp))
  | stuck {first last : Nat} (found : signature mem bytes i = some (first,last)) (short : bytes ≤ first + 300)
      (left : last + 1 < bytes) : Onward mem bytes i r hits pp none
  | outside {first last : Nat} (found : signature mem bytes i = some (first,last)) (whole : first + 300 < bytes)
      (past : mem (last + 1) = none) : Onward mem bytes i r hits pp none
  | volts {first last : Nat} {t : PackInfo} (found : signature mem bytes i = some (first,last))
      (whole : first + 300 < bytes) (here : mem (last + 1) = some 2)
      (read : getvolts mem first pp = some (.ok (),t)) (fits : Fits t) :
      Onward mem bytes i r hits pp (some (.ok (set r Got.volt,hits ++ [first]),t))
  | more {first last : Nat} {kind : Byte} (found : signature mem bytes i = some (first,last))
      (whole : first + 300 < bytes) (here : mem (last + 1) = some kind) (other : kind ≠ 2) :
      Onward mem bytes i r hits pp (getdata mem bytes (last + 301) 0 first (noted kind r) (hits ++ [first]) pp)

theorem getdata_onward (mem : Memory) (bytes i start : Nat) (r : BitVec 32) (hits : List Nat) (pp : PackInfo)
    (full : Full mem bytes) : Onward mem bytes i r hits pp (getdata mem bytes i 0 start r hits pp) := by
  cases found : signature mem bytes i with
  | none =>
    rw [getdata_signature mem bytes i start r hits pp full,found]
    exact .quiet found
  | some place =>
    obtain ⟨first,last⟩ := place
    obtain ⟨_,_,inside,_⟩ := signature_some found
    rw [getdata_found mem bytes i start r hits pp full found]
    by_cases whole : first + 300 < bytes
    · rw [if_pos whole]
      cases here : mem (last + 1) with
      | none => exact .outside found whole here
      | some kind =>
        rw [bind_index]
        by_cases volts : kind = 2
        · obtain ⟨t,read,fits⟩ := getvolts_fits mem bytes first pp full (by omega)
          rw [if_pos volts,bind_ok read]
          rw [volts] at here
          exact .volts found whole here read fits
        · rw [if_neg volts]
          exact .more found whole here volts
    · rw [if_neg whole]
      by_cases ends : bytes ≤ last + 1
      · rw [if_pos ends]
        exact .cut found (by omega) (by omega)
      · rw [if_neg ends]
        exact .stuck found (by omega) (by omega)

end Mybmm.JkScan
