import Mybmm.JbdBounds
import Mybmm.JbdExchange

/-! What a successful read of a pack over the serial line has received, and whether
all it stores comes from there. -/
namespace Mybmm.JbdComplete
open Config Flags Arrays Cellmon Routine Jbd JbdBounds JbdPackets

/-- `jbd_get_pack` with anything in the place of the bytes that were not received. -/
def jbdGetPackOver (rest : Vector Byte 128) (s : JbdSession) (replies : Replies) : Routine PackInfo Unit := do
  let reply ← orReturn 1 (jbdRw replies jbdCmdHwinfo)
  let data ← index (putAll rest 0 reply)
  modify (hwinfo s data)
  update (serialTemps data)
  let reply ← orReturn 1 (jbdRw replies jbdCmdCellinfo)
  let data ← index (putAll rest 0 reply)
  update (serialCells data)

/-- The code has zeros there. -/
private theorem jbdGetPack_over (s : JbdSession) (replies : Replies) :
    jbdGetPack s replies = jbdGetPackOver (Vector.replicate 128 0) s replies := rfl

/-- The two answers, as long as the counts in the first make them. -/
structure Complete (info volts : List Byte) : Prop where
  temps : 23 + 2 * ntempsByte info ≤ info.length
  cells : 2 * cellsByte info ≤ volts.length

/-- A read that succeeds had both answers complete, and would have come to the same
over any other bytes past them. -/
def Received (s : JbdSession) (replies : Replies) (pp : PackInfo) : Prop :=
  ∀ t, returns (jbdGetPack s replies) pp = some (0,t) →
    ∃ info volts, jbdRw replies jbdCmdHwinfo = some info ∧ jbdRw replies jbdCmdCellinfo = some volts ∧
      Complete info volts ∧ ∀ rest, returns (jbdGetPackOver rest s replies) pp = some (0,t)

/-- The answers fit the buffer, and the counts the arrays of the pack. -/
structure Fitting (info volts : List Byte) : Prop where
  infoFits : info.length ≤ 128
  temps : ntempsByte info ≤ maxTemps
  voltsFit : volts.length ≤ 128
  cells : cellsByte info ≤ maxCells

private theorem putAll_reads {rest data : Vector Byte 128} {reply : List Byte} (held : putAll rest 0 reply = some data)
    (k : Nat)
    (inside : k < reply.length) (bound : k < 128) : data[k] = reply[k] := by
  rw [putAll_getElem held k bound]
  simp [inside]

private theorem serialWords_congr (write : Nat → ℚ → PackInfo → Option PackInfo) (decode : BitVec 16 → ℚ)
    (data other : Vector Byte 128) (base n : Nat) (pp : PackInfo) (inside : base + 2 * n ≤ 128)
    (same : ∀ k, k < base + 2 * n → data[k]? = other[k]?) :
    serialWords write decode data base n 0 pp = serialWords write decode other base n 0 pp := by
  rw [serialWords_inside write decode data base n 0 pp (by omega),
    serialWords_inside write decode other base n 0 pp (by omega)]
  refine congrArg (writeAll write 0 · pp) (List.map_congr_left fun k member => ?_)
  have below : k < n := by
    have range := List.mem_range'.mp member
    omega
  rw [wordAt,wordAt,same (base + 2 * k) (by omega),same (base + 2 * k + 1) (by omega)]

private theorem hwinfo_congr (s : JbdSession) (data other : Vector Byte 128) (pp : PackInfo)
    (same : ∀ k, k < 23 → (bound : k < 128) → data[k] = other[k]) : hwinfo s data pp = hwinfo s other pp := by
  simp only [hwinfo,same 0 (by decide),same 1 (by decide),same 2 (by decide),same 3 (by decide),same 6 (by decide),
    same 7 (by decide),same 12 (by decide),same 13 (by decide),same 14 (by decide),same 15 (by decide),
    same 20 (by decide),same 21 (by decide),same 22 (by decide)]

private theorem over_eq {rest data other : Vector Byte 128} {s : JbdSession} {replies : Replies} {info volts : List Byte}
    (pp : PackInfo) (first : jbdRw replies jbdCmdHwinfo = some info) (held : putAll rest 0 info = some data)
    (second : jbdRw replies jbdCmdCellinfo = some volts) (held' : putAll rest 0 volts = some other) :
    jbdGetPackOver rest s replies pp =
      ((serialTemps data (hwinfo s data pp)).bind (serialCells other)).map fun t => (.ok (),t) := by
  rw [jbdGetPackOver,first,bind_some,held,bind_index,bind_modify]
  cases read : serialTemps data (hwinfo s data pp) with
  | none => exact bind_update_none read
  | some mid =>
    rw [bind_update_some read,second,bind_some,held',bind_index]
    rfl

private theorem fitting_of_zero {s : JbdSession} {replies : Replies} {pp t : PackInfo}
    (done : returns (jbdGetPack s replies) pp = some (0,t)) :
    ∃ info volts, jbdRw replies jbdCmdHwinfo = some info ∧ jbdRw replies jbdCmdCellinfo = some volts ∧
      Fitting info volts := by
  rcases getPack_ends s replies pp with
    ⟨_,ends⟩ | ⟨_,_,_,ends⟩ | ⟨info,volts,_,within,first,second,_⟩
  · simp [returns,ends] at done
  · simp [returns,ends] at done
  · obtain ⟨infoFits,temps,rest⟩ := within info first
    obtain ⟨voltsFit,cells⟩ := rest volts second
    exact ⟨info,volts,first,second,infoFits,temps,voltsFit,cells⟩

private theorem done_of_fitting {replies : Replies} {info volts : List Byte} (s : JbdSession) (pp : PackInfo)
    (first : jbdRw replies jbdCmdHwinfo = some info) (second : jbdRw replies jbdCmdCellinfo = some volts)
    (fitting : Fitting info volts) : ∃ t, returns (jbdGetPack s replies) pp = some (0,t) := by
  have within : SerialWithin replies := by
    intro reply taken
    obtain rfl : info = reply := Option.some.inj (first.symm.trans taken)
    refine ⟨fitting.infoFits,fitting.temps,fun other taken => ?_⟩
    obtain rfl : volts = other := Option.some.inj (second.symm.trans taken)
    exact ⟨fitting.voltsFit,fitting.cells⟩
  rcases getPack_ends s replies pp with
    ⟨outside,_⟩ | ⟨_,missing,_⟩ | ⟨_,_,t,_,_,_,ends,_⟩
  · exact absurd within outside
  · simp [first,second] at missing
  · exact ⟨t,by rw [returns,ends]; rfl⟩

private theorem over_received {replies : Replies} {info volts : List Byte} (s : JbdSession) (pp : PackInfo)
    (first : jbdRw replies jbdCmdHwinfo = some info) (second : jbdRw replies jbdCmdCellinfo = some volts)
    (fitting : Fitting info volts) (complete : Complete info volts) (rest : Vector Byte 128) :
    jbdGetPackOver rest s replies pp = jbdGetPack s replies pp := by
  obtain ⟨infoFits,_,voltsFit,_⟩ := fitting
  obtain ⟨temps,cells⟩ := complete
  obtain ⟨data,held⟩ := putAll_some rest 0 info (by omega)
  obtain ⟨data',held'⟩ := putAll_some (Vector.replicate 128 (0 : Byte)) 0 info (by omega)
  obtain ⟨other,filled⟩ := putAll_some rest 0 volts (by omega)
  obtain ⟨other',filled'⟩ := putAll_some (Vector.replicate 128 (0 : Byte)) 0 volts (by omega)
  have info_same (k : Nat) (inside : k < info.length) (bound : k < 128) : data[k] = data'[k] :=
    (putAll_reads held k inside bound).trans (putAll_reads held' k inside bound).symm
  have volts_same (k : Nat) (inside : k < volts.length) (bound : k < 128) : other[k] = other'[k] :=
    (putAll_reads filled k inside bound).trans (putAll_reads filled' k inside bound).symm
  rw [over_eq pp first held second filled,jbdGetPack_over,over_eq pp first held' second filled']
  have header : hwinfo s data pp = hwinfo s data' pp :=
    hwinfo_congr s data data' pp fun k below bound => info_same k (by omega) bound
  obtain ⟨counted,probes⟩ := hwinfo_counts s info data' held' pp
  have loop : serialTemps data (hwinfo s data' pp) = serialTemps data' (hwinfo s data' pp) := by
    rw [serialTemps,serialTemps,probes,Int.toNat_natCast]
    refine serialWords_congr putTemp ctemp data data' 23 _ _ (by omega) fun k below => ?_
    rw [Vector.getElem?_eq_getElem (by omega),Vector.getElem?_eq_getElem (by omega),info_same k (by omega) (by omega)]
  rw [header,loop]
  cases read : serialTemps data' (hwinfo s data' pp) with
  | none => rfl
  | some mid =>
    have count : mid.cells = cellsByte info := by
      rcases serialTemps_cases data' _ (hwinfo s data' pp) probes with ⟨_,t,ends,same⟩ | ⟨_,stuck⟩
      · obtain rfl : mid = t := Option.some.inj (read.symm.trans ends)
        exact same.1.trans counted
      · simp [read] at stuck
    have tail : serialCells other mid = serialCells other' mid := by
      rw [serialCells,serialCells,count,Int.toNat_natCast]
      refine serialWords_congr putCell millivolts other other' 0 _ _ (by omega) fun k below => ?_
      rw [Vector.getElem?_eq_getElem (by omega),Vector.getElem?_eq_getElem (by omega),volts_same k (by omega) (by omega)]
    rw [Option.bind_some,Option.bind_some,tail]

/-- Successful reads are of complete answers exactly when no pair of answers that
arrive first, and fit, is short. -/
theorem received_iff (s : JbdSession) (replies : Replies) (pp : PackInfo) :
    Received s replies pp ↔
      ∀ info volts reg status reg' status', FirstPacket (replies jbdCmdHwinfo) reg status info →
        FirstPacket (replies jbdCmdCellinfo) reg' status' volts → Fitting info volts → Complete info volts := by
  constructor
  · intro received info volts reg status reg' status' one two fitting
    have first := (jbdRw_eq_some_iff replies jbdCmdHwinfo info).mpr ⟨reg,status,one⟩
    have second := (jbdRw_eq_some_iff replies jbdCmdCellinfo volts).mpr ⟨reg',status',two⟩
    obtain ⟨t,done⟩ := done_of_fitting s pp first second fitting
    obtain ⟨info',volts',first',second',complete,_⟩ := received t done
    obtain rfl : info = info' := Option.some.inj (first.symm.trans first')
    obtain rfl : volts = volts' := Option.some.inj (second.symm.trans second')
    exact complete
  · intro all t done
    obtain ⟨info,volts,first,second,fitting⟩ := fitting_of_zero done
    obtain ⟨reg,status,one⟩ := (jbdRw_eq_some_iff replies jbdCmdHwinfo info).mp first
    obtain ⟨reg',status',two⟩ := (jbdRw_eq_some_iff replies jbdCmdCellinfo volts).mp second
    have complete := all info volts reg status reg' status' one two fitting
    refine ⟨info,volts,first,second,complete,fun rest => ?_⟩
    rw [returns,over_received s pp first second fitting complete rest]
    exact done

def emptyAnswers : Replies := fun _ _ => some (reply 0x03 0 [])

/-- A pack of no volts, no cells and no probes is read from no data at all. -/
theorem empty_answers_read : ¬Received ⟨0⟩ emptyAnswers blankPack := by
  intro received
  have taken (request : Nat) : jbdRw emptyAnswers request = some [] := rfl
  obtain ⟨t,done⟩ := done_of_fitting ⟨0⟩ blankPack (taken jbdCmdHwinfo) (taken jbdCmdCellinfo)
    ⟨by decide,by decide,by decide,by decide⟩
  obtain ⟨info,volts,first,_,complete,_⟩ := received t done
  obtain rfl : [] = info := Option.some.inj ((taken jbdCmdHwinfo).symm.trans first)
  exact absurd complete.temps (by decide)

end Mybmm.JbdComplete
