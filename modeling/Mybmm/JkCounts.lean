import Mybmm.JkBounds

/-! The cells that jk.c counts. They are those of one record, the first with voltages in
the reply that ends the second loop. -/
namespace Mybmm.JkCounts
open Flags Arrays Cellmon Routine Jk JkBounds

/-- Where the record with voltages begins that a scan comes to. -/
def voltRecord (data : Buffer) (bytes : Nat) : (left i : Nat) → Option Nat
  | 0, _ => none
  | left + 1, i =>
    match signature data bytes i with
    | none => none
    | some (first,last) =>
      if first + 300 < bytes then
        match data[last + 1]? with
        | none => none
        | some kind => if kind = 2 then some first else voltRecord data bytes left (last + 301)
      else none

def record (data : Buffer) (reply : List Byte) : Option Nat :=
  voltRecord (received data reply) (readBytes reply) (readBytes reply) 0

def firstCell (data : Buffer) (start : Nat) : BitVec 16 := data[start + 7]?.getD 0 ++ data[start + 6]?.getD 0

/-! One record. -/

private theorem getshort_some {mem : JkScan.Memory} {k : Nat} {pp t : PackInfo} {v : BitVec 16}
    (read : JkScan.getshort mem k pp = some (.ok v,t)) : v = (mem (k + 1)).getD 0 ++ (mem k).getD 0 ∧ t = pp := by
  cases low : mem k with
  | none => simp [JkScan.getshort,low,bind,index] at read
  | some lo =>
    cases high : mem (k + 1) with
    | none => simp [JkScan.getshort,low,high,bind,index] at read
    | some hi =>
      rw [JkScan.getshort,low,bind_index,high,bind_index] at read
      obtain ⟨same,rfl⟩ := Prod.mk.inj (Option.some.inj read)
      exact ⟨(Except.ok.inj same).symm,rfl⟩

private theorem cellvolts_ge {mem : JkScan.Memory} {start left j n : Nat} {pp t : PackInfo}
    (done : JkScan.cellvolts mem start left j pp = some (.ok n,t)) : j ≤ n := by
  induction left generalizing j pp with
  | zero =>
    obtain ⟨same,_⟩ := Prod.mk.inj (Option.some.inj done)
    exact (Except.ok.inj same).le
  | succ left ih =>
    rw [JkScan.cellvolts] at done
    obtain ⟨v,_,_,stored⟩ := bind_ok_inv done
    obtain ⟨_,next,_,rest⟩ := bind_ok_inv stored
    split at rest
    · obtain ⟨same,_⟩ := Prod.mk.inj (Option.some.inj rest)
      exact (Except.ok.inj same).le
    · exact (Nat.le_succ j).trans (ih rest)

/-- No cells are counted when the first has no voltage, and only then. -/
private theorem cellvolts_zero_iff {mem : JkScan.Memory} {start n : Nat} {pp t : PackInfo}
    (done : JkScan.cellvolts mem start 24 0 pp = some (.ok n,t)) :
    n = 0 ↔ (mem (start + 7)).getD 0 ++ (mem (start + 6)).getD 0 = (0 : BitVec 16) := by
  rw [JkScan.cellvolts] at done
  obtain ⟨v,_,word,stored⟩ := bind_ok_inv done
  obtain ⟨rfl,_⟩ := getshort_some word
  obtain ⟨_,next,_,rest⟩ := bind_ok_inv stored
  split at rest
  · rename_i empty
    obtain ⟨same,_⟩ := Prod.mk.inj (Option.some.inj rest)
    exact iff_of_true (Except.ok.inj same).symm (BitVec.eq_of_toInt_eq empty)
  · rename_i value
    have more := cellvolts_ge rest
    exact iff_of_false (by omega) fun zero => value (congrArg BitVec.toInt zero)

private theorem preserves_getshort {P : PackInfo → Prop} (mem : JkScan.Memory) (k : Nat) :
    Preserves P (JkScan.getshort mem k) :=
  preserves_bind (preserves_index _) fun _ => preserves_bind (preserves_index _) fun _ => preserves_pure _

private theorem getvolts_cells {mem : JkScan.Memory} {start : Nat} {pp t : PackInfo}
    (done : JkScan.getvolts mem start pp = some (.ok (),t)) :
    t.cells = 0 ↔ (mem (start + 7)).getD 0 ++ (mem (start + 6)).getD 0 = (0 : BitVec 16) := by
  rw [JkScan.getvolts] at done
  obtain ⟨n,mid,counted,stored⟩ := bind_ok_inv done
  rw [bind_modify] at stored
  -- What follows leaves the count alone.
  have kept (i : Nat) (v : ℚ) : Preserves (fun pp : PackInfo => pp.cells = n) (update (putTemp i v)) :=
    preserves_update fun pp t same written => (putTemp_keeps i v pp t written).1.trans same
  have rest : t.cells = n := by
    suffices keeps : Preserves (fun pp : PackInfo => pp.cells = n) _ from keeps _ _ t rfl stored
    refine preserves_bind (preserves_getshort mem _) fun v => preserves_bind (preserves_modify fun _ same => same) fun _ => ?_
    refine preserves_bind (preserves_getshort mem _) fun v => preserves_bind (preserves_modify fun _ same => same) fun _ => ?_
    refine preserves_bind (preserves_getshort mem _) fun v => preserves_bind (kept 0 _) fun _ => ?_
    exact preserves_bind (preserves_getshort mem _) fun v => kept 1 _
  rw [rest,Nat.cast_eq_zero]
  exact cellvolts_zero_iff counted

/-! The scan, and the loops around it. -/

private theorem voltRecord_found {data : Buffer} {bytes i first last : Nat} {kind : Byte} (left : Nat)
    (found : signature data bytes i = some (first,last)) (whole : first + 300 < bytes)
    (here : data[last + 1]? = some kind) : voltRecord data bytes (left + 1) i =
      if kind = 2 then some first else voltRecord data bytes left (last + 301) := by
  simp only [voltRecord,found,if_pos whole,here]

private theorem volts_listed (data : Buffer) (bytes left i : Nat) :
    2 ∈ kinds data bytes left i ↔ (voltRecord data bytes left i).isSome := by
  induction left generalizing i with
  | zero => simp [kinds,voltRecord]
  | succ left ih =>
    cases found : signature data bytes i with
    | none => simp [kinds,voltRecord,found]
    | some place =>
      obtain ⟨first,last⟩ := place
      by_cases whole : first + 300 < bytes
      · cases here : data[last + 1]? with
        | none => simp [kinds,voltRecord,found,whole,here]
        | some kind =>
          rw [kinds_found left found whole here,voltRecord_found left found whole here]
          by_cases volts : kind = 2
          · simp [volts]
          · rw [if_neg volts,if_neg volts,List.mem_cons,← ih]
            exact or_iff_right (Ne.symm volts)
      · simp [kinds,voltRecord,found,whole]

private theorem holds_volts (data : Buffer) (reply : List Byte) : holds data reply 2 = (record data reply).isSome := by
  rw [holds,record,Bool.eq_iff_iff,decide_eq_true_iff]
  exact volts_listed _ _ _ _

private theorem getdata_record {data : Buffer} {bytes left i start place : Nat} {r r' : BitVec 32} {pp t : PackInfo}
    (small : bytes ≤ 2048) (done : getdata data bytes i 0 start r pp = some (.ok r',t))
    (found : voltRecord data bytes left i = some place) :
    ∃ mid, JkScan.getvolts (fun k => data[k]?) place mid = some (.ok (),t) := by
  induction left generalizing i start r with
  | zero => contradiction
  | succ left ih =>
    have onward := JkScan.getdata_onward (fun k => data[k]?) bytes i start r [] pp (buffer_full data bytes small)
    rw [JkScan.getdata_buffer _ _ _ _ _ _ []] at done
    generalize JkScan.getdata (fun k => data[k]?) bytes i 0 start r [] pp = result at onward done
    cases onward with
    | quiet none =>
      rw [voltRecord,show signature data bytes i = Option.none from none] at found
      contradiction
    | @cut first last signed short ends =>
      rw [voltRecord,show signature data bytes i = some (first,last) from signed] at found
      simp only [if_neg (show ¬ first + 300 < bytes by omega)] at found
      contradiction
    | stuck => contradiction
    | outside => contradiction
    | volts signed whole here read fits =>
      rw [voltRecord_found left signed whole here,if_pos rfl] at found
      obtain ⟨_,rfl⟩ := Prod.mk.inj (Option.some.inj done)
      obtain rfl := Option.some.inj found
      exact ⟨pp,read⟩
    | more signed whole here other =>
      rw [voltRecord_found left signed whole here,if_neg other] at found
      rw [← JkScan.getdata_buffer] at done
      exact ih done found

private theorem reply_cells {data : Buffer} {reply : List Byte} {place : Nat} {r : BitVec 32} {pp t : PackInfo}
    (found : record data reply = some place)
    (done : getdata (received data reply) (readBytes reply) 0 0 0 0 pp = some (.ok r,t)) :
    t.cells = 0 ↔ firstCell (received data reply) place = 0 := by
  obtain ⟨mid,read⟩ := getdata_record (Nat.min_le_right _ _) done found
  exact getvolts_cells read

def infoBuffer (info : Nat → Option (List Byte)) : (retries k : Nat) → Buffer → Option Buffer
  | 0, _, data => some data
  | retries + 1, k, data =>
    match info k with
    | none => none
    | some reply =>
      if holds data reply 3 then some (received data reply) else infoBuffer info retries (k + 1) (received data reply)

/-- The first cell of the record that ends the second loop in time. -/
def countedCell (cell : Nat → Option (List Byte)) : (retries k : Nat) → Buffer → Option (BitVec 16)
  | 0, _, _ => none
  | retries + 1, k, data =>
    match cell k with
    | none => countedCell cell retries (k + 1) data
    | some reply =>
      match record data reply with
      | none => countedCell cell retries (k + 1) (received data reply)
      | some place => if retries = 0 then none else some (firstCell (received data reply) place)

private theorem infoTries_buffer {info : Nat → Option (List Byte)} {retries k : Nat} {data : Buffer} {pp t : PackInfo}
    {ending : Except Int Buffer} (done : infoTries info retries k data pp = some (ending,t)) :
    infoBuffer info retries k data = ending.toOption := by
  induction retries generalizing k data pp with
  | zero =>
    obtain ⟨rfl,_⟩ := Prod.mk.inj (Option.some.inj done)
    rfl
  | succ retries ih =>
    rw [infoBuffer]
    cases brought : info k with
    | none =>
      rw [infoTries,brought] at done
      obtain ⟨rfl,_⟩ := Prod.mk.inj (Option.some.inj done)
      rfl
    | some reply =>
      rw [infoTries,brought,bind_some] at done
      rcases reply_cases data reply pp with ⟨_,r,mid,scanned,got,_⟩ | ⟨_,scanned⟩
      · rw [bind_ok scanned,got] at done
        dsimp only
        cases held : holds data reply 3 with
        | true =>
          rw [held] at done
          obtain ⟨rfl,_⟩ := Prod.mk.inj (Option.some.inj done)
          rfl
        | false =>
          rw [held] at done
          exact ih done
      · exact absurd (done.symm.trans (bind_none scanned)) (by simp)

private theorem cellTries_counted {cell : Nat → Option (List Byte)} {retries k : Nat} {data : Buffer} {pp t : PackInfo}
    {v : Int}
    (done : cellTries cell retries k data pp = some (.ok v,t)) :
    (v < 1 ∧ countedCell cell retries k data = none) ∨
      ∃ word, 1 ≤ v ∧ countedCell cell retries k data = some word ∧ (t.cells = 0 ↔ word = 0) := by
  induction retries generalizing k data pp with
  | zero =>
    obtain ⟨same,_⟩ := Prod.mk.inj (Option.some.inj done)
    obtain rfl := Except.ok.inj same
    exact Or.inl ⟨by decide,rfl⟩
  | succ retries ih =>
    rw [countedCell]
    rw [cellTries] at done
    cases brought : cell k with
    | none =>
      rw [brought] at done
      exact ih done
    | some reply =>
      rw [brought] at done
      rcases reply_cases data reply pp with ⟨_,r,mid,scanned,_,got,_⟩ | ⟨_,scanned⟩
      · have next := (bind_ok scanned).symm.trans done
        rw [got,holds_volts] at next
        cases found : record data reply with
        | none =>
          rw [found] at next
          simpa only [found] using ih next
        | some place =>
          rw [found] at next
          simp only [found]
          obtain ⟨same,rfl⟩ := Prod.mk.inj (Option.some.inj next)
          obtain rfl := Except.ok.inj same
          by_cases late : retries = 0
          · exact Or.inl ⟨by omega,if_pos late⟩
          · exact Or.inr ⟨_,by omega,if_neg late,reply_cells found scanned⟩
      · exact absurd (done.symm.trans (bind_none scanned)) (by simp)

/-- The first cell of the record that a successful read ends with. -/
def lastCell (data : Buffer) (replies : Replies) : Option (BitVec 16) :=
  (infoBuffer replies.info 5 0 data).bind fun data =>
    if replies.requested then countedCell replies.cell 5 0 data else none

theorem jkRead_counted {data : Buffer} {replies : Replies} {pp t : PackInfo} {code : Int}
    (returned : returns (jkRead data replies) pp = some (code,t)) :
    (code ≠ 0 ∧ lastCell data replies = none) ∨
      ∃ word, code = 0 ∧ lastCell data replies = some word ∧ (t.cells = 0 ↔ word = 0) := by
  rw [returns,jkRead] at returned
  rcases infoTries_cases replies.info (fun _ => True) 5 0 data pp with ⟨_,heard⟩ | ⟨_,mid,heard⟩ | ⟨held,mid,heard,_⟩
  · rw [bind_none heard] at returned
    contradiction
  · rw [bind_error heard] at returned
    obtain ⟨rfl,_⟩ := Prod.mk.inj (Option.some.inj returned)
    rw [lastCell,infoTries_buffer heard]
    exact Or.inl ⟨by decide,rfl⟩
  · rw [bind_ok heard] at returned
    rw [lastCell,infoTries_buffer heard]
    simp only [Except.toOption,Option.bind_some]
    cases asked : replies.requested with
    | false =>
      rw [asked] at returned
      obtain ⟨rfl,_⟩ := Prod.mk.inj (Option.some.inj returned)
      exact Or.inl ⟨by decide,rfl⟩
    | true =>
      rw [asked,if_pos rfl,bind_some] at returned
      rcases cellTries_cases replies.cell 5 0 held mid with ⟨_,v,u,measured,_⟩ | ⟨_,stuck⟩
      · rw [bind_ok measured] at returned
        rcases cellTries_counted measured with ⟨late,none⟩ | ⟨word,early,found,zero⟩
        · rw [if_pos late] at returned
          obtain ⟨rfl,_⟩ := Prod.mk.inj (Option.some.inj returned)
          exact Or.inl ⟨by decide,none⟩
        · rw [if_neg (by omega)] at returned
          obtain ⟨rfl,rfl⟩ := Prod.mk.inj (Option.some.inj returned)
          exact Or.inr ⟨word,rfl,found,zero⟩
      · rw [bind_none stuck] at returned
        contradiction

end Mybmm.JkCounts
