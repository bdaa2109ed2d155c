import Mybmm.JbdCanGet
import Mybmm.JbdExchange
import Mybmm.JkBounds
import Mybmm.CanData

/-! The four loops of the drivers that ask again, each with its budget, and what they
return when the last try of the budget is the one that is taken. -/
namespace Mybmm.RetryLoops
open Arrays Cellmon Routine Flags Feed Devserver Can Retries

/-! jk.c: the cell data. -/

def cellPhase (requested : Bool) (cell : Nat → Option (List Byte)) (data : Jk.Buffer) : Routine PackInfo Unit := do
  orReturn (-1) (if requested then some () else none)
  let retries ← Jk.cellTries cell 5 0 data
  if retries < 1 then orReturn (-1) none else return ()

theorem jkRead_cellPhase (data : Jk.Buffer) (replies : Jk.Replies) : Jk.jkRead data replies =
    (do let data ← Jk.infoTries replies.info 5 0 data; cellPhase replies.requested replies.cell data) := rfl

def cellBuffer (cell : Nat → Option (List Byte)) (data : Jk.Buffer) : Nat → Jk.Buffer
  | 0 => data
  | k + 1 =>
    match cell k with
    | none => cellBuffer cell data k
    | some reply => Jk.received (cellBuffer cell data k) reply

/-- A failed read is scanned like an empty one. -/
def cellTry (cell : Nat → Option (List Byte)) (data : Jk.Buffer) (k : Nat) : Try Unit :=
  match cell k with
  | none => .refused
  | some reply => if Jk.holds (cellBuffer cell data k) reply 2 then .taken () else .refused

private theorem cellTries_countDown (cell : Nat → Option (List Byte)) (data : Jk.Buffer) (retries k : Nat) (pp : PackInfo)
    (framed : Jk.CellFramed cell retries k (cellBuffer cell data k)) :
    ∃ v got t, Jk.cellTries cell retries k (cellBuffer cell data k) pp = some (.ok v,t) ∧
      countDown (cellTry cell data) retries k = .left v got := by
  induction retries generalizing k pp with
  | zero => exact ⟨-1,none,pp,rfl,rfl⟩
  | succ retries ih =>
    simp only [Jk.CellFramed] at framed
    rw [Jk.cellTries,countDown,cellTry]
    cases brought : cell k with
    | none =>
      have same : cellBuffer cell data (k + 1) = cellBuffer cell data k := by rw [cellBuffer,brought]
      simp only [brought] at framed
      rw [← same] at framed ⊢
      exact ih (k + 1) pp framed
    | some reply =>
      have next : cellBuffer cell data (k + 1) = Jk.received (cellBuffer cell data k) reply := by rw [cellBuffer,brought]
      simp only [brought] at framed
      rcases JkBounds.reply_cases (cellBuffer cell data k) reply pp with ⟨_,r,t,done,_,got,_⟩ | ⟨cut,_⟩
      · simp only [bind_ok done,got]
        cases held : Jk.holds (cellBuffer cell data k) reply 2 with
        | true => exact ⟨retries,some (),t,rfl,rfl⟩
        | false =>
          rw [← next] at framed ⊢
          exact ih (k + 1) t (framed.2 held)
      · exact absurd framed.1 cut

/-! si.c: a frame from a server. -/

/-- What a read returns, and the frame on the stack then. -/
def siTry (read : Int × RawFrame) : Try RawFrame :=
  if read.1 < 0 then .failed else if read.1 = frameSize then .taken read.2 else .refused

/-- What the loop leaves to the caller. The frame that is taken has been copied. -/
def siExit (len : Nat) : Exit RawFrame → Option (Int × Option (List Byte))
  | .failed => some (1,none)
  | .left retries none => some (if retries > 0 then 0 else 1,none)
  | .left retries (some frame) =>
    if 8 < canDlc frame ∨ len < canDlc frame then none
    else some (if retries > 0 then 0 else 1,some (overlay (List.replicate len 0) ((payload frame).take (canDlc frame))))

/-- `si_get_remote_can_data` over any transport. -/
def siGetRemoteCanData (len : Nat) (reads : Nat → Int × RawFrame) : Option (Int × Option (List Byte)) :=
  siExit len (countDown (fun k => siTry (reads k)) 5 0)

def told : Option (Int × Option (List Byte)) → CanData.Answer
  | none => .undefined
  | some (0,some data) => .delivered data
  | some _ => .failed

private theorem remote_countDown (fd : Int) (id : BitVec 32) (len : Nat) (stale : Nat → RawFrame) (retries k : Nat)
    (frame : RawFrame) (feed : Pieces Byte) :
    CanData.remote (CanData.siAccept len) fd id stale retries k frame feed = .undefined ∨
      ∃ reads : Nat → Int × RawFrame, CanData.remote (CanData.siAccept len) fd id stale retries k frame feed =
        told (siExit len (countDown (fun i => siTry (reads i)) retries k)) := by
  induction retries generalizing k frame feed with
  | zero => exact Or.inr ⟨fun _ => (0,[]),rfl⟩
  | succ retries ih =>
    rw [CanData.remote]
    cases read : canIpRead fd id frameSize frame (stale k) feed with
    | blocked => exact Or.inl rfl
    | undefined => exact Or.inl rfl
    | returned bytes next rest =>
      simp only [countDown]
      by_cases failed : bytes < 0
      · refine Or.inr ⟨fun _ => (bytes,next),?_⟩
        simp [siTry,failed,siExit,told]
      · by_cases whole : bytes = frameSize
        · refine Or.inr ⟨fun _ => (bytes,next),?_⟩
          rw [if_neg failed,if_pos whole]
          simp only [siTry,if_neg failed,if_pos whole,siExit,CanData.siAccept]
          by_cases large : 8 < canDlc next ∨ len < canDlc next
          · rw [if_pos large,if_pos large]
            rfl
          · rw [if_neg large,if_neg large]
            by_cases more : 0 < retries
            · simp [more,told]
            · simp [more,told]
        · rw [if_neg failed,if_neg whole]
          rcases ih (k + 1) next rest with lost | ⟨reads,same⟩
          · exact Or.inl lost
          · refine Or.inr ⟨fun i => if i = k then (bytes,next) else reads i,same.trans ?_⟩
            have here : siTry (bytes,next) = .refused := by rw [siTry,if_neg failed,if_neg whole]
            have later (i : Nat) (past : k + 1 ≤ i) : siTry (reads i) = siTry (if i = k then (bytes,next) else reads i) := by
              rw [if_neg (by omega)]
            simp only [if_true,here]
            rw [countDown_congr retries (k + 1) later]

/-- The reads of a CAN server are such a transport. -/
theorem siGetRemoteCanData_refines (fd : Int) (id : BitVec 32) (len : Nat) (stale : Nat → RawFrame) (frame : RawFrame)
    (feed : Pieces Byte) :
    CanData.siGetRemoteCanData fd id len stale frame feed = .undefined ∨
      ∃ reads : Nat → Int × RawFrame, CanData.siGetRemoteCanData fd id len stale frame feed = told (siGetRemoteCanData len reads) :=
  remote_countDown fd id len stale 5 0 frame feed

/-! jbd.c: a packet over the serial line. -/

def packetTry (replies : Nat → Option (List Byte)) (k : Nat) : Try (List Byte) :=
  match replies k with
  | none => .failed
  | some bytes => if (Jbd.jbdVerify (bytes.take 256)).isSome then .taken (bytes.take 256) else .refused

private theorem accepts_packetTry (replies : Nat → Option (List Byte)) :
    Accepts (packetTry replies) 3 ↔ ∃ buf, Jbd.attempt JbdExchange.packetIn replies 3 0 = some buf := by
  have taken_iff (k : Nat) (buf : List Byte) : packetTry replies k = .taken buf ↔
      ∃ bytes, replies k = some bytes ∧ JbdExchange.packetIn bytes = some buf := by
    rw [packetTry]
    cases replies k with
    | none => simp
    | some bytes => cases taken : Jbd.jbdVerify (bytes.take 256) <;> simp [JbdExchange.packetIn,taken]
  have refused_iff (k : Nat) : packetTry replies k = .refused ↔
      ∃ bytes, replies k = some bytes ∧ JbdExchange.packetIn bytes = none := by
    rw [packetTry]
    cases replies k with
    | none => simp
    | some bytes => cases taken : Jbd.jbdVerify (bytes.take 256) <;> simp [JbdExchange.packetIn,taken]
  simp only [JbdPackets.attempt_eq_some_iff,Nat.zero_add,← taken_iff,← refused_iff]
  constructor
  · rintro ⟨j,buf,below,first⟩
    exact ⟨buf,j,below,first.taken,first.before⟩
  · rintro ⟨buf,j,below,taken,before⟩
    exact ⟨j,buf,below,taken,before⟩

/-! What the calls return. -/

inductive Call where
  | jkCells (requested : Bool) (cell : Nat → Option (List Byte)) (data : Jk.Buffer) (pp : PackInfo)
  | siFrame (len : Nat) (reads : Nat → Int × RawFrame)
  | jbdFrame (mem : Nat → Byte) (datalen : Nat) (rounds : Nat → JbdCanGet.Round)
  | jbdPacket (q : JbdExchange.Request) (replies : Nat → Option (List Byte))

def succeeds : Call → Option Bool
  | .jkCells requested cell data pp => (returns (cellPhase requested cell data) pp).map fun r => decide (r.1 = 0)
  | .siFrame len reads => (siGetRemoteCanData len reads).map fun r => decide (r.1 = 0)
  | .jbdFrame mem datalen rounds => some (decide ((JbdCanGet.jbdCanGet true mem datalen rounds).1 = 0))
  | .jbdPacket q replies => (JbdExchange.jbdRw q replies).map fun r => decide (0 ≤ r.1)

/-- One of the tries is accepted, the last one included, before the transport ends the
call. -/
def Accepted : Call → Prop
  | .jkCells requested cell data _ => requested = true ∧ Accepts (cellTry cell data) 5
  | .siFrame _ reads => Accepts (fun k => siTry (reads k)) 5
  | .jbdFrame mem datalen rounds => Accepts (fun k => JbdCanGet.round true mem datalen (rounds k)) 4
  | .jbdPacket _ replies => Accepts (packetTry replies) 3

def Reports (c : Call) : Prop := ∃ success, succeeds c = some success ∧ (success = true ↔ Accepted c)

/-- The two loops that test the counter against zero have to get there before the last
try, and everything that is decoded on the way has to stay inside its arrays. -/
def InTime : Call → Prop
  | .jkCells requested cell data _ => requested = true →
      Jk.CellFramed cell 5 0 data ∧ ∀ a, ¬ First (cellTry cell data) 4 a
  | .siFrame len reads => ∀ j < 5, ∀ frame, First (fun k => siTry (reads k)) j frame →
      j ≠ 4 ∧ canDlc frame ≤ 8 ∧ canDlc frame ≤ len
  | .jbdFrame .. => True
  | .jbdPacket .. => True

private theorem jkCells_iff (requested : Bool) (cell : Nat → Option (List Byte)) (data : Jk.Buffer) (pp : PackInfo) :
    Reports (.jkCells requested cell data pp) ↔ InTime (.jkCells requested cell data pp) := by
  cases requested with
  | false =>
    refine iff_of_true ⟨false,?_,iff_of_false Bool.false_ne_true fun both => Bool.false_ne_true both.1⟩
      fun asked => absurd asked Bool.false_ne_true
    rw [succeeds,cellPhase,returns,if_neg Bool.false_ne_true,bind_error rfl]
    rfl
  | true =>
    simp only [InTime,true_imp_iff]
    rcases JkBounds.cellTries_cases cell 5 0 data pp with ⟨framed,_⟩ | ⟨cut,outside⟩
    · obtain ⟨v,got,t,done,counted⟩ := cellTries_countDown cell data 5 0 pp framed
      change Jk.cellTries cell 5 0 data pp = _ at done
      have code : succeeds (.jkCells true cell data pp) = some (decide (1 ≤ v)) := by
        rw [succeeds,cellPhase,returns,if_pos rfl,bind_some,bind_ok done]
        by_cases late : v < 1
        · have early : ¬ 1 ≤ v := by omega
          rw [if_pos late,decide_eq_false early]
          rfl
        · have early : 1 ≤ v := by omega
          rw [if_neg late,decide_eq_true early]
          rfl
      simp only [Reports,code,Option.some.injEq,exists_eq_left',decide_eq_true_eq,Accepted,true_and,framed]
      rw [← accepts_iff_not_last (cellTry cell data) 4,left_positive_iff (cellTry cell data) 4 counted]
    · refine iff_of_false ?_ fun both => cut both.1
      rintro ⟨success,returned,_⟩
      rw [succeeds,cellPhase,returns,if_pos rfl,bind_some,bind_none outside] at returned
      contradiction

private theorem siFrame_iff (len : Nat) (reads : Nat → Int × RawFrame) : Reports (.siFrame len reads) ↔
    InTime (.siFrame len reads) := by
  have none_before : ∀ i < 0, siTry (reads i) = .refused := by simp
  rcases countDown_ends (fun k => siTry (reads k)) 5 0 none_before with ⟨j,frame,below,first,left⟩ | ⟨none,ends⟩
  · have only (k : Nat) (other : RawFrame) (same : First (fun k => siTry (reads k)) k other) : k = j ∧ other = frame :=
      same.unique first
    have condition : InTime (.siFrame len reads) ↔ j ≠ 4 ∧ canDlc frame ≤ 8 ∧ canDlc frame ≤ len := by
      constructor
      · exact fun inTime => inTime j (by omega) frame first
      · intro good k _ other same
        obtain ⟨rfl,rfl⟩ := only k other same
        exact good
    rw [condition]
    have accepted : Accepted (.siFrame len reads) := ⟨j,frame,by omega,first⟩
    by_cases large : 8 < canDlc frame ∨ len < canDlc frame
    · refine iff_of_false ?_ (by omega)
      rintro ⟨success,returned,_⟩
      rw [succeeds,siGetRemoteCanData,left,siExit,if_pos large] at returned
      contradiction
    · have code : succeeds (.siFrame len reads) = some (decide (j ≠ 4)) := by
        rw [succeeds,siGetRemoteCanData,left,siExit,if_neg large]
        by_cases last : j = 4
        · simp [last]
        · have early : ((0 : Nat) + (5 : Nat) : Int) - 1 - j > 0 := by omega
          rw [if_pos early,decide_eq_true last]
          rfl
      simp only [Reports,code,Option.some.injEq,exists_eq_left',decide_eq_true_eq,accepted,iff_true]
      omega
  · have condition : InTime (.siFrame len reads) := fun j below frame first => absurd ⟨j,frame,below,first⟩ none
    refine iff_of_true ⟨false,?_,iff_of_false Bool.false_ne_true none⟩ condition
    rcases ends with failed | left
    · rw [succeeds,siGetRemoteCanData,failed]
      rfl
    · rw [succeeds,siGetRemoteCanData,left]
      rfl

private theorem jbdFrame_reports (mem : Nat → Byte) (datalen : Nat) (rounds : Nat → JbdCanGet.Round) :
    Reports (.jbdFrame mem datalen rounds) := by
  rcases JbdCanGet.jbdCanGet_ends true mem datalen rounds with ⟨j,got,below,first,ends⟩ | ⟨none,ends⟩
  · exact ⟨true,by simp [succeeds,ends],iff_of_true rfl ⟨j,got,below,first⟩⟩
  · exact ⟨false,by simp [succeeds,ends],iff_of_false Bool.false_ne_true none⟩

private theorem jbdPacket_reports (q : JbdExchange.Request) (replies : Nat → Option (List Byte)) :
    Reports (.jbdPacket q replies) := by
  have accepted : Accepted (.jbdPacket q replies) ↔ ∃ buf, Jbd.attempt JbdExchange.packetIn replies 3 0 = some buf :=
    accepts_packetTry replies
  rcases JbdExchange.tries_ends q replies 3 0 ⟨[],q.data,[]⟩ with ⟨none,after,ends,_⟩ | ⟨buf,payload,after,some,ends,_⟩
  · refine ⟨false,?_,iff_of_false Bool.false_ne_true ?_⟩
    · rw [succeeds,JbdExchange.jbdRw,ends]
      rfl
    · rw [accepted,none]
      simp
  · refine ⟨true,?_,iff_of_true rfl (accepted.mpr ⟨buf,some⟩)⟩
    rw [succeeds,JbdExchange.jbdRw,ends]
    simp

/-- A call reports what happened exactly when it is in time. -/
theorem reports_iff (c : Call) : Reports c ↔ InTime c := by
  cases c with
  | jkCells requested cell data pp => exact jkCells_iff requested cell data pp
  | siFrame len reads => exact siFrame_iff len reads
  | jbdFrame mem datalen rounds => exact iff_of_true (jbdFrame_reports mem datalen rounds) trivial
  | jbdPacket q replies => exact iff_of_true (jbdPacket_reports q replies) trivial

/-- The server answers at the fifth try. -/
theorem last_try_lost :
    ¬ Reports (.siFrame 8 fun k => if k < 4 then (0,List.replicate 16 0) else (16,List.replicate 16 0)) := by
  rw [siFrame_iff]
  intro inTime
  have first : First (fun k => siTry (if k < 4 then (0,List.replicate 16 0) else (16,List.replicate 16 0))) 4
      (List.replicate 16 0) := by
    constructor
    · rfl
    · intro i before
      simp only [if_pos before]
      rfl
  exact (inTime 4 (by decide) _ first).1 rfl

end Mybmm.RetryLoops
