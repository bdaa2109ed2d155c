import Mybmm.Support.Machine
import Mybmm.CanData

/-! si.c: what the driver gets is what its thread has kept, and the thread forgets
only when it comes round while the session is closed. The passes of the thread, the
opens and the closes come in any order; a get changes nothing and is asked for in
every state reached. -/
namespace Mybmm.SiFreshness
open Arrays Machine Devserver Can CanData

/-- The session, with what its thread has received since it was last opened, the
newest first. -/
structure Line where
  session : SiSession
  isOpen : Bool
  received : List (BitVec 32 × Vector Byte 8)

/-- An open and a pass come with what the transport returns. -/
inductive Event where
  | siOpen (r : Int)
  | siClose
  | siThread (read : Outcome Results)

def arrived : Outcome Results → Option (BitVec 32 × Vector Byte 8)
  | .returned r frame _ =>
    if r = frameSize ∧ 0x300 ≤ canId frame ∧ canId frame ≤ 0x30a then some (canId frame,frameData frame) else none
  | _ => none

def step (s : Line) : Event → Option Line
  | .siOpen r => some (if r = 0 then { s with isOpen := true, received := [] } else s)
  | .siClose => some { s with isOpen := false }
  | .siThread read => some
    (if s.isOpen then { s with session := siThread s.session read, received := (arrived read).toList ++ s.received }
    else { s with session := { s.session with bitmap := 0 } })

def siNew : Line := ⟨⟨0,Vector.replicate 16 (Vector.replicate 8 0)⟩,false,[]⟩

/-- Whatever is got is the latest of its kind since the session was opened. -/
def Fresh (s : Line) : Prop :=
  ∀ id len data, siGetLocalCanData id len (fun _ => s.session) = .delivered data →
    ∃ payload, s.received.lookup id = some payload ∧ data = payload.toList.take (min len 8)

/-- A session is opened with nothing kept. -/
def Emptied (s : Line) (event : Event) : Prop := event = .siOpen 0 → s.session.bitmap = 0

/-! A get from one state. -/

private theorem mask_zero_iff (bits : BitVec 32) (k : Nat) :
    bits &&& ((1 : BitVec 16) <<< k).setWidth 32 = 0 ↔ (k < 16 → bits.getLsbD k = false) := by
  constructor
  · intro empty small
    have bit := congrArg (fun v : BitVec 32 => v.getLsbD k) empty
    have wide : k < 32 := by omega
    simpa [small,wide] using bit
  · intro clear
    refine BitVec.eq_of_getLsbD_eq fun i below => ?_
    by_cases here : i = k
    · subst here
      by_cases small : i < 16 <;> simp [small,clear]
    · have apart : k ≤ i → i - k ≠ 0 := by omega
      simpa using fun _ _ _ after => apart after

private theorem siLocal_delivers (id : BitVec 32) (len : Nat) (s : SiSession) (retries k : Nat) (data : List Byte)
    (got : siLocal id len (fun _ => s) retries k = .delivered data) :
    0x300 ≤ id ∧ s.bitmap.getLsbD (id.toNat - 0x300) = true ∧
      ∃ payload, s.messages[id.toNat - 0x300]? = some payload ∧ data = payload.toList.take (min len 8) := by
  induction retries generalizing k with
  | zero => simp [siLocal] at got
  | succ retries ih =>
    by_cases outside : id < 0x300 ∨ 32 ≤ id.toNat - 0x300
    · rw [siLocal,if_pos outside] at got
      contradiction
    rw [siLocal,if_neg outside] at got
    dsimp only at got
    by_cases clear : s.bitmap &&& ((1 : BitVec 16) <<< (id.toNat - 0x300)).setWidth 32 = 0
    · rw [if_pos clear] at got
      exact ih _ got
    rw [if_neg clear] at got
    have marked : s.bitmap.getLsbD (id.toNat - 0x300) = true := by
      by_contra unmarked
      exact clear ((mask_zero_iff _ _).mpr fun _ => Bool.not_eq_true _ ▸ unmarked)
    cases kept : s.messages[id.toNat - 0x300]? with
    | none => simp [kept] at got
    | some payload =>
      rw [kept] at got
      exact ⟨BitVec.not_lt.mp fun low => outside (Or.inl low),marked,payload,rfl,(Answer.delivered.inj got).symm⟩

private theorem get_marked (s : SiSession) (k : Nat) (payload : Vector Byte 8) (marked : s.bitmap.getLsbD k = true)
    (kept : s.messages[k]? = some payload) :
    siGetLocalCanData (BitVec.ofNat 32 (0x300 + k)) 8 (fun _ => s) = .delivered payload.toList := by
  have small : k < 16 := (Vector.getElem?_eq_some_iff.mp kept).1
  have position : (BitVec.ofNat 32 (0x300 + k)).toNat = 0x300 + k := by
    rw [BitVec.toNat_ofNat]
    omega
  have inside : ¬ (BitVec.ofNat 32 (0x300 + k) < 0x300 ∨ 32 ≤ (BitVec.ofNat 32 (0x300 + k)).toNat - 0x300) := by
    rw [BitVec.lt_def,position]
    simp
    omega
  have idx : (BitVec.ofNat 32 (0x300 + k)).toNat - 0x300 = k := by omega
  have found : ¬ s.bitmap &&& ((1 : BitVec 16) <<< k).setWidth 32 = 0 := by
    intro empty
    rw [(mask_zero_iff _ _).mp empty small] at marked
    contradiction
  rw [siGetLocalCanData,siLocal,if_neg inside]
  dsimp only
  rw [idx,if_neg found,kept]
  simp only
  rw [List.take_of_length_le (by simp)]

/-! The invariant: a bit stands for the latest frame of its kind. -/

def Kept (s : Line) : Prop :=
  ∀ k, s.session.bitmap.getLsbD k = true → ∃ payload,
    s.session.messages[k]? = some payload ∧ s.received.lookup (BitVec.ofNat 32 (0x300 + k)) = some payload

private theorem fresh_of_kept (s : Line) (kept : Kept s) : Fresh s := by
  intro id len data got
  obtain ⟨low,marked,payload,stored,rfl⟩ := siLocal_delivers id len s.session 5 0 data got
  obtain ⟨latest,held,found⟩ := kept _ marked
  have position : BitVec.ofNat 32 (0x300 + (id.toNat - 0x300)) = id := by
    have := BitVec.le_def.mp low
    rw [Nat.add_sub_cancel' (by simpa using this),BitVec.ofNat_toNat,BitVec.setWidth_eq]
  rw [position] at found
  exact ⟨payload,by rw [found,← held,stored],rfl⟩

private theorem fresh_opened (s : Line) (kept : Kept s) (fresh : Fresh { s with isOpen := true, received := [] }) :
    s.session.bitmap = 0 := by
  refine BitVec.eq_of_getLsbD_eq fun k _ => ?_
  by_contra marked
  have marked : s.session.bitmap.getLsbD k = true := by simpa using marked
  obtain ⟨payload,stored,_⟩ := kept k marked
  obtain ⟨_,none,_⟩ := fresh _ _ _ (get_marked s.session k payload marked stored)
  contradiction

private theorem siThread_kept (s : Line) (read : Outcome Results) (kept : Kept s) :
    Kept { s with session := siThread s.session read, received := (arrived read).toList ++ s.received } := by
  cases read with
  | blocked => exact kept
  | undefined => exact kept
  | returned r frame rest =>
    by_cases failed : r < 0
    · intro k marked
      simp [siThread,failed] at marked
    by_cases whole : r = frameSize
    swap
    · rw [siThread,if_neg failed,if_pos whole,arrived,if_neg fun all => whole all.1]
      exact kept
    by_cases outside : canId frame < 0x300 ∨ 0x30a < canId frame
    · rw [siThread,if_neg failed,if_neg (not_not.mpr whole),if_pos outside,arrived,if_neg ?none]
      case none =>
        rintro ⟨_,low,high⟩
        exact outside.elim (BitVec.not_lt.mpr low) (BitVec.not_lt.mpr high)
      exact kept
    obtain ⟨low,high⟩ := not_or.mp outside
    rw [BitVec.not_lt] at low high
    obtain ⟨idx,back,position,small⟩ :
        ∃ idx, (canId frame).toNat - 0x300 = idx ∧ canId frame = BitVec.ofNat 32 (0x300 + idx) ∧ idx < 16 := by
      have above := BitVec.le_def.mp low
      have below := BitVec.le_def.mp high
      simp only [BitVec.reduceToNat] at above below
      refine ⟨(canId frame).toNat - 0x300,rfl,?_,by omega⟩
      rw [Nat.add_sub_cancel' above,BitVec.ofNat_toNat,BitVec.setWidth_eq]
    rw [siThread,if_neg failed,if_neg (not_not.mpr whole),if_neg outside,arrived,if_pos ⟨whole,low,high⟩]
    dsimp only
    rw [back]
    intro k marked
    by_cases here : k = idx
    · subst here
      exact ⟨frameData frame,by simp [put,small],by simp [position]⟩
    · have older : s.session.bitmap.getLsbD k = true := by
        simp only [BitVec.getLsbD_or,Bool.or_eq_true] at marked
        refine marked.resolve_right fun added => ?_
        simp at added
        omega
      obtain ⟨payload,stored,found⟩ := kept k older
      have inside : k < 16 := (Vector.getElem?_eq_some_iff.mp stored).1
      refine ⟨payload,?_,?_⟩
      · simpa [put,small,Vector.getElem?_set_ne small (Ne.symm here)] using stored
      · have apart : (BitVec.ofNat 32 (0x300 + k) == canId frame) = false := by
          rw [beq_eq_false_iff_ne,position]
          intro same
          have same := congrArg BitVec.toNat same
          simp only [BitVec.toNat_ofNat] at same
          omega
        simpa [List.lookup_cons,apart] using found

theorem step_kept (s : Line) (event : Event) (next : Line) (kept : Kept s) (emptied : Emptied s event)
    (taken : step s event = some next) : Kept next := by
  cases event with
  | siOpen r =>
    obtain rfl := Option.some.inj taken
    split
    · rename_i done
      subst done
      intro k marked
      rw [emptied rfl] at marked
      simp at marked
    · exact kept
  | siClose =>
    obtain rfl := Option.some.inj taken
    exact kept
  | siThread read =>
    obtain rfl := Option.some.inj taken
    split
    · exact siThread_kept s read kept
    · intro k marked
      simp at marked

private theorem siNew_kept : Kept siNew := by
  intro k marked
  simp [siNew] at marked

/-- In a run every state reached is fresh exactly when every successful open is one
with nothing kept. -/
theorem fresh_iff (events : List Event) :
    (∀ visit ∈ visits step siNew events, ∀ next, step visit.1 visit.2 = some next → Fresh next) ↔
      ∀ visit ∈ visits step siNew events, Emptied visit.1 visit.2 := by
  refine visits_iff_while step Kept (fun s event => ∀ next, step s event = some next → Fresh next) Emptied ?same
    step_kept events siNew siNew_kept
  case same =>
    intro s event kept
    constructor
    · rintro fresh rfl
      exact fresh_opened s kept (fresh _ rfl)
    · exact fun emptied next taken => fresh_of_kept next (step_kept s event next kept emptied taken)

/-! Closed and opened again before the thread comes round. -/

def gridPower : RawFrame := [0x00,0x03,0,0,8,0,0,0,1,2,3,4,5,6,7,8]

def reopening : List Event := [.siOpen 0,.siThread (.returned 16 gridPower []),.siClose,.siOpen 0]

theorem reopening_stale :
    ¬ ∀ visit ∈ visits step siNew reopening, ∀ next, step visit.1 visit.2 = some next → Fresh next := by
  let s : Line := ⟨siThread siNew.session (.returned 16 gridPower []),false,[(0x300,frameData gridPower)]⟩
  let reopened : Line := { s with isOpen := true, received := [] }
  intro fresh
  have last : (s,Event.siOpen 0) ∈ visits step siNew reopening := by
    refine List.mem_of_getElem? (i := 3) ?_
    rfl
  have got : siGetLocalCanData 0x300 8 (fun _ => reopened.session) = .delivered [1,2,3,4,5,6,7,8] := by decide
  obtain ⟨_,none,_⟩ := fresh _ last reopened rfl 0x300 8 _ got
  contradiction

end Mybmm.SiFreshness
