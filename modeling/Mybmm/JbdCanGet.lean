import Mybmm.JbdPackets
import Mybmm.Support.Retries

/-! `jbd_can_get` with everything it asks of the transport. The buffer is cleared before
each read, and a read may bring less than fills it. -/
namespace Mybmm.JbdCanGet
open Arrays Cellmon Jbd JbdPackets Retries

/-- What `write` returns and what `read` brings, unless it fails. -/
structure Round where
  sent : Int
  reply : Option (List Byte)

/-- What the last read brought, and the caller's memory then. -/
structure Received where
  bytes : List Byte
  data : Nat → Byte

def readInto (mem : Nat → Byte) (datalen : Nat) (bytes : List Byte) : Received where
  bytes := bytes.take datalen
  data i := if i < datalen then bytes[i]?.getD 0 else mem i

def frameAt (data : Nat → Byte) : Frame := Vector.ofFn fun i => data i

def round (chk : Bool) (mem : Nat → Byte) (datalen : Nat) (r : Round) : Try Received :=
  if r.sent < 0 then .failed else
  match r.reply with
  | none => .failed
  | some bytes =>
    let got := readInto mem datalen bytes
    if !chk then .taken got
    else if (jbdCanVerify (frameAt got.data)).isSome then .taken got
    else .refused

def jbdCanGet (chk : Bool) (mem : Nat → Byte) (datalen : Nat) (rounds : Nat → Round) : Int × Option Received :=
  match tryAndCount (fun k => round chk mem datalen (rounds k)) 3 0 with
  | .failed => (1,none)
  | .left retries got => (if retries < 0 then 1 else 0,got)

/-- A call succeeds exactly when one of four rounds is taken. -/
theorem jbdCanGet_ends (chk : Bool) (mem : Nat → Byte) (datalen : Nat) (rounds : Nat → Round) :
    (∃ j got, j < 4 ∧ First (fun k => round chk mem datalen (rounds k)) j got ∧
        jbdCanGet chk mem datalen rounds = (0,some got)) ∨
      (¬ Accepts (fun k => round chk mem datalen (rounds k)) 4 ∧ jbdCanGet chk mem datalen rounds = (1,none)) := by
  rw [jbdCanGet,tryAndCount_eq]
  rcases countDown_ends (fun k => round chk mem datalen (rounds k)) 4 0 (by simp) with
    ⟨j,got,below,first,left⟩ | ⟨none,failed | left⟩
  · refine Or.inl ⟨j,got,by omega,first,?_⟩
    rw [left]
    simp only [Prod.mk.injEq,and_true]
    rw [if_neg (by push_cast; omega)]
  · rw [failed]
    exact Or.inr ⟨by simpa using none,rfl⟩
  · rw [left]
    exact Or.inr ⟨by simpa using none,rfl⟩

/-! The answers of the reads of a pack. -/

def brought (r : Round) : Option (List Byte) := if r.sent < 0 then none else r.reply

private theorem frameAt_eight (mem : Nat → Byte) (bytes : List Byte) :
    frameAt (readInto mem 8 bytes).data = padded bytes := by
  apply Vector.ext
  intro i inside
  simp [frameAt,readInto,padded]

/-- The check on a frame, in which the bytes that were not delivered are zeros. -/
def Passes (bytes : List Byte) : Prop :=
  wordAt (padded bytes) 6 = 0 ∨ wordAt (padded bytes) 6 = jbdCanCrc (padded bytes)

instance (bytes : List Byte) : Decidable (Passes bytes) := inferInstanceAs (Decidable (_ ∨ _))

private theorem jbdCanVerify_padded (bytes : List Byte) :
    jbdCanVerify (padded bytes) = if Passes bytes then some (padded bytes) else none := rfl

private theorem round_eight (mem : Nat → Byte) (r : Round) : round true mem 8 r =
    match brought r with
    | none => .failed
    | some bytes => if Passes bytes then .taken (readInto mem 8 bytes) else .refused := by
  rw [round,brought]
  by_cases failed : r.sent < 0
  · rw [if_pos failed,if_pos failed]
  · rw [if_neg failed,if_neg failed]
    cases r.reply with
    | none => rfl
    | some bytes =>
      simp only [frameAt_eight,jbdCanVerify_padded]
      by_cases passes : Passes bytes <;> simp [passes]

private theorem first_iff (mem : Nat → Byte) (rounds : Nat → Round) (j : Nat) (got : Received) :
    First (fun k => round true mem 8 (rounds k)) j got ↔
      (∃ bytes, brought (rounds j) = some bytes ∧ Passes bytes ∧ got = readInto mem 8 bytes) ∧
        ∀ i < j, ∃ bytes, brought (rounds i) = some bytes ∧ ¬ Passes bytes := by
  have taken_iff : round true mem 8 (rounds j) = .taken got ↔
      ∃ bytes, brought (rounds j) = some bytes ∧ Passes bytes ∧ got = readInto mem 8 bytes := by
    rw [round_eight]
    cases brought (rounds j) with
    | none => simp
    | some bytes => by_cases passes : Passes bytes <;> simp [passes,eq_comm]
  have refused_iff (i : Nat) : round true mem 8 (rounds i) = .refused ↔
      ∃ bytes, brought (rounds i) = some bytes ∧ ¬ Passes bytes := by
    rw [round_eight]
    cases brought (rounds i) with
    | none => simp
    | some bytes => by_cases passes : Passes bytes <;> simp [passes]
  constructor
  · intro first
    exact ⟨taken_iff.mp first.taken,fun i below => (refused_iff i).mp (first.before i below)⟩
  · rintro ⟨taken,before⟩
    exact ⟨taken_iff.mpr taken,fun i below => (refused_iff i).mpr (before i below)⟩

theorem jbdCanGet_refines (mem : Nat → Byte) (id : Nat) (rounds : Nat → Round) :
    (jbdCanGet true mem 8 rounds).2.map (fun got => frameAt got.data) =
      jbdCanGetCrc (fun _ k => brought (rounds k)) id := by
  refine Option.ext fun frame => ?_
  have abstract : jbdCanGetCrc (fun _ k => brought (rounds k)) id = some frame ↔
      ∃ j got, j < 4 ∧ First (fun k => round true mem 8 (rounds k)) j got ∧ frameAt got.data = frame := by
    rw [jbdCanGetCrc,attempt_eq_some_iff]
    simp only [Nat.zero_add,jbdCanVerify_padded,ite_eq_right_iff,Option.ite_none_right_eq_some,Option.some.injEq,
      reduceCtorEq,imp_false,first_iff]
    constructor
    · rintro ⟨j,below,⟨bytes,here,passes,same⟩,before⟩
      exact ⟨j,readInto mem 8 bytes,below,⟨⟨bytes,here,passes,rfl⟩,before⟩,(frameAt_eight mem bytes).trans same⟩
    · rintro ⟨j,_,below,⟨⟨bytes,here,passes,rfl⟩,before⟩,same⟩
      exact ⟨j,below,⟨bytes,here,passes,(frameAt_eight mem bytes).symm.trans same⟩,before⟩
  rw [abstract]
  rcases jbdCanGet_ends true mem 8 rounds with ⟨j,got,below,first,ends⟩ | ⟨none,ends⟩
  · rw [ends,Option.map_some,Option.some.injEq]
    constructor
    · intro same
      exact ⟨j,got,below,first,same⟩
    · rintro ⟨k,other,_,taken,same⟩
      rw [(first.unique taken).2]
      exact same
  · rw [ends]
    simp only [Option.map_none,reduceCtorEq,false_iff]
    rintro ⟨j,got,below,first,_⟩
    exact none ⟨j,got,below,first⟩

/-! Reads that bring too little. -/

/-- A good frame: all of it delivered, and the trailer zero or the checksum. -/
structure Good (got : Received) : Prop where
  whole : got.bytes.length = 8
  trailer : getshort (got.data 6) (got.data 7) = 0 ∨ getshort (got.data 6) (got.data 7) = jbdCanCrc (frameAt got.data)

/-- A short reply that passes for a frame: with no trailer at all, or with half a
trailer that zeros make up for. -/
def Mistaken (bytes : List Byte) : Prop :=
  bytes.length ≤ 6 ∨ bytes.length = 7 ∧ (bytes[6]? = some 0 ∨ bytes[6]?.map (getshort · 0) = some (jbdCanCrc (padded bytes)))

private theorem getshort_zero_iff (b : Byte) : getshort b 0 = 0 ↔ b = 0 := by
  constructor
  · intro zero
    have high := bytes_getshort b 0
    rw [zero] at high
    exact (List.cons.inj high).1.symm
  · rintro rfl
    rfl

private theorem mistaken_iff (bytes : List Byte) : Mistaken bytes ↔ bytes.length < 8 ∧ Passes bytes := by
  have trailer : wordAt (padded bytes) 6 = getshort (bytes[6]?.getD 0) (bytes[7]?.getD 0) := by simp [wordAt,padded]
  rw [Mistaken,Passes,trailer]
  rcases Nat.lt_trichotomy bytes.length 7 with less | seven | more
  · have none6 : bytes[6]? = none := List.getElem?_eq_none (by omega)
    have none7 : bytes[7]? = none := List.getElem?_eq_none (by omega)
    refine iff_of_true (Or.inl (by omega)) ⟨by omega,Or.inl ?_⟩
    rw [none6,none7]
    rfl
  · have some6 : bytes[6]? = some bytes[6] := List.getElem?_eq_getElem (by omega)
    have none7 : bytes[7]? = none := List.getElem?_eq_none (by omega)
    have longer : ¬ 7 ≤ 6 := by decide
    have shorter : 7 < 8 := by decide
    simp only [some6,none7,longer,seven,shorter,false_or,true_and,Option.getD_some,Option.getD_none,Option.map_some,
      Option.some.injEq,getshort_zero_iff]
  · have longer : ¬ (bytes.length ≤ 6 ∨ bytes.length = 7 ∧
        (bytes[6]? = some 0 ∨ bytes[6]?.map (getshort · 0) = some (jbdCanCrc (padded bytes)))) := by
      rintro (few | ⟨seven,_⟩) <;> omega
    exact iff_of_false longer fun both => absurd both.1 (by omega)

/-- Only good frames count exactly when no reply that is mistaken for one comes ahead
of every frame that passes and every failure. -/
theorem good_iff (mem : Nat → Byte) (rounds : Nat → Round) :
    (∀ got, jbdCanGet true mem 8 rounds = (0,some got) → Good got) ↔
      ∀ j < 4, ∀ bytes, brought (rounds j) = some bytes → Mistaken bytes →
        ∃ i < j, ∀ other, brought (rounds i) = some other → Passes other := by
  constructor
  · intro good j below bytes here mistaken
    obtain ⟨short,passes⟩ := (mistaken_iff bytes).mp mistaken
    by_contra earlier
    push Not at earlier
    have first := (first_iff mem rounds j (readInto mem 8 bytes)).mpr ⟨⟨bytes,here,passes,rfl⟩,earlier⟩
    rcases jbdCanGet_ends true mem 8 rounds with ⟨k,got,_,taken,ends⟩ | ⟨none,_⟩
    · rw [← (first.unique taken).2] at ends
      have whole := (good _ ends).whole
      simp only [readInto,List.length_take] at whole
      omega
    · exact none ⟨j,_,below,first⟩
  · intro condition got returned
    rcases jbdCanGet_ends true mem 8 rounds with ⟨j,other,below,first,ends⟩ | ⟨_,ends⟩
    · obtain rfl : other = got := Option.some.inj (Prod.mk.inj (ends.symm.trans returned)).2
      obtain ⟨⟨bytes,here,passes,rfl⟩,before⟩ := (first_iff mem rounds j other).mp first
      by_cases short : bytes.length < 8
      · obtain ⟨i,earlier,passed⟩ := condition j below bytes here ((mistaken_iff bytes).mpr ⟨short,passes⟩)
        obtain ⟨refused,there,fails⟩ := before i earlier
        exact absurd (passed refused there) fails
      · refine ⟨?_,?_⟩
        · simp only [readInto,List.length_take]
          omega
        · have six : (readInto mem 8 bytes).data 6 = (padded bytes)[6] := by simp [readInto,padded]
          have seven : (readInto mem 8 bytes).data 7 = (padded bytes)[7] := by simp [readInto,padded]
          rw [six,seven,frameAt_eight]
          exact passes
    · rw [ends] at returned
      exact absurd (Prod.mk.inj returned).1 (by decide)

theorem nothing_is_good :
    ¬ ∀ got, jbdCanGet true (fun _ => 0xFF) 8 (fun _ => ⟨0,some []⟩) = (0,some got) → Good got := by
  intro good
  have whole := (good (readInto (fun _ => 0xFF) 8 []) rfl).whole
  exact absurd whole (by decide)

end Mybmm.JbdCanGet
