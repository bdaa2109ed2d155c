import Mybmm.Config
import Mybmm.CanSessions

/-! si.c and inverter.c: what is sent to the inverter in one go, and how an error on
the way comes back. A transport's write tells a length or a negative number, the
driver's write zero or one. -/
namespace Mybmm.InverterWrites
open Config Libc Arrays

/-- What is asked of the transport, with what it gave for a write. -/
inductive Asked where
  | opened
  | wrote (id : BitVec 32) (data : List Byte) (result : Int)
  | closed
deriving DecidableEq

/-- The results of the transport's calls, of the writes one by one. -/
structure Results where
  opens : Int
  writes : Nat → Int

structure Session where
  isOpen : Bool
  asked : List Asked := []

def putshort (v : ℚ) : List Byte :=
  let n := truncate v
  [BitVec.ofInt 8 n,BitVec.ofInt 8 (n / 2 ^ 8)]

def putlong (v : ℚ) : List Byte :=
  let n := truncate v
  [BitVec.ofInt 8 n,BitVec.ofInt 8 (n / 2 ^ 8),BitVec.ofInt 8 (n / 2 ^ 16),BitVec.ofInt 8 (n / 2 ^ 24)]

def limits (conf : Conf) : List Byte :=
  putshort (conf.chargeVoltage * 10) ++ putshort (conf.chargeAmps * 10) ++ putshort (conf.dischargeAmps * 10) ++
    putshort (conf.dischargeVoltage * 10)

def charge (conf : Conf) (soh : ℚ) : List Byte := putshort conf.soc ++ putshort soh ++ putlong (conf.soc * 100)

def alarms : List Byte := List.replicate 8 0

def events : List Byte := List.replicate 8 0

def written (asked : List Asked) : Nat := asked.countP fun | .wrote .. => true | _ => false

def tpWrite (tp : Results) (id : BitVec 32) (data : List Byte) (s : Session) : Int × Session :=
  let r := tp.writes (written s.asked)
  (r,{ s with asked := s.asked ++ [.wrote id data r] })

def siOpen (tp : Results) (s : Session) : Int × Session :=
  (tp.opens,{ isOpen := if tp.opens = 0 then true else s.isOpen, asked := s.asked ++ [.opened] })

/-- Only the last of the four results is compared with zero. -/
def siWrite (tp : Results) (conf : Conf) (soh : ℚ) (s : Session) : Int × Session :=
  let (r,s) := tpWrite tp 0x351 (limits conf) s
  if r < 0 then (1,s) else
  let (r,s) := tpWrite tp 0x355 (charge conf soh) s
  if r < 0 then (1,s) else
  let (r,s) := tpWrite tp 0x35A alarms s
  if r < 0 then (1,s) else
  let (r,s) := tpWrite tp 0x35B events s
  if r ≠ 0 then (1,s) else (0,s)

def siClose (s : Session) : Int × Session :=
  if s.isOpen then (0,{ isOpen := false, asked := s.asked ++ [.closed] }) else (0,s)

/-- A driver's calls, as an inverter has them. -/
structure Driver (σ : Type) where
  opens : σ → Int × σ
  write : σ → Int × σ
  closes : σ → Int × σ

def si (tp : Results) (conf : Conf) (soh : ℚ) : Driver Session where
  opens := siOpen tp
  write := siWrite tp conf soh
  closes := siClose

/-- `inverter_write`. What it publishes in the end, nobody waits for. -/
def inverterWrite {σ : Type} (inv : Option (Driver σ)) (s : σ) : Int × σ :=
  match inv with
  | none => (1,s)
  | some inv =>
    let (r,s) := inv.opens s
    if r ≠ 0 then (1,s) else
    let (r,s) := inv.write s
    if r < 0 then (1,s) else
    let (_,s) := inv.closes s
    (0,s)

/-! What is expected. -/

def AllWritten (asked : List Asked) : Prop :=
  ∀ id ∈ [0x351,0x355,0x35A,0x35B], ∃ data result, .wrote id data result ∈ asked ∧ 0 ≤ result

def Closed (s : Session) : Prop := s.isOpen = false ∧ s.asked.getLast? = some .closed

structure Reported (tp : Results) (conf : Conf) (soh : ℚ) (isOpen : Bool) : Prop where
  driver : (siWrite tp conf soh ⟨isOpen,[]⟩).1 = 0 ↔ AllWritten (siWrite tp conf soh ⟨isOpen,[]⟩).2.asked
  inverter : tp.opens = 0 →
    let written := siWrite tp conf soh (siOpen tp ⟨isOpen,[]⟩).2
    let final := inverterWrite (some (si tp conf soh)) ⟨isOpen,[]⟩
    (final.1 = 0 ↔ written.1 = 0) ∧ Closed final.2

/-! What is done. -/

section Done

variable (tp : Results) (conf : Conf) (soh : ℚ)

def frames : List Asked :=
  [.wrote 0x351 (limits conf) (tp.writes 0),.wrote 0x355 (charge conf soh) (tp.writes 1),
    .wrote 0x35A alarms (tp.writes 2),.wrote 0x35B events (tp.writes 3)]

/-- Where a write ends: the results before are no failures, and so many frames are out. -/
private theorem siWrite_cases (s : Session) (fresh : written s.asked = 0) :
    let done := siWrite tp conf soh s
    (tp.writes 0 < 0 ∧ done = (1,{ s with asked := s.asked ++ (frames tp conf soh).take 1 })) ∨
      (0 ≤ tp.writes 0 ∧ tp.writes 1 < 0 ∧ done = (1,{ s with asked := s.asked ++ (frames tp conf soh).take 2 })) ∨
      (0 ≤ tp.writes 0 ∧ 0 ≤ tp.writes 1 ∧ tp.writes 2 < 0 ∧
        done = (1,{ s with asked := s.asked ++ (frames tp conf soh).take 3 })) ∨
      (0 ≤ tp.writes 0 ∧ 0 ≤ tp.writes 1 ∧ 0 ≤ tp.writes 2 ∧
        done = (if tp.writes 3 = 0 then 0 else 1,{ s with asked := s.asked ++ frames tp conf soh })) := by
  have next (asked : List Asked) (id : BitVec 32) (data : List Byte) (r : Int) :
      written (asked ++ [.wrote id data r]) = written asked + 1 := by simp [written]
  simp only [siWrite,tpWrite,next,fresh,frames]
  by_cases first : tp.writes 0 < 0
  · exact Or.inl ⟨first,by simp [first]⟩
  by_cases second : tp.writes 1 < 0
  · exact Or.inr (Or.inl ⟨Int.not_lt.mp first,second,by simp [first,second]⟩)
  by_cases third : tp.writes 2 < 0
  · exact Or.inr (Or.inr (Or.inl ⟨Int.not_lt.mp first,Int.not_lt.mp second,third,by simp [first,second,third]⟩))
  refine Or.inr (Or.inr (Or.inr ⟨Int.not_lt.mp first,Int.not_lt.mp second,Int.not_lt.mp third,?_⟩))
  by_cases fourth : tp.writes 3 = 0 <;> simp [first,second,third,fourth]

private theorem not_allWritten {asked : List Asked} (id : BitVec 32) (one : id ∈ [0x351,0x355,0x35A,0x35B])
    (failed : ∀ data result, .wrote id data result ∈ asked → result < 0) : ¬ AllWritten asked := by
  intro all
  obtain ⟨data,result,sent,good⟩ := all id one
  exact absurd good (Int.not_le.mpr (failed data result sent))

private theorem siWrite_allWritten (s : Session) (fresh : ∀ id data result, .wrote id data result ∉ s.asked) :
    AllWritten (siWrite tp conf soh s).2.asked ↔
      0 ≤ tp.writes 0 ∧ 0 ≤ tp.writes 1 ∧ 0 ≤ tp.writes 2 ∧ 0 ≤ tp.writes 3 := by
  have none : written s.asked = 0 := by
    refine List.countP_eq_zero.mpr fun asked member => ?_
    cases asked with
    | wrote id data result => exact absurd member (fresh id data result)
    | opened | closed => simp
  rcases siWrite_cases tp conf soh s none with
    ⟨failed,done⟩ | ⟨_,failed,done⟩ | ⟨_,_,failed,done⟩ | ⟨_,_,_,done⟩ <;> rw [done]
  · refine iff_of_false (not_allWritten 0x351 (by simp) ?_) (by omega)
    simpa [frames,fresh] using failed
  · refine iff_of_false (not_allWritten 0x355 (by simp) ?_) (by omega)
    simpa [frames,fresh] using failed
  · refine iff_of_false (not_allWritten 0x35A (by simp) ?_) (by omega)
    simpa [frames,fresh] using failed
  · simp [AllWritten,frames,fresh]

private theorem siWrite_zero_iff (s : Session) (fresh : written s.asked = 0) :
    (siWrite tp conf soh s).1 = 0 ↔
      0 ≤ tp.writes 0 ∧ 0 ≤ tp.writes 1 ∧ 0 ≤ tp.writes 2 ∧ tp.writes 3 = 0 := by
  rcases siWrite_cases tp conf soh s fresh with
    ⟨failed,done⟩ | ⟨_,failed,done⟩ | ⟨_,_,failed,done⟩ | ⟨first,second,third,done⟩ <;> rw [done]
  · exact iff_of_false (by simp) (by omega)
  · exact iff_of_false (by simp) (by omega)
  · exact iff_of_false (by simp) (by omega)
  · simp [first,second,third]

/-- The driver's write never tells a negative number, and leaves the session open or closed as it was. -/
private theorem siWrite_keeps (s : Session) (fresh : written s.asked = 0) :
    0 ≤ (siWrite tp conf soh s).1 ∧ (siWrite tp conf soh s).2.isOpen = s.isOpen := by
  rcases siWrite_cases tp conf soh s fresh with
    ⟨_,done⟩ | ⟨_,_,done⟩ | ⟨_,_,_,done⟩ | ⟨_,_,_,done⟩ <;> rw [done]
  · simp
  · simp
  · simp
  · split <;> simp

/-- Once it is open, the inverter's write closes it again and tells success, whatever the driver made of it. -/
private theorem inverterWrite_opened (isOpen : Bool) (opened : tp.opens = 0) :
    let final := inverterWrite (some (si tp conf soh)) ⟨isOpen,[]⟩
    final.1 = 0 ∧ Closed final.2 := by
  obtain ⟨nonneg,kept⟩ := siWrite_keeps tp conf soh (siOpen tp ⟨isOpen,[]⟩).2 rfl
  have held : (siOpen tp ⟨isOpen,[]⟩).2.isOpen = true := by simp [siOpen,opened]
  have final : inverterWrite (some (si tp conf soh)) ⟨isOpen,[]⟩ =
      (0,(siClose (siWrite tp conf soh (siOpen tp ⟨isOpen,[]⟩).2).2).2) := by
    have first : (siOpen tp ⟨isOpen,[]⟩).1 = 0 := opened
    simp [inverterWrite,si,first,Int.not_lt.mpr nonneg]
  rw [final]
  rw [held] at kept
  simp [siClose,kept,Closed]

end Done

theorem reported_iff (tp : Results) (conf : Conf) (soh : ℚ) (isOpen : Bool) :
    Reported tp conf soh isOpen ↔
      if 0 ≤ tp.writes 0 ∧ 0 ≤ tp.writes 1 ∧ 0 ≤ tp.writes 2 ∧ 0 ≤ tp.writes 3 then tp.writes 3 = 0
      else tp.opens ≠ 0 := by
  have driver := siWrite_zero_iff tp conf soh ⟨isOpen,[]⟩ rfl
  have all := siWrite_allWritten tp conf soh ⟨isOpen,[]⟩ (by simp)
  have inverter := siWrite_zero_iff tp conf soh (siOpen tp ⟨isOpen,[]⟩).2 rfl
  have opened := inverterWrite_opened tp conf soh isOpen
  constructor
  · intro reported
    split
    · rename_i good
      exact (driver.mp (reported.driver.mpr (all.mpr good))).2.2.2
    · rename_i bad
      intro success
      have told := (reported.inverter success).1.mp (opened success).1
      obtain ⟨first,second,third,fourth⟩ := inverter.mp told
      exact bad ⟨first,second,third,fourth.ge⟩
  · intro condition
    split at condition
    · rename_i good
      have zero : 0 ≤ tp.writes 0 ∧ 0 ≤ tp.writes 1 ∧ 0 ≤ tp.writes 2 ∧ tp.writes 3 = 0 :=
        ⟨good.1,good.2.1,good.2.2.1,condition⟩
      refine ⟨iff_of_true (driver.mpr zero) (all.mpr good),fun success => ?_⟩
      exact ⟨iff_of_true (opened success).1 (inverter.mpr zero),(opened success).2⟩
    · rename_i bad
      have nonzero : ¬ (siWrite tp conf soh ⟨isOpen,[]⟩).1 = 0 := by
        intro zero
        obtain ⟨first,second,third,fourth⟩ := driver.mp zero
        exact bad ⟨first,second,third,fourth.ge⟩
      refine ⟨iff_of_false nonzero fun good => bad (all.mp good),fun success => ?_⟩
      exact absurd success condition

/-- Over can.c every write tells the eight bytes it took. -/
def overCan : Results where
  opens := 0
  writes := fun _ => CanSessions.canWrite ⟨3,"can0".toList,500000,false⟩ 0x35B events fun frame => frame.length

def unplugged : Results where
  opens := 0
  writes := fun _ => -1

/-- Success is told as an error by the driver, and an error as success by the inverter. -/
theorem not_reported : ¬ Reported overCan {} 100 false ∧ ¬ Reported unplugged {} 100 false := by
  have eight (k : Nat) : overCan.writes k = 8 := rfl
  constructor
  · intro reported
    have all := (siWrite_allWritten overCan {} 100 ⟨false,[]⟩ (by simp)).mpr (by simp [eight])
    have zero := (siWrite_zero_iff overCan {} 100 ⟨false,[]⟩ rfl).mp (reported.driver.mpr all)
    exact absurd (zero.2.2.2.symm.trans (eight 3)) (by decide)
  · intro reported
    have told := (reported.inverter rfl).1.mp (inverterWrite_opened unplugged {} 100 false rfl).1
    have first := ((siWrite_zero_iff unplugged {} 100 (siOpen unplugged ⟨false,[]⟩).2 rfl).mp told).1
    exact absurd first (by decide)

end Mybmm.InverterWrites
