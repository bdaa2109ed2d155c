import Mybmm.DriverReads
import Mybmm.JkCounts
import Mybmm.PrehCells

/-! What the means of a pack are divided by: its number of cells, and in preh.c the
number of probes that show more than 40. -/
namespace Mybmm.Divisors
open Arrays Cellmon Routine DriverReads
open Preh (Answers PrehInfo)

/-! preh.c. -/

def tcount (data : Frame) : Nat := ((data.toList.take 4).filter fun b => 40 < b.toNat).length

/-- The frames whose mean becomes a temperature. -/
def probeFrames (answers : Answers) : List Int → (i : Nat) → List Frame
  | [], _ => []
  | cmu :: cmus, i => (answers i (0x170 + cmu)).toList ++ probeFrames answers cmus (i + 1)

def AllReached (answers : Answers) : List Int → (i : Nat) → Prop
  | [], _ => True
  | cmu :: cmus, i => (answers i (0x100 + cmu)).isSome ∧ AllReached answers cmus (i + 1)

/-- The means of the frames were added to the first `m` temperatures. -/
structure Probed (m : Nat) (frames : List Frame) (temps : Vector ℚ maxTemps) (t : PackInfo) : Prop where
  cells : t.cells = 14
  counted : t.ntemps = (m + frames.length : Nat)
  means : putAll temps m (frames.map Preh.average) = some t.temps

private theorem probed_trans {m : Nat} {frames more : List Frame} {temps : Vector ℚ maxTemps} {u t : PackInfo}
    (first : Probed m frames temps u) (rest : Probed (m + frames.length) more u.temps t) :
    Probed m (frames ++ more) temps t where
  cells := rest.cells
  counted := by rw [rest.counted,List.length_append,Nat.add_assoc]
  means := by rw [List.map_append,putAll_append,first.means,Option.bind_some,List.length_map,rest.means]

private theorem addTemp_probed {m : Nat} {data : Frame} (pp : PackInfo) {t : PackInfo} (full : pp.cells = 14)
    (counted : pp.ntemps = m)
    (added : Preh.addTemp (Preh.average data) pp = some t) : Probed m [data] pp.temps t := by
  rw [Preh.addTemp,counted,Int.toNat_natCast] at added
  obtain ⟨u,stored,rfl⟩ := Option.map_eq_some_iff.mp added
  obtain ⟨temps,written,rfl⟩ := Option.map_eq_some_iff.mp stored
  refine ⟨full,congrArg (· + 1) counted,?_⟩
  simp only [List.map_cons,List.map_nil,putAll,written,withTemps,Option.bind_some]

private theorem prehCells_probed {answers : Answers} {i j left cell m : Nat} {cmu : Int} (pp : PackInfo) {t : PackInfo}
    {r : Except Int Nat} (full : pp.cells = 14) (counted : pp.ntemps = m) (done : Preh.prehCells answers i cmu left j cell pp = some (r,t)) :
    (∃ last, r = .ok last) ∧ Probed m [] pp.temps t := by
  rw [PrehCells.prehCells_eq answers i cmu left j cell pp full,writeAll_cells,Option.map_map] at done
  obtain ⟨w,_,ends⟩ := Option.map_eq_some_iff.mp done
  obtain ⟨rfl,rfl⟩ := Prod.mk.inj ends
  exact ⟨⟨_,rfl⟩,full,counted,rfl⟩

private theorem prehCmu_probed {answers : Answers} {i cell m : Nat} {cmu : Int} {pp t : PackInfo} {r : Except Int Nat}
    (full : pp.cells = 14) (counted : pp.ntemps = m) (status : (answers i (0x100 + cmu)).isSome)
    (done : Preh.prehCmu answers i cmu cell pp = some (r,t)) :
    (∃ last, r = .ok last) ∧ Probed m (answers i (0x170 + cmu)).toList pp.temps t := by
  obtain ⟨data,came⟩ := Option.isSome_iff_exists.mp status
  rw [Preh.prehCmu,came,bind_some,bind_modify] at done
  cases temps : answers i (0x170 + cmu) with
  | none =>
    rw [temps] at done
    exact prehCells_probed (Preh.errorBits data pp) full counted done
  | some probes =>
    rw [temps] at done
    obtain ⟨mid,added,goes⟩ := bind_update_inv done
    have first : Probed m [probes] pp.temps mid := addTemp_probed (Preh.errorBits data pp) full counted added
    obtain ⟨ends,rest⟩ := prehCells_probed mid first.cells first.counted goes
    exact ⟨ends,probed_trans first rest⟩

/-- A read goes through exactly when each CMU has a status. -/
private theorem prehCmus_ends {answers : Answers} {cmus : List Int} {i cell : Nat} (m : Nat) (pp : PackInfo) {t : PackInfo}
    {r : Except Int Unit} (full : pp.cells = 14) (counted : pp.ntemps = m) (done : Preh.prehCmus answers cmus i cell pp = some (r,t)) :
    (AllReached answers cmus i ∧ r = .ok () ∧ Probed m (probeFrames answers cmus i) pp.temps t) ∨
      (¬ AllReached answers cmus i ∧ r = .error 1) := by
  induction cmus generalizing i cell m pp with
  | nil =>
    obtain ⟨rfl,rfl⟩ := Prod.mk.inj (Option.some.inj done)
    exact Or.inl ⟨trivial,rfl,full,counted,rfl⟩
  | cons cmu cmus ih =>
    rw [Preh.prehCmus] at done
    cases status : answers i (0x100 + cmu) with
    | none =>
      have fails : Preh.prehCmu answers i cmu cell pp = some (.error 1,pp) := by
        rw [Preh.prehCmu,status]
        rfl
      obtain ⟨rfl,_⟩ := Prod.mk.inj (Option.some.inj ((bind_error fails).symm.trans done))
      exact Or.inr ⟨fun all => absurd all.1 (by simp [status]),rfl⟩
    | some data =>
      have known : (answers i (0x100 + cmu)).isSome := by rw [status]; rfl
      rcases bind_inv done with ⟨code,failed,_⟩ | ⟨last,mid,ran,goes⟩
      · obtain ⟨⟨last,ended⟩,_⟩ := prehCmu_probed full counted known failed
        contradiction
      · obtain ⟨_,first⟩ := prehCmu_probed full counted known ran
        rcases ih _ mid first.cells first.counted goes with ⟨all,ended,rest⟩ | ⟨missing,ended⟩
        · exact Or.inl ⟨⟨known,all⟩,ended,probed_trans first rest⟩
        · exact Or.inr ⟨fun all => missing all.2,ended⟩

private theorem prehRead_returned {info : PrehInfo} {answers : Answers} {pp t : PackInfo} {code : Int}
    (returned : returns (Preh.prehRead info answers) (Preh.prehNew pp) = some (code,t)) :
    (AllReached answers info.cmus 0 ∧ code = 0 ∧ Probed 0 (probeFrames answers info.cmus 0) pp.temps t) ∨
      (¬ AllReached answers info.cmus 0 ∧ code = 1) := by
  obtain ⟨⟨r,u⟩,ran,same⟩ := Option.map_eq_some_iff.mp returned
  rw [Preh.prehRead,bind_modify] at ran
  rcases prehCmus_ends 0 { Preh.prehNew pp with ntemps := 0 } rfl rfl ran with
    ⟨all,rfl,probed⟩ | ⟨missing,rfl⟩
  · obtain ⟨rfl,rfl⟩ := Prod.mk.inj same
    exact Or.inl ⟨all,rfl,probed⟩
  · obtain ⟨rfl,_⟩ := Prod.mk.inj same
    exact Or.inr ⟨missing,rfl⟩

/-! The counts of each driver. -/

/-- The frames that a read takes a mean of. -/
def means : DriverRead → List Frame
  | .preh info answers => probeFrames answers info.cmus 0
  | _ => []

/-- Nothing is divided by zero once the read has returned 0. -/
def Divided (pp : PackInfo) (driver : DriverRead) : Prop :=
  ∀ t, read pp driver = some (0,t) → t.cells ≠ 0 ∧ ∀ data ∈ means driver, tcount data ≠ 0

/-- Each driver's own condition, for the reads that do return 0. -/
def Counted : DriverRead → Prop
  | .jbd _ can replies =>
    if can then ∀ head, JbdBounds.CanReceived replies head → JbdBounds.stringsByte head ≠ 0
    else JbdBounds.SerialWithin replies → ∀ reply, Jbd.jbdRw replies Jbd.jbdCmdHwinfo = some reply →
      (Jbd.jbdRw replies Jbd.jbdCmdCellinfo).isSome → JbdBounds.cellsByte reply ≠ 0
  | .jk data replies => Jk.Within data replies → JkCounts.lastCell data replies ≠ some 0
  | .preh info answers => Preh.probed answers info.cmus 0 ≤ maxTemps → AllReached answers info.cmus 0 →
      ∀ data ∈ probeFrames answers info.cmus 0, ∃ b ∈ data.toList.take 4, 40 < b.toNat

private theorem tcount_iff (data : Frame) : tcount data ≠ 0 ↔ ∃ b ∈ data.toList.take 4, 40 < b.toNat := by
  rw [tcount,← Nat.pos_iff_ne_zero,List.length_filter_pos_iff]
  simp only [decide_eq_true_eq]

private theorem serial_divided_iff (s : Jbd.JbdSession) (replies : Jbd.Replies) (pp : PackInfo) :
    Divided pp (.jbd s false replies) ↔ Counted (.jbd s false replies) := by
  simp only [Divided,Counted,means,List.not_mem_nil,false_imp_iff,implies_true,and_true,Bool.false_eq_true,if_false]
  change (∀ t, returns (Jbd.jbdGetPack s replies) pp = some (0,t) → _) ↔ _
  rcases JbdBounds.getPack_ends s replies pp with
    ⟨outside,ends⟩ | ⟨_,missing,t,ends⟩ | ⟨reply,volts,t,within,first,second,ends,cells,_⟩
  · refine iff_of_true ?_ fun within => absurd within outside
    simp [returns,ends]
  · refine iff_of_true ?_ fun _ reply first second => ?_
    · simp [returns,ends]
    · rcases missing with none | none
      · simp [first] at none
      · simp [none] at second
  · have returned : returns (Jbd.jbdGetPack s replies) pp = some (0,t) := by
      rw [returns,ends]
      rfl
    have count : t.cells ≠ 0 ↔ JbdBounds.cellsByte reply ≠ 0 := by
      rw [cells]
      exact Nat.cast_ne_zero
    constructor
    · intro divided _ other taken _
      obtain rfl : reply = other := Option.some.inj (first.symm.trans taken)
      exact count.mp (divided t returned)
    · intro counted u same
      obtain ⟨_,rfl⟩ := Prod.mk.inj (Option.some.inj (returned.symm.trans same))
      exact count.mpr (counted within reply first (by rw [second]; rfl))

private theorem can_divided_iff (s : Jbd.JbdSession) (bus : Jbd.Replies) (pp : PackInfo) :
    Divided pp (.jbd s true bus) ↔ Counted (.jbd s true bus) := by
  simp only [Divided,Counted,means,List.not_mem_nil,false_imp_iff,implies_true,and_true,if_true]
  change (∀ t, returns (Jbd.jbdCanGetPack s bus) pp = some (0,t) → _) ↔ _
  rcases JbdBounds.canGetPack_ends s bus pp with ⟨head,t,received,ends,cells,_⟩ | ⟨missing,t,ends⟩
  · have returned : returns (Jbd.jbdCanGetPack s bus) pp = some (0,t) := by
      rw [returns,ends]
      rfl
    have count : t.cells ≠ 0 ↔ JbdBounds.stringsByte head ≠ 0 := by
      rw [cells]
      exact Nat.cast_ne_zero
    constructor
    · intro divided other again
      obtain rfl : head = other := Option.some.inj (received.2.2.1.symm.trans again.2.2.1)
      exact count.mp (divided t returned)
    · intro counted u same
      obtain ⟨_,rfl⟩ := Prod.mk.inj (Option.some.inj (returned.symm.trans same))
      exact count.mpr (counted head received)
  · refine iff_of_true ?_ fun head received => absurd received (missing head)
    simp [returns,ends]

private theorem jk_divided_iff (data : Jk.Buffer) (replies : Jk.Replies) (pp : PackInfo) :
    Divided pp (.jk data replies) ↔ Counted (.jk data replies) := by
  simp only [Divided,Counted,means,List.not_mem_nil,false_imp_iff,implies_true,and_true]
  change (∀ t, returns (Jk.jkRead data replies) pp = some (0,t) → _) ↔ _
  constructor
  · intro divided within last
    obtain ⟨code,t,returned⟩ := (JkBounds.jk_returns_iff data replies pp).mpr within
    rcases JkCounts.jkRead_counted returned with ⟨_,none⟩ | ⟨word,rfl,found,zero⟩
    · rw [last] at none
      contradiction
    · obtain rfl : word = 0 := Option.some.inj (found.symm.trans last)
      exact divided t returned (zero.mpr rfl)
  · intro counted t returned empty
    have within := (JkBounds.jk_returns_iff data replies pp).mp ⟨0,t,returned⟩
    rcases JkCounts.jkRead_counted returned with ⟨failed,_⟩ | ⟨word,_,found,zero⟩
    · exact failed rfl
    · rw [zero.mp empty] at found
      exact counted within found

private theorem preh_divided_iff (info : PrehInfo) (answers : Answers) (pp : PackInfo) :
    Divided pp (.preh info answers) ↔ Counted (.preh info answers) := by
  simp only [Divided,Counted,means,tcount_iff]
  change (∀ t, returns (Preh.prehRead info answers) (Preh.prehNew pp) = some (0,t) → _) ↔ _
  constructor
  · intro divided few all
    obtain ⟨code,t,returned⟩ := (PrehCells.returns_iff info answers pp).mpr few
    rcases prehRead_returned returned with ⟨_,rfl,_⟩ | ⟨missing,_⟩
    · exact (divided t returned).2
    · exact absurd all missing
  · intro counted t returned
    have few := (PrehCells.returns_iff info answers pp).mp ⟨0,t,returned⟩
    rcases prehRead_returned returned with ⟨all,_,probed⟩ | ⟨_,failed⟩
    · refine ⟨?_,counted few all⟩
      rw [probed.cells]
      decide
    · contradiction

/-- The means are defined exactly when the counts are there that each driver takes from
its device. -/
theorem divided_iff (pp : PackInfo) (driver : DriverRead) : Divided pp driver ↔ Counted driver := by
  cases driver with
  | jbd s can replies =>
    cases can with
    | false => exact serial_divided_iff s replies pp
    | true => exact can_divided_iff s replies pp
  | jk data replies => exact jk_divided_iff data replies pp
  | preh info answers => exact preh_divided_iff info answers pp

/-- Every frame says what the one with the counts says: no cells. -/
def noCells : Jbd.Replies := fun _ _ => some [0,2]

theorem divided_by_zero : ¬ Divided blankPack (.jbd ⟨0⟩ true noCells) := by
  have accepted (id : Nat) : Jbd.jbdCanGetCrc noCells id = some (Jbd.padded [0,2]) := rfl
  have received : JbdBounds.CanReceived noCells (Jbd.padded [0,2]) :=
    ⟨by rw [accepted]; rfl,by rw [accepted]; rfl,accepted 0x104,fun j _ => by rw [accepted]; rfl,
      fun j _ => by rw [accepted]; rfl⟩
  intro divided
  have counted := (can_divided_iff ⟨0⟩ noCells blankPack).mp divided
  exact absurd rfl (counted (Jbd.padded [0,2]) received)

end Mybmm.Divisors
