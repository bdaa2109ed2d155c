import Mybmm.Packs
import Mybmm.Support.Averages

/-! pack.c: the least, the greatest and the mean of the cells of a pack. The least is
looked for from the critical limit down, the greatest from zero up. -/
namespace Mybmm.PackStatistics
open Config Packs Averages

structure Described (cells : List ℚ) (pp : Pack) : Prop where
  min : IsLeast {v | v ∈ cells} pp.cellMin
  max : IsGreatest {v | v ∈ cells} pp.cellMax
  diff : pp.cellDiff = pp.cellMax - pp.cellMin
  spread : 0 ≤ pp.cellDiff
  above : pp.cellMin ≤ pp.cellAvg
  below : pp.cellAvg ≤ pp.cellMax

private theorem extent_eq (cells : List ℚ) (start : Extent) : cells.foldl Extent.add start =
    ⟨least start.min cells,greatest start.max cells,start.total + cells.sum⟩ := by
  induction cells generalizing start with
  | nil =>
    rw [List.sum_nil,add_zero]
    rfl
  | cons v cells ih =>
    rw [List.foldl_cons,ih,List.sum_cons,← add_assoc]
    rfl

private theorem packUpdate_cells (cellCritHigh : ℚ) (r : PackReading) (pp : Pack) :
    (packUpdate cellCritHigh (.read r) pp).cellMin = least cellCritHigh r.cellvolt ∧
      (packUpdate cellCritHigh (.read r) pp).cellMax = greatest 0 r.cellvolt ∧
      (packUpdate cellCritHigh (.read r) pp).cellDiff = greatest 0 r.cellvolt - least cellCritHigh r.cellvolt ∧
      (packUpdate cellCritHigh (.read r) pp).cellAvg = mean r.cellvolt := by
  have extent := extent_eq r.cellvolt ⟨cellCritHigh,0,0⟩
  rw [zero_add] at extent
  simp only [packUpdate,PackReading.store,extent,mean,and_self]

/-- The figures describe the cells exactly when some cell is no higher than the limit
and some cell is not below zero. -/
theorem described_iff (cellCritHigh : ℚ) (r : PackReading) (pp : Pack) (filled : r.cellvolt ≠ []) :
    Described r.cellvolt (packUpdate cellCritHigh (.read r) pp) ↔
      (∃ v ∈ r.cellvolt, v ≤ cellCritHigh) ∧ ∃ v ∈ r.cellvolt, 0 ≤ v := by
  obtain ⟨min,max,diff,avg⟩ := packUpdate_cells cellCritHigh r pp
  constructor
  · intro described
    have low := described.min
    have high := described.max
    rw [min,least_isLeast_iff] at low
    rw [max,greatest_isGreatest_iff] at high
    exact ⟨low,high⟩
  · rintro ⟨low,high⟩
    have lowest := (least_isLeast_iff cellCritHigh r.cellvolt).mpr low
    have highest := (greatest_isGreatest_iff 0 r.cellvolt).mpr high
    obtain ⟨⟨lo,inside,under⟩,hi,within,above⟩ := mean_between filled
    refine ⟨by rwa [min],by rwa [max],by rw [diff,min,max],?_,?_,?_⟩
    · rw [diff]
      exact sub_nonneg.mpr (lowest.2 highest.1)
    · rw [min,avg]
      exact (lowest.2 inside).trans under
    · rw [max,avg]
      exact above.trans (highest.2 within)

private theorem updatePacks_read (pool : Option Nat) (pooled : pool.isSome) (replies : List PackReply) (packs : List Pack)
    (k : Nat)
    (r : PackReading) (answer : replies[k]? = some (.read r)) (pp : Pack) (here : (updatePacks pool replies packs)[k]? = some pp) :
    ∃ before, pp = packUpdate updateCritHigh (.read r) before := by
  induction packs generalizing replies k with
  | nil => simp [updatePacks] at here
  | cons first rest ih =>
    cases k with
    | succ k =>
      rw [updatePacks,List.getElem?_cons_succ] at here
      exact ih replies.tail k (List.getElem?_tail.trans answer) here
    | zero =>
      rw [updatePacks,List.getElem?_cons_zero,Option.some.injEq,if_pos pooled] at here
      cases replies with
      | nil => simp at answer
      | cons reply replies =>
        obtain rfl : reply = .read r := by simpa using answer
        exact ⟨_,here.symm⟩

/-- In a round that is the limit `pack_update_all` sets, whatever is configured. -/
theorem round_described_iff (conf : Conf) (pooled : conf.packPool.isSome) (replies : List PackReply) (k : Nat)
    (r : PackReading) (answer : replies[k]? = some (.read r)) (filled : r.cellvolt ≠ []) (pp : Pack)
    (here : (packUpdateAll replies conf).packs[k]? = some pp) :
    Described r.cellvolt pp ↔ (∃ v ∈ r.cellvolt, v ≤ 9.9) ∧ ∃ v ∈ r.cellvolt, 0 ≤ v := by
  obtain ⟨before,rfl⟩ := updatePacks_read conf.packPool pooled replies conf.packs k r answer pp here
  exact described_iff updateCritHigh r before filled

def cellReading (cells : List ℚ) : PackReading where
  charging := false
  discharging := false
  balancing := false
  capacity := 100
  voltage := 0
  current := 0
  temps := []
  cellvolt := cells

theorem described_pair : Described [3.301,3.299] (packUpdate 3.65 (.read (cellReading [3.301,3.299])) {}) := by
  refine (described_iff 3.65 (cellReading [3.301,3.299]) {} ?_).mpr ?_
  · decide
  · decide +kernel

/-- One cell a millivolt below zero leaves zero as the greatest. -/
theorem below_zero : ¬ Described [-0.001] (packUpdate updateCritHigh (.read (cellReading [-0.001])) {}) := by
  intro described
  have member := described.max.1
  revert member
  decide +kernel

end Mybmm.PackStatistics
