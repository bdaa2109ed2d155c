import Mybmm.Main
import Mybmm.Support.Scan

/-! What the scan of main.c computes: the first critical cell of the packs that
answered decides the flags, and the packs before it make up the figures. -/
namespace Mybmm.CritScan
open Config Flags Battery Packs Main Scan

inductive Crit where
  | low | high
deriving DecidableEq

/-- A cell that is both is low, the limits being compared in that order. -/
def classify (conf : Conf) (v : ℚ) : Option Crit :=
  if v ≤ conf.cellCritLow then some .low
  else if v ≥ conf.cellCritHigh then some .high
  else none

def react (conf : Conf) : Option Crit → Conf
  | none => conf
  | some .low => setState conf .critCellvolt
  | some .high => forceSoc (chargeStop (setState conf .critCellvolt)) 101

def answers (pp : Pack) : List ℚ := if check pp.state PackState.updated then pp.cellvolt else []

def firstCrit (conf : Conf) (packs : List Pack) : Option Crit := first answers (classify conf) packs

def counted (conf : Conf) (packs : List Pack) : List Pack :=
  (packs.takeWhile fun pp => ((answers pp).findSome? (classify conf)).isNone).filter
    fun pp => check pp.state PackState.updated

def tally (conf : Conf) (totals : Totals) : List Pack → Conf × Totals
  | [] => (conf,totals)
  | pp :: rest =>
    let extent := pp.cellvolt.foldl Extent.add ⟨conf.cellCritHigh,0,0⟩
    tally (countPack extent pp conf) (totals.count extent pp) rest

private theorem scanCells_clear (conf : Conf) (extent : Extent) (cells : List ℚ)
    (clear : cells.findSome? (classify conf) = none) :
    scanCells conf extent cells = (conf,cells.foldl Extent.add extent,true) := by
  induction cells generalizing extent with
  | nil => rfl
  | cons v rest ih =>
    obtain ⟨here,later⟩ : classify conf v = none ∧ rest.findSome? (classify conf) = none := by
      cases found : classify conf v <;> simp_all
    have inside : ¬ v ≤ conf.cellCritLow ∧ ¬ v ≥ conf.cellCritHigh := by
      unfold classify at here
      split_ifs at here with low high
      exact ⟨low,high⟩
    rw [scanCells,if_neg inside.1,if_neg inside.2]
    exact ih (extent.add v) later

private theorem scanCells_crit (conf : Conf) (extent : Extent) (cells : List ℚ) (crit : Crit)
    (found : cells.findSome? (classify conf) = some crit) :
    ∃ extent', scanCells conf extent cells = (react conf (some crit),extent',false) := by
  induction cells generalizing extent with
  | nil => simp at found
  | cons v rest ih =>
    rw [scanCells]
    by_cases low : v ≤ conf.cellCritLow
    · obtain rfl : Crit.low = crit := by simpa [classify,low] using found
      exact ⟨extent.add v,by rw [if_pos low]; rfl⟩
    · by_cases high : v ≥ conf.cellCritHigh
      · obtain rfl : Crit.high = crit := by simpa [classify,low,high] using found
        exact ⟨extent.add v,by rw [if_neg low,if_pos high]; rfl⟩
      · obtain ⟨extent',same⟩ := ih (extent.add v) (by simpa [classify,low,high] using found)
        exact ⟨extent',by rw [if_neg low,if_neg high,same]⟩

theorem scanPacks_eq (conf : Conf) (totals : Totals) (packs : List Pack) :
    scanPacks conf totals packs =
      (react (tally conf totals (counted conf packs)).1 (firstCrit conf packs),
        (tally conf totals (counted conf packs)).2,(firstCrit conf packs).isNone) := by
  induction packs generalizing conf totals with
  | nil => rfl
  | cons pp rest ih =>
    by_cases answered : check pp.state PackState.updated = true
    · have cells : answers pp = pp.cellvolt := by simp [answers,answered]
      cases found : pp.cellvolt.findSome? (classify conf) with
      | some crit =>
        obtain ⟨extent,same⟩ := scanCells_crit conf ⟨conf.cellCritHigh,0,0⟩ pp.cellvolt crit found
        have stops : firstCrit conf (pp :: rest) = some crit := by
          simp [firstCrit,first,cells,found]
        have none : counted conf (pp :: rest) = [] := by simp [counted,cells,found]
        simp [scanPacks,answered,same,stops,none,tally]
      | none =>
        have passes : firstCrit conf (pp :: rest) = firstCrit conf rest := by
          simp [firstCrit,first,cells,found]
        have more : counted conf (pp :: rest) = pp :: counted conf rest := by
          simp [counted,cells,found,answered]
        rw [passes,more,tally,scanPacks,scanCells_clear conf _ _ found]
        simp only [answered,Bool.not_true,Bool.false_eq_true,if_false]
        exact ih (countPack _ pp conf) _
    · have silent : answers pp = [] := by simp [answers,answered]
      have passes : firstCrit conf (pp :: rest) = firstCrit conf rest := by simp [firstCrit,first,silent]
      have same : counted conf (pp :: rest) = counted conf rest := by simp [counted,silent,answered]
      simp only [scanPacks,answered,passes,same,ih]
      simp

/-! The flags and the charge rate a scan leaves. -/

structure Outcome where
  charging : Bool
  critCellvolt : Bool
  forceSoc : Bool
  chargeAmps : ℚ
deriving DecidableEq

def outcome (conf : Conf) : Outcome where
  charging := isCharging conf
  critCellvolt := isCritvolt conf
  forceSoc := checkState conf .forceSoc
  chargeAmps := conf.chargeAmps

def verdict (start : Outcome) : Option Crit → Outcome
  | none => ⟨start.charging,false,start.forceSoc && !start.critCellvolt,start.chargeAmps⟩
  | some .low => ⟨start.charging,true,start.forceSoc,start.chargeAmps⟩
  | some .high => ⟨false,true,true,0.1⟩

private theorem tally_outcome (conf : Conf) (totals : Totals) (packs : List Pack) :
    outcome (tally conf totals packs).1 = outcome conf := by
  induction packs generalizing conf totals with
  | nil => rfl
  | cons pp rest ih => exact (ih _ _).trans rfl

theorem react_outcome (conf : Conf) (crit : Option Crit) :
    outcome (latch crit.isNone (react conf crit)) = verdict (outcome conf) crit := by
  cases crit with
  | none =>
    cases critical : isCritvolt conf with
    | false =>
      simp only [react,latch,verdict,outcome,critical]
      simp [critical]
    | true =>
      cases forced : checkState conf .forceSoc <;>
        simp_all [react,latch,verdict,outcome,isCritvolt,isCharging,checkState,clearState]
  | some crit =>
    cases crit with
    | low => simp [react,latch,verdict,outcome,isCritvolt,isCharging,checkState,setState]
    | high =>
      simp [react,latch,verdict,outcome,isCritvolt,isCharging,checkState,setState,forceSoc,chargeStop,clearState]

theorem scan_outcome (conf : Conf) :
    outcome (scan conf).1 = verdict (outcome conf) (firstCrit conf conf.packs) := by
  rw [scan,scanPacks_eq]
  exact (react_outcome _ _).trans (congrArg (verdict · _) (tally_outcome conf {} _))

/-! The order of packs and cells. -/

def Reordered (p q : Pack) : Prop := ∃ cells, p.cellvolt.Perm cells ∧ q = { p with cellvolt := cells }

private theorem reordered_answers : Reordering answers Reordered where
  same p q := by
    rintro ⟨cells,perm,rfl⟩
    unfold answers
    split <;> first | exact perm | rfl
  any p cells perm := by
    unfold answers at perm
    split at perm
    · rename_i answered
      exact ⟨_,⟨cells,perm,rfl⟩,by simp [answers,answered]⟩
    · rename_i silent
      obtain rfl : [] = cells := (List.nil_perm.mp perm).symm
      exact ⟨p,⟨p.cellvolt,.refl _,rfl⟩,by simp [answers,silent]⟩

def Low (conf : Conf) (v : ℚ) : Prop := v ≤ conf.cellCritLow

def High (conf : Conf) (v : ℚ) : Prop := conf.cellCritLow < v ∧ conf.cellCritHigh ≤ v

private theorem classify_low (conf : Conf) (v : ℚ) : classify conf v = some .low ↔ Low conf v := by
  unfold classify Low
  split_ifs <;> simp_all

private theorem classify_high (conf : Conf) (v : ℚ) : classify conf v = some .high ↔ High conf v := by
  unfold classify High
  split_ifs <;> simp_all

/-- Permuting packs and cells leaves the same flags and charge rate exactly when
low and high cells do not meet, or when a high one would change nothing. -/
theorem scan_order_iff (conf : Conf) (packs : List Pack) :
    (∀ packs', Rearranged Reordered packs packs' →
      outcome (scan { conf with packs := packs' }).1 = outcome (scan { conf with packs := packs }).1) ↔
    ¬ ((∃ v ∈ packs.flatMap answers, Low conf v) ∧ ∃ v ∈ packs.flatMap answers, High conf v) ∨
      (isCharging conf = false ∧ checkState conf .forceSoc = true ∧ conf.chargeAmps = 0.1) := by
  have same (packs' : List Pack) : outcome (scan { conf with packs := packs' }).1 =
      verdict (outcome conf) (first answers (classify conf) packs') := scan_outcome { conf with packs := packs' }
  simp only [same]
  rw [first_rearranged_iff reordered_answers (classify conf) (verdict (outcome conf)) packs]
  have alike : verdict (outcome conf) (some .low) = verdict (outcome conf) (some .high) ↔
      isCharging conf = false ∧ checkState conf .forceSoc = true ∧ conf.chargeAmps = 0.1 := by
    simp [verdict,outcome]
  rw [← alike]
  constructor
  · intro agree
    by_cases both : (∃ v ∈ packs.flatMap answers, Low conf v) ∧ ∃ v ∈ packs.flatMap answers, High conf v
    · obtain ⟨⟨x,hx,low⟩,y,hy,high⟩ := both
      exact Or.inr (agree x hx y hy .low .high ((classify_low conf x).mpr low) ((classify_high conf y).mpr high))
    · exact Or.inl both
  · intro condition x hx y hy a b stop stop'
    have meet (u v : ℚ) (hu : u ∈ packs.flatMap answers) (hv : v ∈ packs.flatMap answers)
        (low : classify conf u = some .low) (high : classify conf v = some .high) :
        verdict (outcome conf) (some .low) = verdict (outcome conf) (some .high) :=
      condition.resolve_left fun apart =>
        apart ⟨⟨u,hu,(classify_low conf u).mp low⟩,v,hv,(classify_high conf v).mp high⟩
    cases a <;> cases b
    · rfl
    · exact meet x y hx hy stop stop'
    · exact (meet y x hy hx stop' stop).symm
    · rfl

def cellPack (v : ℚ) : Pack := { state := 1, cellvolt := [v] }

def chargingConf : Conf := { state := 4, chargeAmps := 10, cellCritLow := 2, cellCritHigh := 3.7 }

/-- A low cell in the first pack hides a high one in the second. -/
theorem low_hides_high :
    ¬ ∀ packs', Rearranged Reordered [cellPack 4,cellPack 1] packs' →
      outcome (scan { chargingConf with packs := packs' }).1 =
        outcome (scan { chargingConf with packs := [cellPack 4,cellPack 1] }).1 := by
  intro same
  have moved : Rearranged Reordered [cellPack 4,cellPack 1] [cellPack 1,cellPack 4] :=
    ⟨[cellPack 4,cellPack 1],.cons ⟨_,.refl _,rfl⟩ (.cons ⟨_,.refl _,rfl⟩ .nil),.swap _ _ _⟩
  have differ : outcome (scan { chargingConf with packs := [cellPack 1,cellPack 4] }).1 ≠
      outcome (scan { chargingConf with packs := [cellPack 4,cellPack 1] }).1 := by decide +kernel
  exact differ (same _ moved)

end Mybmm.CritScan
