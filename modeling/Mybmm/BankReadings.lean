import Mathlib.Data.List.TakeWhile
import Mybmm.Support.Averages
import Mybmm.CritScan

/-! main.c: the bank's temperature and current out of those of its packs. Both are
sums over the packs divided by how many packs reported, whatever was summed. -/
namespace Mybmm.BankReadings
open Config Flags Battery Packs Main CritScan Averages

/-- The configuration once a pass has its readings together. -/
def measured (invReported : Bool) (conf : Conf) : Conf :=
  let (conf,totals) := scan conf
  resolveReadings invReported totals (resolveCapacity totals conf)

theorem conclude_measured (i : Tick) (startup : Int) (invReported : Bool) (conf : Conf) :
    conclude i startup invReported (scan conf).2 (scan conf).1 =
      let conf := chargeCheck i.clock (resolveSoc (measured invReported conf))
      if invReported then ⟨advance ⟨softStart startup conf,startup⟩,some (softStart startup conf),false⟩
      else ⟨advance ⟨conf,startup⟩,none,false⟩ := rfl

/-- All packs have reported, with every cell in range. -/
def InRange (conf : Conf) : Prop :=
  ∀ pp ∈ conf.packs, check pp.state PackState.updated = true ∧
    ∀ v ∈ pp.cellvolt, conf.cellCritLow < v ∧ v < conf.cellCritHigh

instance (conf : Conf) : Decidable (InRange conf) := inferInstanceAs (Decidable (∀ pp ∈ conf.packs, _))

def temps (conf : Conf) : List ℚ := conf.packs.flatMap Pack.temps

def currents (conf : Conf) : List ℚ := conf.packs.map Pack.current

/-! The totals. -/

private theorem inRange_clear {conf : Conf} (ready : InRange conf) (pp : Pack) (member : pp ∈ conf.packs) :
    (answers pp).findSome? (classify conf) = none := by
  rw [answers,if_pos (ready pp member).1,List.findSome?_eq_none_iff]
  intro v cell
  obtain ⟨low,high⟩ := (ready pp member).2 v cell
  rw [classify,if_neg (not_le.mpr low),if_neg (not_le.mpr high)]

private theorem scanPacks_inRange {conf : Conf} (ready : InRange conf) : scanPacks conf {} conf.packs =
    ((tally conf {} conf.packs).1,(tally conf {} conf.packs).2,true) := by
  have all : counted conf conf.packs = conf.packs := by
    have clear : ∀ pp ∈ conf.packs, ((answers pp).findSome? (classify conf)).isNone = true := by
      intro pp member
      rw [inRange_clear ready pp member]
      rfl
    rw [counted,List.takeWhile_eq_self_iff.mpr clear,List.filter_eq_self]
    exact fun pp member => (ready pp member).1
  have none : firstCrit conf conf.packs = none := by
    rw [firstCrit,Scan.first,List.findSome?_eq_none_iff]
    intro v cell
    obtain ⟨pp,member,own⟩ := List.mem_flatMap.mp cell
    exact List.findSome?_eq_none_iff.mp (inRange_clear ready pp member) v own
  rw [scanPacks_eq,all,none]
  rfl

private theorem foldl_add_eq (start : ℚ) (vs : List ℚ) : vs.foldl (· + ·) start = start + vs.sum := by
  induction vs generalizing start with
  | nil => simp
  | cons v vs ih => rw [List.foldl_cons,ih,List.sum_cons,add_assoc]

private theorem tally_totals (conf : Conf) (totals : Totals) (packs : List Pack) :
    (tally conf totals packs).2.temp = totals.temp + (packs.flatMap Pack.temps).sum ∧
      (tally conf totals packs).2.current = totals.current + (packs.map Pack.current).sum ∧
      (tally conf totals packs).2.reported = totals.reported + packs.length := by
  induction packs generalizing conf totals with
  | nil => simp [tally]
  | cons pp rest ih =>
    obtain ⟨temp,current,reported⟩ := ih (countPack (pp.cellvolt.foldl Extent.add ⟨conf.cellCritHigh,0,0⟩) pp conf)
      (totals.count (pp.cellvolt.foldl Extent.add ⟨conf.cellCritHigh,0,0⟩) pp)
    rw [tally]
    refine ⟨temp.trans ?_,current.trans ?_,reported.trans ?_⟩
    · simp only [Totals.count]
      rw [foldl_add_eq,List.flatMap_cons,List.sum_append,add_assoc]
    · simp only [Totals.count]
      rw [List.map_cons,List.sum_cons,add_assoc]
    · simp only [Totals.count]
      rw [List.length_cons,Nat.add_right_comm,Nat.add_assoc]

private theorem tally_keeps {β : Type} (f : Conf → β) (ignores : ∀ extent pp conf, f (countPack extent pp conf) = f conf)
    (conf : Conf) (totals : Totals) (packs : List Pack) : f (tally conf totals packs).1 = f conf := by
  induction packs generalizing conf totals with
  | nil => rfl
  | cons pp rest ih => exact (ih _ _).trans (ignores _ pp conf)

private theorem scan_inRange {conf : Conf} (ready : InRange conf) :
    scan conf = (latch true (tally conf {} conf.packs).1,(tally conf {} conf.packs).2) := by
  rw [scan,scanPacks_inRange ready]

private theorem latch_keeps {β : Type} (f : Conf → β) (ignores : ∀ conf v, f (clearState conf v) = f conf)
    (inRange : Bool) (conf : Conf) : f (latch inRange conf) = f conf := by
  unfold latch
  split
  · dsimp only
    split
    · rw [ignores,ignores]
    · rw [ignores]
  · rfl

private theorem resolveCapacity_keeps (totals : Totals) (conf : Conf) :
    (resolveCapacity totals conf).inverter = conf.inverter ∧ (resolveCapacity totals conf).usePackv = conf.usePackv := by
  unfold resolveCapacity
  dsimp only
  split_ifs <;> exact ⟨rfl,rfl⟩

private theorem scan_keeps {β : Type} (f : Conf → β) (counts : ∀ extent pp conf, f (countPack extent pp conf) = f conf)
    (clears : ∀ conf v, f (clearState conf v) = f conf) {conf : Conf} (ready : InRange conf) :
    f (scan conf).1 = f conf := by
  rw [scan_inRange ready]
  exact (latch_keeps f clears true _).trans (tally_keeps f counts conf {} conf.packs)

private theorem scan_totals {conf : Conf} (ready : InRange conf) :
    (scan conf).2.temp = (temps conf).sum ∧ (scan conf).2.current = (currents conf).sum ∧
      (scan conf).2.reported = conf.packs.length := by
  have totals := tally_totals conf {} conf.packs
  simp only [zero_add] at totals
  rw [scan_inRange ready]
  exact totals

/-! The temperature. -/

private theorem batteryTemp_eq (invReported : Bool) {conf : Conf} (ready : InRange conf) (filled : conf.packs ≠ []) :
    (measured invReported conf).batteryTemp = (temps conf).sum / conf.packs.length := by
  obtain ⟨temp,_,reported⟩ := scan_totals ready
  have some : (scan conf).2.reported ≠ 0 := by
    rw [reported]
    exact fun none => filled (List.eq_nil_of_length_eq_zero none)
  have chosen : (measured invReported conf).batteryTemp = (scan conf).2.temp / (scan conf).2.reported := by
    simp only [measured,resolveReadings,if_pos some]
    split
    · rfl
    · split <;> rfl
  rw [chosen,temp,reported]

def sensors (conf : Conf) : ℚ := (temps conf).length / conf.packs.length

private theorem packs_le_temps {packs : List Pack} (fitted : ∀ pp ∈ packs, 1 ≤ pp.temps.length) :
    packs.length ≤ (packs.flatMap Pack.temps).length := by
  induction packs with
  | nil => exact Nat.le_refl 0
  | cons pp rest ih =>
    obtain ⟨first,others⟩ := List.forall_mem_cons.mp fitted
    rw [List.length_cons,List.flatMap_cons,List.length_append,Nat.add_comm]
    exact Nat.add_le_add first (ih others)

private theorem packs_pos {conf : Conf} (filled : conf.packs ≠ []) : (0 : ℚ) < conf.packs.length :=
  Nat.cast_pos.mpr (List.length_pos_iff.mpr filled)

private theorem one_le_sensors {conf : Conf} (filled : conf.packs ≠ []) (fitted : ∀ pp ∈ conf.packs, 1 ≤ pp.temps.length) :
    1 ≤ sensors conf :=
  (one_le_div (packs_pos filled)).mpr (Nat.cast_le.mpr (packs_le_temps fitted))

private theorem temps_filled {conf : Conf} (filled : conf.packs ≠ []) (fitted : ∀ pp ∈ conf.packs, 1 ≤ pp.temps.length) :
    temps conf ≠ [] := by
  have some := List.length_pos_iff.mpr filled
  exact List.length_pos_iff.mp (some.trans_le (packs_le_temps fitted))

private theorem batteryTemp_scaled (invReported : Bool) {conf : Conf} (ready : InRange conf) (filled : conf.packs ≠ [])
    (fitted : ∀ pp ∈ conf.packs, 1 ≤ pp.temps.length) :
    (measured invReported conf).batteryTemp = sensors conf * mean (temps conf) := by
  rw [batteryTemp_eq invReported ready filled,sum_eq_mean (temps_filled filled fitted),sensors]
  exact mul_div_right_comm _ _ _

/-- It lies between the readings exactly when some reading is as far out as the
number of readings for each pack puts it. -/
theorem temp_between_iff (invReported : Bool) (conf : Conf) (ready : InRange conf) (filled : conf.packs ≠ [])
    (fitted : ∀ pp ∈ conf.packs, 1 ≤ pp.temps.length ∧ pp.temps.length ≤ 8) :
    Between (temps conf) (measured invReported conf).batteryTemp ↔
      (0 < mean (temps conf) → ∃ hi ∈ temps conf, sensors conf ≤ hi / mean (temps conf)) ∧
        (mean (temps conf) < 0 → ∃ lo ∈ temps conf, sensors conf ≤ lo / mean (temps conf)) := by
  have some : ∀ pp ∈ conf.packs, 1 ≤ pp.temps.length := fun pp member => (fitted pp member).1
  rw [batteryTemp_scaled invReported ready filled some]
  exact scaled_between_iff (temps_filled filled some) (one_le_sensors filled some)

theorem single_between (invReported : Bool) {conf : Conf} (ready : InRange conf) (filled : conf.packs ≠ [])
    (single : ∀ pp ∈ conf.packs, pp.temps.length = 1) : Between (temps conf) (measured invReported conf).batteryTemp := by
  have some : ∀ pp ∈ conf.packs, 1 ≤ pp.temps.length := fun pp member => (single pp member).ge
  have count (packs : List Pack) (one : ∀ pp ∈ packs, pp.temps.length = 1) :
      (packs.flatMap Pack.temps).length = packs.length := by
    rw [List.length_flatMap,List.map_congr_left one,List.map_const',List.sum_replicate_nat,Nat.mul_one]
  have whole : sensors conf = 1 := by
    rw [sensors,temps,count _ single,div_self (packs_pos filled).ne']
  rw [batteryTemp_scaled invReported ready filled some,whole,one_mul]
  exact mean_between (temps_filled filled some)

def bankPack (current : ℚ) (temps : List ℚ) : Pack := { state := 1, cellvolt := [3.3], current := current, temps := temps }

def bank (packs : List Pack) (amps : ℚ) : Conf :=
  { cellCritLow := 2, cellCritHigh := 3.7, packs := packs, inverter := some { batteryAmps := amps } }

theorem temp_of_two_packs : Between (temps (bank [bankPack 0 [20],bankPack 0 [5,40]] 0))
    (measured true (bank [bankPack 0 [20],bankPack 0 [5,40]] 0)).batteryTemp := by
  refine (temp_between_iff true _ ?_ ?_ ?_).mpr ?_
  · decide +kernel
  · decide
  · decide
  · decide +kernel

/-- Two sensors at twenty degrees make forty. -/
theorem temp_of_twenty : InRange (bank [bankPack 0 [20,20]] 0) ∧
    ¬ Between (temps (bank [bankPack 0 [20,20]] 0)) (measured true (bank [bankPack 0 [20,20]] 0)).batteryTemp := by
  refine ⟨by decide +kernel,?_⟩
  rintro ⟨_,hi,member,above⟩
  revert hi
  decide +kernel

/-! The current. -/

/-- A branch `main` can take: there is something to read. -/
def Reached (conf : Conf) (invReported : Bool) : Prop := invReported = true ∨ conf.packs ≠ []

/-- Whichever branch is taken, the bank has one current, and the charge is checked with
one current. -/
def SameCurrent (conf : Conf) : Prop :=
  ∀ a b u v, Reached conf a → Reached conf b →
    let amps : ℚ := (measured a { conf with usePackv := u }).batteryAmps
    let amps' : ℚ := (measured b { conf with usePackv := v }).batteryAmps
    amps = amps' ∧ ∀ clock (next : Conf),
      chargeCheck clock { next with batteryAmps := amps } = chargeCheck clock { next with batteryAmps := amps' }

private theorem resolveReadings_amps (invReported : Bool) (totals : Totals) (conf : Conf) :
    (resolveReadings invReported totals conf).batteryAmps =
      if totals.reported ≠ 0 ∧ (conf.usePackv ≠ 0 ∨ invReported = false) then totals.current / totals.reported
      else if invReported then (conf.inverter.getD {}).batteryAmps else conf.batteryAmps := by
  unfold resolveReadings
  dsimp only
  split
  · rfl
  · split <;> rfl

private theorem batteryAmps_eq (invReported : Bool) (conf : Conf) (ready : InRange conf) {inv : Inverter}
    (fitted : conf.inverter = some inv) (reached : Reached conf invReported) :
    (measured invReported conf).batteryAmps =
      if conf.packs ≠ [] ∧ (conf.usePackv ≠ 0 ∨ invReported = false) then (currents conf).sum / conf.packs.length
      else inv.batteryAmps := by
  obtain ⟨_,current,reported⟩ := scan_totals ready
  have inverter : (resolveCapacity (scan conf).2 (scan conf).1).inverter = some inv :=
    (resolveCapacity_keeps _ _).1.trans
      ((scan_keeps Conf.inverter (fun _ _ _ => rfl) (fun _ _ => rfl) ready).trans fitted)
  have use : (resolveCapacity (scan conf).2 (scan conf).1).usePackv = conf.usePackv :=
    (resolveCapacity_keeps _ _).2.trans (scan_keeps Conf.usePackv (fun _ _ _ => rfl) (fun _ _ => rfl) ready)
  simp only [measured,resolveReadings_amps,inverter,use,Option.getD_some,current,reported,ne_eq,
    List.length_eq_zero_iff]
  split_ifs with packs reports
  · rfl
  · rfl
  · obtain on | filled := reached
    · exact absurd on reports
    · exact absurd ⟨filled,Or.inr (Bool.eq_false_of_not_eq_true reports)⟩ packs

/-- The sources agree exactly when there is nothing to divide by, or nothing to
divide. -/
theorem same_current_iff (conf : Conf) (inv : Inverter) (ready : InRange conf) (fitted : conf.inverter = some inv)
    (total : inv.batteryAmps = (currents conf).sum) :
    SameCurrent conf ↔ conf.packs.length ≤ 1 ∨ (currents conf).sum = 0 := by
  have amps (a : Bool) (u : Int) (reached : Reached conf a) := batteryAmps_eq a { conf with usePackv := u }
    ready fitted reached
  constructor
  · intro same
    by_cases filled : conf.packs = []
    · exact Or.inl (by simp [filled])
    have packs := amps true 1 (Or.inl rfl)
    have inverter := amps true 0 (Or.inl rfl)
    obtain ⟨equal,_⟩ := same true true 1 0 (Or.inl rfl) (Or.inl rfl)
    rw [packs,inverter,if_pos ⟨filled,Or.inl one_ne_zero⟩,if_neg (by simp),total] at equal
    have count := (div_eq_iff (packs_pos filled).ne').mp equal
    rcases eq_or_ne (currents conf).sum 0 with none | flows
    · exact Or.inr none
    · have one : (conf.packs.length : ℚ) = 1 := mul_left_cancel₀ flows (count.symm.trans (mul_one _).symm)
      exact Or.inl (Nat.cast_eq_one.mp one).le
  · intro condition
    have divided (filled : conf.packs ≠ []) : (currents conf).sum / conf.packs.length = (currents conf).sum := by
      rcases condition with few | none
      · have one : conf.packs.length = 1 := Nat.le_antisymm few (List.length_pos_iff.mpr filled)
        rw [one,Nat.cast_one,div_one]
      · rw [none,zero_div]
    have level (a : Bool) (u : Int) (reached : Reached conf a) :
        (measured a { conf with usePackv := u }).batteryAmps = (currents conf).sum := by
      refine (amps a u reached).trans ?_
      split_ifs with packs
      · exact divided packs.1
      · exact total
    intro a b u v reached reached'
    dsimp only
    rw [level a u reached,level b v reached']
    exact ⟨rfl,fun _ _ => rfl⟩

theorem same_current_of_one : SameCurrent (bank [bankPack (-10) [20]] (-10)) := by
  refine (same_current_iff _ _ ?_ rfl ?_).mpr (Or.inl ?_)
  · decide +kernel
  · decide +kernel
  · decide

/-- Two packs that take ten amperes each: twenty for the inverter, ten for the packs. -/
theorem half_the_current : InRange (bank [bankPack (-10) [20],bankPack (-10) [20]] (-20)) ∧
    (-20 : ℚ) = (currents (bank [bankPack (-10) [20],bankPack (-10) [20]] (-20))).sum ∧
    ¬ SameCurrent (bank [bankPack (-10) [20],bankPack (-10) [20]] (-20)) := by
  refine ⟨by decide +kernel,by decide +kernel,fun same => ?_⟩
  obtain ⟨equal,_⟩ := same true true 1 0 (Or.inl rfl) (Or.inl rfl)
  exact absurd equal (by decide +kernel)

end Mybmm.BankReadings
