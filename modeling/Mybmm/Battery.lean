import Mathlib.Tactic.Linarith
import Mybmm.Config

/-! battery.c: resolving the cell limits, and the charge functions. The `rep`
argument of the source only selects log lines and is left out, like every
other effect of logging. -/
namespace Mybmm.Battery
open Config Flags Libc

structure Chemistry where
  cellLow : ℚ
  cellCritLow : ℚ
  cellHigh : ℚ
  cellCritHigh : ℚ
  cRate : ℚ
  eRate : ℚ
  cells : Int
  cellMin : ℚ
  cellMax : ℚ

def lithium : Chemistry where
  cellLow := 3.0
  cellCritLow := 2.95
  cellHigh := 4.2
  cellCritHigh := 4.25
  cRate := 0.7
  eRate := 1
  cells := 14
  cellMin := 2.8
  cellMax := 4.2

def lifepo4 : Chemistry where
  cellLow := 2.5
  cellCritLow := 2.0
  cellHigh := 3.4
  cellCritHigh := 3.70
  cRate := 1
  eRate := 1
  cells := 16
  cellMin := 2.5
  cellMax := 3.65

def titanate : Chemistry where
  cellLow := 1.81
  cellCritLow := 1.8
  cellHigh := 2.85
  cellCritHigh := 2.88
  cRate := 1
  eRate := 10
  cells := 22
  cellMin := 1.8
  cellMax := 2.85

/-- `BATTERY_CHEM_LIFEPO4` is 2, `BATTERY_CHEM_TITANATE` is 3, and the default
label stands before `BATTERY_CHEM_LITHIUM`. -/
def chemistry (batteryChem : Int) : Chemistry :=
  if batteryChem = 2 then lifepo4 else if batteryChem = 3 then titanate else lithium

/-- The switch of `battery_init`: negative settings take the chemistry's value. -/
def resolveLimits (conf : Conf) : Conf :=
  let chem := chemistry conf.batteryChem
  { conf with
    cellLow := if conf.cellLow < 0 then chem.cellLow else conf.cellLow
    cellCritLow := if conf.cellCritLow < 0 then chem.cellCritLow else conf.cellCritLow
    cellHigh := if conf.cellHigh < 0 then chem.cellHigh else conf.cellHigh
    cellCritHigh := if conf.cellCritHigh < 0 then chem.cellCritHigh else conf.cellCritHigh
    cRate := if conf.cRate < 0 then chem.cRate else conf.cRate
    eRate := if conf.eRate < 0 then chem.eRate else conf.eRate
    cells := if conf.cells < 0 then chem.cells else conf.cells
    cellMin := chem.cellMin
    cellMax := chem.cellMax }

/-- The charge voltage `charge_stop`, `charge_start` and `charge_check` each
write out in full. -/
def setPoint (conf : Conf) : ℚ :=
  if conf.userChargeVoltage < 0 then conf.cellHigh * conf.cells else conf.userChargeVoltage

def dischargeSetPoint (conf : Conf) : ℚ :=
  if conf.userDischargeVoltage < 0 then conf.cellLow * conf.cells else conf.userDischargeVoltage

def chargeStop (conf : Conf) : Conf :=
  { clearState conf .charging with
    chargeAmps := 0.1
    chargeVoltage := setPoint conf
    dischargeVoltage := dischargeSetPoint conf
    dischargeAmps :=
      if conf.userDischargeAmps < 0 then conf.eRate * conf.capacity else conf.userDischargeAmps }

def chargeStart (conf : Conf) : Conf :=
  if truncate conf.capacity = 0 then conf else
  let conf := setState conf .charging
  let conf :=
    if conf.chargeAtMax ≠ 0 then { conf with chargeVoltage := conf.chargeMaxVoltage }
    else { conf with chargeVoltage := setPoint conf, chargeTargetVoltage := setPoint conf }
  { conf with
    chargeAmps := if conf.userChargeAmps < 0 then conf.cRate * conf.capacity else conf.userChargeAmps
    chargeMode := 1
    tvolt := conf.batteryVoltage
    startTemp := conf.batteryTemp }

def resolveVoltages (conf : Conf) : Conf :=
  { conf with
    chargeMaxVoltage :=
      if conf.userChargeVoltage < 0 then conf.cellMax * conf.cells else conf.userChargeMaxVoltage
    chargeTargetVoltage := conf.cellHigh * conf.cells
    capacity := if conf.userCapacity < 0 then 0 else conf.userCapacity }

def batteryInit (conf : Conf) : Conf :=
  chargeStart (chargeStop (resolveVoltages (resolveLimits conf)))

def pct (val1 val2 : ℚ) : ℚ := 100 - val2 / val1 * 100

def hours (n : Int) : Int := n * 3600

/-- The two readings of the clock one `charge_check` can make. -/
structure Clock where
  now : Int
  later : Int
  ordered : now ≤ later

def derate (conf : Conf) : Conf :=
  if conf.batteryTemp ≤ 5 then { conf with chargeAmps := conf.chargeAmps / 4 } else conf

def checkCC (later : Int) (conf : Conf) : Conf :=
  let batteryAmps := conf.batteryAmps * -1
  if conf.batteryVoltage > conf.chargeTargetVoltage ∨ conf.packCellMax ≥ conf.cellMax then
    { conf with cvStartTime := later, chargeMode := 2, chargeVoltage := setPoint conf }
  else if batteryAmps < conf.chargeAmps ∧ conf.frequency > 60 ∧
      conf.chargeVoltage < conf.chargeMaxVoltage then
    let conf := { conf with chargeVoltage := conf.chargeVoltage + 0.1 }
    if conf.chargeVoltage > conf.chargeMaxVoltage then
      { conf with chargeVoltage := conf.chargeMaxVoltage }
    else conf
  else conf

def chargeCheck (clock : Clock) (conf : Conf) : Conf :=
  if isCharging conf then
    if conf.batteryTemp ≤ 0 then chargeStop conf else
    let conf := derate conf
    if pct conf.batteryTemp conf.startTemp > 5 then chargeStop conf
    else if conf.chargeMode = 1 then checkCC clock.later conf
    else if conf.chargeMode = 2 then
      let endTime := conf.cvStartTime + hours 2
      if clock.now ≥ endTime then chargeStop conf else conf
    else conf
  else if conf.batteryVoltage < conf.dischargeVoltage ∨ conf.packCellMin ≤ conf.cellMin then
    chargeStart conf
  else conf

/-! What the charge functions leave alone. -/

@[simp] theorem isCharging_chargeStop (conf : Conf) : isCharging (chargeStop conf) = false := by
  simp [isCharging,checkState,chargeStop,clearState]

theorem checkState_chargeStop (conf : Conf) (v : State) (other : State.charging ≠ v) :
    checkState (chargeStop conf) v = checkState conf v := by
  simp [checkState,chargeStop,clearState,other]

def started (conf : Conf) : Conf :=
  { setState conf .charging with
    chargeVoltage := if conf.chargeAtMax ≠ 0 then conf.chargeMaxVoltage else setPoint conf
    chargeTargetVoltage := if conf.chargeAtMax ≠ 0 then conf.chargeTargetVoltage else setPoint conf
    chargeAmps := if conf.userChargeAmps < 0 then conf.cRate * conf.capacity else conf.userChargeAmps
    chargeMode := 1
    tvolt := conf.batteryVoltage
    startTemp := conf.batteryTemp }

theorem chargeStart_empty (conf : Conf) (empty : truncate conf.capacity = 0) :
    chargeStart conf = conf := by
  simp [chargeStart,empty]

theorem chargeStart_started (conf : Conf) (filled : truncate conf.capacity ≠ 0) :
    chargeStart conf = started conf := by
  unfold chargeStart
  rw [if_neg filled]
  by_cases top : conf.chargeAtMax = 0
  · have top' : (setState conf .charging).chargeAtMax = 0 := top
    simp only [top',ne_eq,not_true_eq_false,if_false,started,top]
    rfl
  · have top' : ¬ (setState conf .charging).chargeAtMax = 0 := top
    simp only [top',ne_eq,not_false_eq_true,if_true,started,top]
    rfl

@[simp] theorem isCharging_started (conf : Conf) : isCharging (started conf) = true := by
  simp [isCharging,checkState,started,setState]

theorem checkState_chargeStart (conf : Conf) (v : State) (other : State.charging ≠ v) :
    checkState (chargeStart conf) v = checkState conf v := by
  by_cases empty : truncate conf.capacity = 0
  · rw [chargeStart_empty conf empty]
  · rw [chargeStart_started conf empty]
    simp [checkState,started,setState,other]

/-- The configuration with everything a charge changes blanked out. -/
def still (conf : Conf) : Conf :=
  { clearState conf .charging with
    chargeAmps := 0
    chargeVoltage := 0
    dischargeVoltage := 0
    dischargeAmps := 0
    chargeTargetVoltage := 0
    chargeMode := 0
    tvolt := 0
    startTemp := 0
    cvStartTime := 0 }

theorem still_congr {β : Type*} (f : Conf → β) (ignores : ∀ conf, f (still conf) = f conf) {before after : Conf}
    (same : still after = still before) : f after = f before := by
  rw [← ignores after,same,ignores]

theorem still_chargeStop (conf : Conf) : still (chargeStop conf) = still conf := by
  simp only [still,chargeStop,clearState,clear_clear]

private theorem still_started (conf : Conf) : still (started conf) = still conf := by
  simp only [still,started,clearState,setState,clear_set]

theorem still_chargeStart (conf : Conf) : still (chargeStart conf) = still conf := by
  by_cases empty : truncate conf.capacity = 0
  · rw [chargeStart_empty conf empty]
  · rw [chargeStart_started conf empty,still_started]

theorem still_batteryInit (conf : Conf) :
    still (batteryInit conf) = still (resolveVoltages (resolveLimits conf)) := by
  rw [batteryInit,still_chargeStart,still_chargeStop]

private theorem still_derate (conf : Conf) : still (derate conf) = still conf := by
  unfold derate
  split <;> rfl

private theorem still_checkCC (later : Int) (conf : Conf) : still (checkCC later conf) = still conf := by
  unfold checkCC
  dsimp only
  split
  · rfl
  · split
    · split <;> rfl
    · rfl

theorem still_chargeCheck (clock : Clock) (conf : Conf) : still (chargeCheck clock conf) = still conf := by
  unfold chargeCheck
  dsimp only
  split
  · split
    · exact still_chargeStop conf
    · split
      · rw [still_chargeStop,still_derate]
      · split
        · rw [still_checkCC,still_derate]
        · split
          · split
            · rw [still_chargeStop,still_derate]
            · exact still_derate conf
          · exact still_derate conf
  · split
    · exact still_chargeStart conf
    · rfl

/-! Every outcome of a check, with what decides it. -/

def Ends (now : Int) (conf : Conf) : Prop :=
  conf.batteryTemp ≤ 0 ∨ pct conf.batteryTemp conf.startTemp > 5 ∨
    (conf.chargeMode = 2 ∧ conf.cvStartTime + hours 2 ≤ now)

def Starts (conf : Conf) : Prop :=
  truncate conf.capacity ≠ 0 ∧
    (conf.batteryVoltage < conf.dischargeVoltage ∨ conf.packCellMin ≤ conf.cellMin)

def saturated (later : Int) (conf : Conf) : Conf :=
  { conf with cvStartTime := later, chargeMode := 2, chargeVoltage := setPoint conf }

theorem derate_amps (conf : Conf) : ∃ amps, derate conf = { conf with chargeAmps := amps } := by
  unfold derate
  split
  · exact ⟨_,rfl⟩
  · exact ⟨conf.chargeAmps,rfl⟩

private theorem chargeStop_amps (conf : Conf) (amps : ℚ) :
    chargeStop { conf with chargeAmps := amps } = chargeStop conf := rfl

theorem checkCC_cases (later : Int) (conf : Conf) :
    checkCC later conf = saturated later conf ∨
      ∃ volts, checkCC later conf = { conf with chargeVoltage := volts } ∧
        (volts = conf.chargeVoltage ∨ volts ≤ conf.chargeMaxVoltage) := by
  unfold checkCC
  dsimp only
  split
  · exact Or.inl rfl
  · split
    · split
      · exact Or.inr ⟨_,rfl,Or.inr le_rfl⟩
      · rename_i within
        exact Or.inr ⟨_,rfl,Or.inr (not_lt.mp within)⟩
    · exact Or.inr ⟨conf.chargeVoltage,rfl,Or.inl rfl⟩

/-- The steps of the charge controller that one check can make. -/
inductive Checked (clock : Clock) (conf : Conf) : Conf → Prop
  | stop (charging : isCharging conf = true) (ends : Ends clock.now conf) :
      Checked clock conf (chargeStop conf)
  | saturate (charging : isCharging conf = true) (goes : ¬ Ends clock.now conf)
      (mode : conf.chargeMode = 1) (amps : ℚ) :
      Checked clock conf (saturated clock.later { conf with chargeAmps := amps })
  | creep (charging : isCharging conf = true) (goes : ¬ Ends clock.now conf)
      (mode : conf.chargeMode = 1) (amps volts : ℚ)
      (bound : volts = conf.chargeVoltage ∨ volts ≤ conf.chargeMaxVoltage) :
      Checked clock conf { conf with chargeAmps := amps, chargeVoltage := volts }
  | hold (charging : isCharging conf = true) (goes : ¬ Ends clock.now conf)
      (mode : conf.chargeMode ≠ 1) (amps : ℚ) :
      Checked clock conf { conf with chargeAmps := amps }
  | start (idle : isCharging conf = false) (starts : Starts conf) :
      Checked clock conf (started conf)
  | rest (idle : isCharging conf = false) (rests : ¬ Starts conf) : Checked clock conf conf

theorem chargeCheck_checked (clock : Clock) (conf : Conf) :
    Checked clock conf (chargeCheck clock conf) := by
  obtain ⟨amps,derated⟩ := derate_amps conf
  by_cases charging : isCharging conf = true
  · by_cases ends : Ends clock.now conf
    · have stopped : chargeCheck clock conf = chargeStop conf := by
        unfold chargeCheck
        rw [if_pos charging,derated]
        dsimp only
        rw [chargeStop_amps conf amps]
        by_cases cold : conf.batteryTemp ≤ 0
        · rw [if_pos cold]
        · by_cases rise : pct conf.batteryTemp conf.startTemp > 5
          · rw [if_neg cold,if_pos rise]
          · obtain ⟨mode,elapsed⟩ : conf.chargeMode = 2 ∧ conf.cvStartTime + hours 2 ≤ clock.now := by
              rcases ends with h | h | h
              · exact absurd h cold
              · exact absurd h rise
              · exact h
            have other : ¬ conf.chargeMode = 1 := by omega
            rw [if_neg cold,if_neg rise,if_neg other,if_pos mode,if_pos elapsed]
      rw [stopped]
      exact .stop charging ends
    · obtain ⟨cold,rise,open'⟩ : ¬ conf.batteryTemp ≤ 0 ∧ ¬ pct conf.batteryTemp conf.startTemp > 5 ∧
          ¬ (conf.chargeMode = 2 ∧ conf.cvStartTime + hours 2 ≤ clock.now) := by
        simpa only [Ends,not_or] using ends
      by_cases mode : conf.chargeMode = 1
      · have current : chargeCheck clock conf = checkCC clock.later { conf with chargeAmps := amps } := by
          unfold chargeCheck
          rw [if_pos charging,if_neg cold,derated]
          dsimp only
          rw [if_neg rise,if_pos mode]
        rw [current]
        rcases checkCC_cases clock.later { conf with chargeAmps := amps } with same | ⟨volts,same,bound⟩
        · rw [same]
          exact .saturate charging ends mode amps
        · rw [same]
          exact .creep charging ends mode amps volts bound
      · have held : chargeCheck clock conf = { conf with chargeAmps := amps } := by
          unfold chargeCheck
          rw [if_pos charging,if_neg cold,derated]
          dsimp only
          rw [if_neg rise,if_neg mode]
          split
          · rename_i constant
            rw [if_neg (fun elapsed => open' ⟨constant,elapsed⟩)]
          · rfl
        rw [held]
        exact .hold charging ends mode amps
  · have idle : isCharging conf = false := by simpa using charging
    by_cases low : conf.batteryVoltage < conf.dischargeVoltage ∨ conf.packCellMin ≤ conf.cellMin
    · by_cases empty : truncate conf.capacity = 0
      · have rests : chargeCheck clock conf = conf := by
          simp only [chargeCheck,idle,low,if_true,Bool.false_eq_true,if_false]
          exact chargeStart_empty conf empty
        rw [rests]
        exact .rest idle (fun starts => starts.1 empty)
      · have starts : chargeCheck clock conf = started conf := by
          simp only [chargeCheck,idle,low,if_true,Bool.false_eq_true,if_false]
          exact chargeStart_started conf empty
        rw [starts]
        exact .start idle ⟨empty,low⟩
    · have rests : chargeCheck clock conf = conf := by
        simp only [chargeCheck,idle,low,Bool.false_eq_true,if_false]
      rw [rests]
      exact .rest idle (fun starts => low starts.2)

theorem isCharging_chargeCheck (clock : Clock) (conf : Conf) :
    isCharging (chargeCheck clock conf) = true ↔
      (isCharging conf = true ∧ ¬ Ends clock.now conf) ∨ (isCharging conf = false ∧ Starts conf) := by
  generalize outcome : chargeCheck clock conf = after
  have checked : Checked clock conf after := outcome ▸ chargeCheck_checked clock conf
  cases checked with
  | stop charging ends => simp [charging,ends]
  | saturate charging goes mode amps => exact iff_of_true charging (Or.inl ⟨charging,goes⟩)
  | creep charging goes mode amps volts bound => exact iff_of_true charging (Or.inl ⟨charging,goes⟩)
  | hold charging goes mode amps => exact iff_of_true charging (Or.inl ⟨charging,goes⟩)
  | start idle starts => simp [idle,starts]
  | rest idle rests => simp [idle,rests]

end Mybmm.Battery
