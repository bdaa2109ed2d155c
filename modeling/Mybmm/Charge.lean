import Mybmm.Battery

/-! Runs of the charge functions from `battery_init` on, in any order and with
any readings in between. The controller is idle, in constant current or in
constant voltage, and its voltage never passes the cap `battery_init` computed. -/
namespace Mybmm.Charge
open Config Battery Libc Flags

/-- What ties the charge state to the figures sent to the inverter. -/
structure Sound (conf : Conf) : Prop where
  active : isCharging conf = true →
    truncate conf.capacity ≠ 0 ∧ (conf.chargeMode = 1 ∨ conf.chargeMode = 2)
  constant : isCharging conf = true → conf.chargeMode = 2 → conf.chargeVoltage = setPoint conf
  stopped : isCharging conf = false → conf.chargeAmps = 0.1 ∧ conf.chargeVoltage = setPoint conf
  discharge : conf.dischargeVoltage = dischargeSetPoint conf

theorem chargeStop_sound (conf : Conf) : Sound (chargeStop conf) where
  active charging := by simp at charging
  constant charging := by simp at charging
  stopped _ := ⟨rfl,rfl⟩
  discharge := rfl

private theorem started_sound (conf : Conf) (sound : Sound conf) (filled : truncate conf.capacity ≠ 0) :
    Sound (started conf) where
  active _ := ⟨filled,Or.inl rfl⟩
  constant _ mode := by
    have cc : (started conf).chargeMode = 1 := rfl
    omega
  stopped idle := by simp at idle
  discharge := sound.discharge

theorem chargeStart_sound (conf : Conf) (sound : Sound conf) : Sound (chargeStart conf) := by
  by_cases empty : truncate conf.capacity = 0
  · rw [chargeStart_empty conf empty]
    exact sound
  · rw [chargeStart_started conf empty]
    exact started_sound conf sound empty

theorem chargeCheck_sound (clock : Clock) (conf : Conf) (sound : Sound conf) :
    Sound (chargeCheck clock conf) := by
  generalize outcome : chargeCheck clock conf = after
  have checked : Checked clock conf after := outcome ▸ chargeCheck_checked clock conf
  -- A charge in progress makes the clause about a stopped one vacuous.
  have busy {amps : Prop} (charging : isCharging conf = true) (idle : isCharging conf = false) : amps := by
    rw [charging] at idle
    contradiction
  cases checked with
  | stop charging ends => exact chargeStop_sound conf
  | saturate charging goes mode amps =>
    exact ⟨fun _ => ⟨(sound.active charging).1,Or.inr rfl⟩,fun _ _ => rfl,busy charging,sound.discharge⟩
  | creep charging goes mode amps volts bound =>
    refine ⟨sound.active,fun _ constant => ?_,busy charging,sound.discharge⟩
    have cc : conf.chargeMode = 2 := constant
    omega
  | hold charging goes mode amps =>
    exact ⟨sound.active,sound.constant,busy charging,sound.discharge⟩
  | start idle starts => exact started_sound conf sound starts.1
  | rest idle rests => exact sound

theorem batteryInit_sound (conf : Conf) : Sound (batteryInit conf) :=
  chargeStart_sound _ (chargeStop_sound _)

/-! Runs. -/

structure Readings where
  batteryVoltage : ℚ
  batteryAmps : ℚ
  batteryTemp : ℚ
  frequency : ℚ
  packCellMin : ℚ
  packCellMax : ℚ

def sense (conf : Conf) (r : Readings) : Conf :=
  { conf with
    batteryVoltage := r.batteryVoltage
    batteryAmps := r.batteryAmps
    batteryTemp := r.batteryTemp
    frequency := r.frequency
    packCellMin := r.packCellMin
    packCellMax := r.packCellMax }

def assignCapacity (conf : Conf) (capacity : ℚ) : Conf :=
  if truncate conf.capacity = 0 then { conf with capacity := capacity } else conf

inductive Op where
  | start
  | stop
  | check (clock : Clock)
  | sense (r : Readings)
  | capacity (capacity : ℚ)

def apply (conf : Conf) : Op → Conf
  | .start => chargeStart conf
  | .stop => chargeStop conf
  | .check clock => chargeCheck clock conf
  | .sense r => Charge.sense conf r
  | .capacity capacity => assignCapacity conf capacity

def run (conf : Conf) (ops : List Op) : Conf := ops.foldl apply conf

private theorem assignCapacity_sound (conf : Conf) (capacity : ℚ) (sound : Sound conf) :
    Sound (assignCapacity conf capacity) := by
  unfold assignCapacity
  split
  · rename_i empty
    exact ⟨fun charging => absurd empty (sound.active charging).1,sound.constant,sound.stopped,sound.discharge⟩
  · exact sound

private theorem apply_sound (conf : Conf) (sound : Sound conf) (op : Op) : Sound (apply conf op) := by
  cases op with
  | start => exact chargeStart_sound conf sound
  | stop => exact chargeStop_sound conf
  | check clock => exact chargeCheck_sound clock conf sound
  | sense r => exact ⟨sound.active,sound.constant,sound.stopped,sound.discharge⟩
  | capacity capacity => exact assignCapacity_sound conf capacity sound

private theorem run_sound (conf : Conf) (sound : Sound conf) (ops : List Op) : Sound (run conf ops) :=
  List.foldlRecOn ops apply sound (fun c inv op _ => apply_sound c inv op)

structure Settings where
  setPoint : ℚ
  chargeMaxVoltage : ℚ
  chargeAtMax : Int
deriving DecidableEq

def settings (conf : Conf) : Settings := ⟨Battery.setPoint conf,conf.chargeMaxVoltage,conf.chargeAtMax⟩

private theorem settings_of_still {before after : Conf} (same : still after = still before) :
    settings after = settings before := still_congr settings (fun _ => rfl) same

private theorem apply_settings (conf : Conf) (op : Op) : settings (apply conf op) = settings conf := by
  cases op with
  | start => exact settings_of_still (still_chargeStart conf)
  | stop => exact settings_of_still (still_chargeStop conf)
  | check clock => exact settings_of_still (still_chargeCheck clock conf)
  | sense r => rfl
  | capacity capacity =>
    simp only [apply,assignCapacity]
    split <;> rfl

private theorem run_settings (conf : Conf) (ops : List Op) : settings (run conf ops) = settings conf := by
  induction ops generalizing conf with
  | nil => rfl
  | cons op ops ih => exact (ih (apply conf op)).trans (apply_settings conf op)

private theorem run_setPoint (conf : Conf) (ops : List Op) : setPoint (run conf ops) = setPoint conf :=
  congrArg Settings.setPoint (run_settings conf ops)

private theorem check_in_time (clock : Clock) (conf : Conf)
    (charging : isCharging (chargeCheck clock conf) = true)
    (constant : (chargeCheck clock conf).chargeMode = 2) :
    clock.now < (chargeCheck clock conf).cvStartTime + hours 2 := by
  revert charging constant
  generalize outcome : chargeCheck clock conf = after
  have checked : Checked clock conf after := outcome ▸ chargeCheck_checked clock conf
  intro charging constant
  cases checked with
  | stop _ ends => simp at charging
  | saturate _ goes mode amps =>
    have switched : clock.now ≤ clock.later := clock.ordered
    simp only [saturated,hours]
    omega
  | creep _ goes mode amps volts bound =>
    have current : conf.chargeMode = 2 := constant
    omega
  | hold _ goes mode amps =>
    have current : conf.chargeMode = 2 := constant
    have open' : ¬ conf.cvStartTime + hours 2 ≤ clock.now := fun elapsed =>
      goes (Or.inr (Or.inr ⟨current,elapsed⟩))
    exact not_le.mp open'
  | start idle starts =>
    have cc : (started conf).chargeMode = 1 := rfl
    omega
  | rest idle rests => simp [charging] at idle

/-- The controller's phases over every run: a charge has a capacity and a phase,
constant voltage holds the set-point and lasts two hours at most, and a stopped
charge leaves the trickle rate and the set-point. -/
theorem run_phases (conf : Conf) (ops : List Op) :
    (isCharging (run (batteryInit conf) ops) = true →
      truncate (run (batteryInit conf) ops).capacity ≠ 0 ∧
        ((run (batteryInit conf) ops).chargeMode = 1 ∨ (run (batteryInit conf) ops).chargeMode = 2)) ∧
    (isCharging (run (batteryInit conf) ops) = true → (run (batteryInit conf) ops).chargeMode = 2 →
      (run (batteryInit conf) ops).chargeVoltage = setPoint (batteryInit conf)) ∧
    (∀ before clock, ops = before ++ [.check clock] →
      isCharging (run (batteryInit conf) ops) = true → (run (batteryInit conf) ops).chargeMode = 2 →
        clock.now < (run (batteryInit conf) ops).cvStartTime + 7200) ∧
    (isCharging (run (batteryInit conf) ops) = false →
      (run (batteryInit conf) ops).chargeAmps = 0.1 ∧
        (run (batteryInit conf) ops).chargeVoltage = setPoint (batteryInit conf)) := by
  have sound := run_sound (batteryInit conf) (batteryInit_sound conf) ops
  have fixed := run_setPoint (batteryInit conf) ops
  refine ⟨sound.active,fun charging mode => ?_,?_,fun idle => ?_⟩
  · rw [← fixed]
    exact sound.constant charging mode
  · rintro before clock rfl charging mode
    have last : run (batteryInit conf) (before ++ [.check clock]) =
        chargeCheck clock (run (batteryInit conf) before) := by
      simp [run,List.foldl_append,apply]
    rw [last] at charging mode ⊢
    exact check_in_time clock _ charging mode
  · rw [← fixed]
    exact sound.stopped idle

/-! The cap on the charge voltage. -/

def cap (conf : Conf) : ℚ :=
  if conf.userChargeMaxVoltage < 0 then conf.cellMax * conf.cells else conf.userChargeMaxVoltage

def chemistryCap (conf : Conf) : ℚ :=
  (chemistry conf.batteryChem).cellMax *
    (if conf.cells < 0 then (chemistry conf.batteryChem).cells else conf.cells : Int)

/-- Both voltages are configured or neither is, or the configured cap is the
chemistry's own. -/
def CapConfigured (conf : Conf) : Prop :=
  (conf.userChargeVoltage < 0 ↔ conf.userChargeMaxVoltage < 0) ∨
    conf.userChargeMaxVoltage = chemistryCap conf

private theorem batteryInit_caps (conf : Conf) :
    (batteryInit conf).chargeMaxVoltage =
        (if conf.userChargeVoltage < 0 then chemistryCap conf else conf.userChargeMaxVoltage) ∧
      cap (batteryInit conf) =
        if conf.userChargeMaxVoltage < 0 then chemistryCap conf else conf.userChargeMaxVoltage := by
  have actual := congrArg Settings.chargeMaxVoltage (settings_of_still (still_batteryInit conf))
  have wanted := still_congr cap (fun _ => rfl) (still_batteryInit conf)
  exact ⟨actual.trans rfl,wanted.trans rfl⟩

private theorem batteryInit_cap_iff (conf : Conf) :
    (batteryInit conf).chargeMaxVoltage = cap (batteryInit conf) ↔ CapConfigured conf := by
  obtain ⟨actual,wanted⟩ := batteryInit_caps conf
  rw [actual,wanted,CapConfigured]
  by_cases volts : conf.userChargeVoltage < 0 <;> by_cases most : conf.userChargeMaxVoltage < 0
  · simp [volts,most]
  · simp [volts,most,eq_comm]
  · simp [volts,most]
  · simp [volts,most]

structure Capped (conf : Conf) : Prop where
  voltage : conf.chargeVoltage ≤ conf.chargeMaxVoltage
  target : setPoint conf ≤ conf.chargeMaxVoltage

private theorem started_capped (conf : Conf) (capped : Capped conf) : Capped (started conf) := by
  refine ⟨?_,capped.target⟩
  change (if conf.chargeAtMax ≠ 0 then conf.chargeMaxVoltage else setPoint conf) ≤ conf.chargeMaxVoltage
  split
  · exact le_rfl
  · exact capped.target

private theorem chargeStart_capped (conf : Conf) (capped : Capped conf) : Capped (chargeStart conf) := by
  by_cases empty : truncate conf.capacity = 0
  · rw [chargeStart_empty conf empty]
    exact capped
  · rw [chargeStart_started conf empty]
    exact started_capped conf capped

private theorem chargeStop_capped (conf : Conf) (target : setPoint conf ≤ conf.chargeMaxVoltage) :
    Capped (chargeStop conf) := ⟨target,target⟩

private theorem chargeCheck_capped (clock : Clock) (conf : Conf) (capped : Capped conf) :
    Capped (chargeCheck clock conf) := by
  generalize outcome : chargeCheck clock conf = after
  have checked : Checked clock conf after := outcome ▸ chargeCheck_checked clock conf
  cases checked with
  | stop charging ends => exact chargeStop_capped conf capped.target
  | saturate charging goes mode amps => exact ⟨capped.target,capped.target⟩
  | creep charging goes mode amps volts bound =>
    refine ⟨?_,capped.target⟩
    rcases bound with same | below
    · exact same ▸ capped.voltage
    · exact below
  | hold charging goes mode amps => exact ⟨capped.voltage,capped.target⟩
  | start idle starts => exact started_capped conf capped
  | rest idle rests => exact capped

private theorem apply_capped (conf : Conf) (capped : Capped conf) (op : Op) : Capped (apply conf op) := by
  cases op with
  | start => exact chargeStart_capped conf capped
  | stop => exact chargeStop_capped conf capped.target
  | check clock => exact chargeCheck_capped clock conf capped
  | sense r => exact ⟨capped.voltage,capped.target⟩
  | capacity capacity =>
    simp only [apply,assignCapacity]
    split
    · exact ⟨capped.voltage,capped.target⟩
    · exact capped

private theorem run_capped (conf : Conf) (capped : Capped conf) (ops : List Op) : Capped (run conf ops) :=
  List.foldlRecOn ops apply capped (fun c inv op _ => apply_capped c inv op)

private theorem batteryInit_capped (conf : Conf)
    (target : setPoint (batteryInit conf) ≤ (batteryInit conf).chargeMaxVoltage) :
    Capped (batteryInit conf) := by
  have fixed := settings_of_still (still_batteryInit conf)
  have point := congrArg Settings.setPoint fixed
  have most := congrArg Settings.chargeMaxVoltage fixed
  simp only [settings] at point most
  rw [point,most] at target
  exact chargeStart_capped _ (chargeStop_capped _ target)

/-- With a set-point under the cap the options ask for, every run keeps the cap
and stays under it exactly when the options name the cap consistently. -/
theorem run_under_cap_iff (conf : Conf)
    (within : setPoint (batteryInit conf) ≤ cap (batteryInit conf)) :
    (∀ ops, (run (batteryInit conf) ops).chargeMaxVoltage = cap (batteryInit conf) ∧
      (run (batteryInit conf) ops).chargeVoltage ≤ cap (batteryInit conf)) ↔ CapConfigured conf := by
  rw [← batteryInit_cap_iff]
  constructor
  · intro all
    exact (all []).1
  · intro same ops
    have kept : (run (batteryInit conf) ops).chargeMaxVoltage = (batteryInit conf).chargeMaxVoltage :=
      congrArg Settings.chargeMaxVoltage (run_settings (batteryInit conf) ops)
    have capped := run_capped _ (batteryInit_capped conf (same ▸ within)) ops
    exact ⟨kept.trans same,capped.voltage.trans (kept.trans same).le⟩

def cappedOptions : Conf :=
  { batteryChem := 1, cells := 14, cellLow := -1, cellCritLow := -1, cellHigh := 3.9,
    cellCritHigh := -1, cRate := -1, eRate := -1, userCapacity := 200, userChargeVoltage := -1,
    userChargeAmps := -1, userDischargeVoltage := -1, userDischargeAmps := -1,
    userChargeMaxVoltage := 56, chargeAtMax := 1, userSoc := -1 }

/-- The configured cap is dropped and the charge starts 2.8 V above it. -/
theorem cap_exceeded :
    setPoint (batteryInit cappedOptions) ≤ cap (batteryInit cappedOptions) ∧
      ¬ ∀ ops, (run (batteryInit cappedOptions) ops).chargeMaxVoltage = cap (batteryInit cappedOptions) ∧
        (run (batteryInit cappedOptions) ops).chargeVoltage ≤ cap (batteryInit cappedOptions) := by
  refine ⟨by decide +kernel,fun all => ?_⟩
  have above : ¬ (run (batteryInit cappedOptions) []).chargeVoltage ≤ cap (batteryInit cappedOptions) := by
    decide +kernel
  exact above (all []).2

theorem cap_respected :
    setPoint (batteryInit { cappedOptions with userChargeVoltage := 54.6 }) = 54.6 ∧
      ∀ ops, (run (batteryInit { cappedOptions with userChargeVoltage := 54.6 }) ops).chargeVoltage ≤ 56 := by
  refine ⟨by decide +kernel,fun ops => ?_⟩
  have kept := (run_under_cap_iff { cappedOptions with userChargeVoltage := 54.6 } (by decide +kernel)).mpr
    (Or.inl (by decide +kernel)) ops
  exact kept.2.trans (by decide +kernel)

end Mybmm.Charge
