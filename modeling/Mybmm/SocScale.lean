import Mathlib.Data.Rat.Floor
import Mybmm.CommandLine
import Mybmm.Runs

/-! The scale of the state of charge. Its top is the charge target, which is the
cells' own voltage from `battery_init` until a charge is started, and the
set-point of the charge from then on. -/
namespace Mybmm.SocScale
open CString Libc Cfg Config Flags Battery Charge Modules Inverters Packs Reconfig Main CritScan Invariant Written Runs CommandLine Machine

/-- The state of charge that a battery voltage amounts to. -/
def socAt (conf : Conf) (volts : ℚ) : ℚ := (resolveSoc { conf with batteryVoltage := volts }).soc

structure Scaled (conf : Conf) : Prop where
  width : conf.chargeTargetVoltage - conf.dischargeVoltage = setPoint conf - dischargeSetPoint conf
  divides : conf.chargeTargetVoltage - conf.dischargeVoltage ≠ 0
  empty : socAt conf (dischargeSetPoint conf) = 0
  full : socAt conf (setPoint conf) = 100
  increasing : StrictMono (socAt conf)

/-- The state of charge is worked out, from a scale that has a width. -/
def Wanted (conf : Conf) : Prop := conf.userSoc < 0 ∧ dischargeSetPoint conf < setPoint conf

/-- The cells' own voltage is the set-point, or `battery_init` starts a charge
that makes the set-point the target. -/
def Aimed (conf : Conf) : Prop :=
  conf.userChargeVoltage < 0 ∨ conf.userChargeVoltage = conf.cellHigh * conf.cells ∨
    (conf.chargeAtMax = 0 ∧ 1 ≤ conf.userCapacity)

private theorem scaled_iff (conf : Conf) (wanted : Wanted conf)
    (discharge : conf.dischargeVoltage = dischargeSetPoint conf) :
    Scaled conf ↔ conf.chargeTargetVoltage = setPoint conf := by
  obtain ⟨free,wide⟩ := wanted
  have soc (volts : ℚ) : socAt conf volts =
      (volts - dischargeSetPoint conf) / (conf.chargeTargetVoltage - dischargeSetPoint conf) * 100 := by
    rw [← discharge]
    exact if_pos free
  constructor
  · intro scaled
    have width := scaled.width
    rw [discharge] at width
    linarith
  · intro target
    have positive : 0 < setPoint conf - dischargeSetPoint conf := sub_pos.mpr wide
    refine ⟨by rw [target,discharge],by rw [target,discharge]; exact positive.ne',?_,?_,fun low high less => ?_⟩
    · rw [soc,sub_self,zero_div,zero_mul]
    · rw [soc,target,div_self positive.ne',one_mul]
    · rw [soc,soc,target]
      have shifted : low - dischargeSetPoint conf < high - dischargeSetPoint conf := sub_lt_sub_right less _
      have shares := div_lt_div_of_pos_right shifted positive
      linarith

/-! What decides the scale, and what leaves it alone. -/

structure Scale where
  empty : ℚ
  full : ℚ
  cells : ℚ
  target : ℚ
  userSoc : ℚ
  userChargeVoltage : ℚ
  userCapacity : ℚ
  chargeAtMax : Int

def scale (conf : Conf) : Scale where
  empty := dischargeSetPoint conf
  full := setPoint conf
  cells := conf.cellHigh * conf.cells
  target := conf.chargeTargetVoltage
  userSoc := conf.userSoc
  userChargeVoltage := conf.userChargeVoltage
  userCapacity := conf.userCapacity
  chargeAtMax := conf.chargeAtMax

/-- The charge target is where the options put it, and off the set-point while
they do not aim at it. -/
structure Tracked (conf : Conf) : Prop where
  aimed : Aimed conf → conf.chargeTargetVoltage = setPoint conf
  astray : Wanted conf → ¬ Aimed conf → conf.chargeTargetVoltage ≠ setPoint conf

private theorem wanted_congr {before after : Conf} (same : scale after = scale before) : Wanted after ↔ Wanted before := by
  simp only [scale,Scale.mk.injEq] at same
  simp only [Wanted,same]

private theorem aimed_congr {before after : Conf} (same : scale after = scale before) : Aimed after ↔ Aimed before := by
  simp only [scale,Scale.mk.injEq] at same
  simp only [Aimed,same]

private theorem tracked_congr {before after : Conf} (same : scale after = scale before) (tracked : Tracked before) :
    Tracked after := by
  have target : after.chargeTargetVoltage = before.chargeTargetVoltage := congrArg Scale.target same
  have full : setPoint after = setPoint before := congrArg Scale.full same
  refine ⟨fun aimed => ?_,fun wanted astray => ?_⟩
  · rw [target,full]
    exact tracked.aimed ((aimed_congr same).mp aimed)
  · rw [target,full]
    exact tracked.astray ((wanted_congr same).mp wanted) fun aimed => astray ((aimed_congr same).mpr aimed)

def Moves (before after : Conf) : Prop :=
  scale after = scale before ∨
    (before.chargeAtMax = 0 ∧ scale after = { scale before with target := setPoint before })

private theorem moves_trans {a b c : Conf} (first : Moves a b) (second : Moves b c) : Moves a c := by
  have top (same : (scale b).chargeAtMax = (scale a).chargeAtMax) (off : b.chargeAtMax = 0) : a.chargeAtMax = 0 :=
    same.symm.trans off
  rcases first with same | ⟨off,moved⟩
  · rcases second with same' | ⟨off',moved'⟩
    · exact Or.inl (same'.trans same)
    · have point : setPoint b = setPoint a := congrArg Scale.full same
      exact Or.inr ⟨top (congrArg Scale.chargeAtMax same) off',by rw [moved',same,point]⟩
  · rcases second with same' | ⟨_,moved'⟩
    · exact Or.inr ⟨off,same'.trans moved⟩
    · have point : setPoint b = setPoint a := congrArg Scale.full moved
      exact Or.inr ⟨off,by rw [moved',moved,point]⟩

private theorem started_moves (conf : Conf) : Moves conf (started conf) := by
  by_cases off : conf.chargeAtMax = 0
  · refine Or.inr ⟨off,?_⟩
    have target : (started conf).chargeTargetVoltage = setPoint conf := if_neg (not_not.mpr off)
    rw [scale,target]
    rfl
  · refine Or.inl ?_
    have target : (started conf).chargeTargetVoltage = conf.chargeTargetVoltage := if_pos off
    rw [scale,target]
    rfl

private theorem chargeStart_moves (conf : Conf) : Moves conf (chargeStart conf) := by
  by_cases empty : truncate conf.capacity = 0
  · rw [chargeStart_empty conf empty]
    exact Or.inl rfl
  · rw [chargeStart_started conf empty]
    exact started_moves conf

private theorem chargeCheck_moves (clock : Clock) (conf : Conf) : Moves conf (chargeCheck clock conf) := by
  generalize outcome : chargeCheck clock conf = after
  have checked : Checked clock conf after := outcome ▸ chargeCheck_checked clock conf
  cases checked with
  | stop charging ends => exact Or.inl rfl
  | saturate charging goes mode amps => exact Or.inl rfl
  | creep charging goes mode amps volts bound => exact Or.inl rfl
  | hold charging goes mode amps => exact Or.inl rfl
  | start idle starts => exact started_moves conf
  | rest idle rests => exact Or.inl rfl

private theorem softStart_moves (startup : Int) (conf : Conf) : Moves conf (softStart startup conf) := by
  have trickle (c : Conf) : scale { c with chargeAmps := 0.1, soc := 99.9 } = scale c := rfl
  have stopped : scale (chargeStop conf) = scale conf := rfl
  unfold softStart
  split
  · exact Or.inl ((trickle _).trans stopped)
  · exact Or.inl rfl

private theorem advance_moves (s : Loop) : Moves s.conf (advance s).conf := by
  unfold advance
  split
  · exact Or.inl rfl
  · split
    · dsimp only
      split
      · exact chargeStart_moves s.conf
      · exact Or.inl rfl
    · exact Or.inl rfl

private theorem tracked_moves {before after : Conf} (tracked : Tracked before) (moves : Moves before after)
    (aims : Wanted before → Aimed before) : Tracked after := by
  rcases moves with same | ⟨off,moved⟩
  · exact tracked_congr same tracked
  · have target : after.chargeTargetVoltage = setPoint after :=
      (congrArg Scale.target moved).trans (congrArg Scale.full moved).symm
    have same : scale after = scale { before with chargeTargetVoltage := setPoint before } := moved
    refine ⟨fun _ => target,fun wanted astray => absurd ?_ astray⟩
    exact (aimed_congr same).mpr (aims ((wanted_congr same).mp wanted))

/-! After `battery_init`. -/

private theorem truncate_ne_zero (x : ℚ) (positive : 0 ≤ x) : truncate x ≠ 0 ↔ 1 ≤ x := by
  have floor : truncate x = Int.floor x := by
    rw [truncate,Int.tdiv_eq_ediv_of_nonneg (Rat.num_nonneg.mpr positive),Rat.floor_def']
  rw [floor,ne_eq,Int.floor_eq_zero_iff,Set.mem_Ico,not_and,not_lt]
  exact ⟨fun outside => outside positive,fun least _ => least⟩

/-- `battery_init` leaves a capacity to charge to exactly when one is configured. -/
private theorem userCapacity_ne_zero (capacity : ℚ) :
    truncate (if capacity < 0 then 0 else capacity) ≠ 0 ↔ 1 ≤ capacity := by
  split
  · rename_i missing
    have none : truncate 0 = 0 := by simp [truncate]
    simp only [none,ne_eq,not_true_eq_false,false_iff,not_le]
    exact missing.trans one_pos
  · rename_i given
    exact truncate_ne_zero capacity (not_lt.mp given)

private theorem batteryInit_target (conf : Conf) :
    (batteryInit conf).chargeTargetVoltage =
      if 1 ≤ (batteryInit conf).userCapacity ∧ (batteryInit conf).chargeAtMax = 0 then setPoint (batteryInit conf)
      else (batteryInit conf).cellHigh * (batteryInit conf).cells := by
  have same := still_batteryInit conf
  have target : (batteryInit conf).chargeTargetVoltage = (initFigures (FreshStart.defaulted conf)).chargeTargetVoltage :=
    congrArg Figures.chargeTargetVoltage (batteryInit_figures conf)
  have filled := userCapacity_ne_zero conf.userCapacity
  rw [target,still_congr Conf.userCapacity (fun _ => rfl) same,still_congr Conf.chargeAtMax (fun _ => rfl) same,
    still_congr setPoint (fun _ => rfl) same,still_congr Conf.cellHigh (fun _ => rfl) same,
    still_congr Conf.cells (fun _ => rfl) same]
  change (if truncate (if conf.userCapacity < 0 then 0 else conf.userCapacity) = 0 ∨ conf.chargeAtMax ≠ 0 then _
    else setPoint (resolveVoltages (resolveLimits conf))) = _
  have flipped : truncate (if conf.userCapacity < 0 then 0 else conf.userCapacity) = 0 ∨ conf.chargeAtMax ≠ 0 ↔
      ¬ (1 ≤ conf.userCapacity ∧ conf.chargeAtMax = 0) := by
    rw [← filled]
    tauto
  simp only [flipped,ite_not]
  rfl

private theorem aimed_iff (conf : Conf) :
    Aimed conf ↔ setPoint conf = conf.cellHigh * conf.cells ∨ (conf.chargeAtMax = 0 ∧ 1 ≤ conf.userCapacity) := by
  rw [Aimed,← or_assoc]
  refine or_congr_left ?_
  unfold setPoint
  split
  · simp [*]
  · simp [*]

private theorem batteryInit_tracked (conf : Conf) : Tracked (batteryInit conf) := by
  have target := batteryInit_target conf
  generalize batteryInit conf = conf at target
  refine ⟨fun aimed => ?_,fun _ astray => ?_⟩
  · rw [target]
    split
    · rfl
    · rename_i later
      exact (((aimed_iff conf).mp aimed).resolve_right fun now => later ⟨now.2,now.1⟩).symm
  · rw [aimed_iff] at astray
    obtain ⟨apart,later⟩ := not_or.mp astray
    rw [target,if_neg fun now => later ⟨now.2,now.1⟩]
    exact fun same => apart same.symm

/-! From the start, and through a reading of the file. -/

def startScale (conf : Conf) : Scale := { scale conf with target := aim conf }

private theorem target_chargeStart (conf : Conf) : (chargeStart conf).chargeTargetVoltage = aim conf :=
  congrArg Figures.chargeTargetVoltage (figures_chargeStart conf)

private theorem scale_chargeStart (conf : Conf) : scale (chargeStart conf) = startScale conf := by
  have rest : { scale (chargeStart conf) with target := aim conf } = startScale conf :=
    still_congr (fun c => { scale c with target := aim conf }) (fun _ => rfl) (still_chargeStart conf)
  rw [← rest,← target_chargeStart]
  rfl

private theorem scale_again (conf : Conf) : scale (chargeStart (batteryInit conf)) = scale (batteryInit conf) := by
  have target : aim (batteryInit conf) = (batteryInit conf).chargeTargetVoltage :=
    (target_chargeStart _).symm.trans (congrArg Figures.chargeTargetVoltage (figures_again conf))
  rw [scale_chargeStart,startScale,target]
  rfl

private theorem start_tracked (args : Args) (env : Env) (s : Loop) (started : start args env = some s) : Tracked s.conf := by
  obtain ⟨read,conf,settles,devices,same⟩ := start_settled args env s started
  have again (c : Conf) : Tracked (chargeStart (batteryInit c)) :=
    tracked_congr (scale_again c) (batteryInit_tracked c)
  have point := settled_congr startScale (fun _ => rfl) devices
  rw [same]
  unfold batteryOption at point
  split at point
  · exact tracked_congr ((scale_chargeStart conf).trans (point.trans (scale_chargeStart _).symm)) (again _)
  · rw [getMqttConf_keeps startScale (fun _ _ => rfl),settled_congr startScale (fun _ => rfl) settles] at point
    exact tracked_congr ((scale_chargeStart conf).trans (point.trans (scale_chargeStart _).symm)) (again _)

private theorem reload_tracked (i : Tick) (conf : Conf) (tracked : Tracked conf) : Tracked (reload i conf) := by
  unfold reload
  cases i.reconf with
  | none => exact tracked
  | some env =>
    by_cases unreadable : Unreadable env conf
    · have result := readConfig_unreadable env (dropped conf) unreadable
      change Tracked (reread env conf).2
      rw [reread,result]
      exact @tracked_congr conf _ rfl tracked
    · have same := settled_congr scale (fun _ => rfl) (reread_settled env conf unreadable)
      exact tracked_congr same (batteryInit_tracked _)

/-! One pass. -/

def weighed (s : Loop) (i : Tick) : Conf :=
  resolveReadings (heard i s).2 (scan (heard i s).1).2
    (resolveCapacity (scan (heard i s).1).2 (scan (heard i s).1).1)

/-- The inverter answered, or some pack did with no critical cell before it. -/
def Reaches (s : Loop) (i : Tick) : Prop :=
  ¬ ((heard i s).2 = false ∧ (scan (heard i s).1).2.reported = 0)

private theorem heard_scale (s : Loop) (i : Tick) : scale (heard i s).1 = scale (reload i s.conf) := by
  have read (reply : InverterReply) (conf : Conf) : scale (readInverter reply conf).1 = scale conf := by
    unfold readInverter
    cases conf.inverter <;> rfl
  exact read i.inverter (resetReadings (reload i s.conf))

private theorem scan_scale (conf : Conf) (steady : Steady conf) : scale (scan conf).1 = scale conf := by
  have tallied (conf : Conf) (totals : Totals) (packs : List Pack) : scale (tally conf totals packs).1 = scale conf := by
    induction packs generalizing conf totals with
    | nil => rfl
    | cons pp rest ih => exact (ih _ _).trans rfl
  have counted := steady_congr (tally_control conf {} (counted conf conf.packs)) steady
  have verdict := (unruled_latch (firstCrit conf conf.packs).isNone _).trans
    (unruled_react _ (firstCrit conf conf.packs) counted)
  rw [scan,scanPacks_eq]
  exact (congrArg scale verdict).trans (tallied conf {} _)

private theorem weighed_scale (s : Loop) (i : Tick) (steady : Steady s.conf) :
    scale (weighed s i) = scale (reload i s.conf) := by
  have capacity (totals : Totals) (conf : Conf) : scale (resolveCapacity totals conf) = scale conf := by
    unfold resolveCapacity
    dsimp only
    split
    · rfl
    · split
      · rfl
      · split <;> rfl
  have readings (answered : Bool) (totals : Totals) (conf : Conf) :
      scale (resolveReadings answered totals conf) = scale conf := by
    unfold resolveReadings
    dsimp only
    split
    · rfl
    · split <;> rfl
  rw [weighed,readings,capacity,scan_scale _ (heard_steady i s steady),heard_scale]

def OnScale (s : Loop) (i : Tick) : Prop := Reaches s i → Wanted (reload i s.conf) → Scaled (weighed s i)

def Aims (s : Loop) (i : Tick) : Prop := Reaches s i → Wanted (reload i s.conf) → Aimed (reload i s.conf)

instance (conf : Conf) : Decidable (Wanted conf) := inferInstanceAs (Decidable (_ ∧ _))

instance (conf : Conf) : Decidable (Aimed conf) := inferInstanceAs (Decidable (_ ∨ _ ∨ _))

instance (s : Loop) (i : Tick) : Decidable (Reaches s i) := inferInstanceAs (Decidable (¬ _))

instance (s : Loop) (i : Tick) : Decidable (Aims s i) := inferInstanceAs (Decidable (_ → _ → _))

private theorem on_scale (s : Loop) (i : Tick) (steady : Steady s.conf) (tracked : Tracked s.conf) :
    OnScale s i ↔ Aims s i := by
  have same := weighed_scale s i steady
  have rated (conf : Conf) (set : (resolveSoc conf).dischargeVoltage = dischargeSetPoint (resolveSoc conf)) :
      conf.dischargeVoltage = dischargeSetPoint conf := set
  have discharge : (weighed s i).dischargeVoltage = dischargeSetPoint (weighed s i) :=
    rated _ (entry_steady i s steady).sound.discharge
  have kept : Tracked (weighed s i) := tracked_congr same (reload_tracked i s.conf tracked)
  refine imp_congr_right fun _ => imp_congr_right fun wanted => ?_
  have wanted : Wanted (weighed s i) := (wanted_congr same).mpr wanted
  rw [scaled_iff (weighed s i) wanted discharge,← aimed_congr same]
  exact ⟨fun target => not_not.mp fun astray => kept.astray wanted astray target,kept.aimed⟩

private theorem conclude_moves (i : Tick) (startup : Int) (invReported : Bool) (totals : Totals) (conf : Conf) :
    Moves (resolveReadings invReported totals (resolveCapacity totals conf))
      (conclude i startup invReported totals conf).after.conf := by
  have checked : Moves (resolveReadings invReported totals (resolveCapacity totals conf))
      (chargeCheck i.clock (resolveSoc (resolveReadings invReported totals (resolveCapacity totals conf)))) :=
    moves_trans (Or.inl rfl) (chargeCheck_moves i.clock _)
  unfold conclude
  dsimp only
  split
  · exact moves_trans checked (moves_trans (softStart_moves startup _) (advance_moves ⟨_,startup⟩))
  · exact moves_trans checked (advance_moves ⟨_,startup⟩)

private theorem pass_tracked (s : Loop) (i : Tick) (steady : Steady s.conf) (tracked : Tracked s.conf) (aims : Aims s i) :
    Tracked (pass i s).after.conf := by
  have kept := reload_tracked i s.conf tracked
  have same := weighed_scale s i steady
  unfold Main.pass
  dsimp only
  split
  · exact tracked_congr ((scan_scale _ (heard_steady i s steady)).trans (heard_scale s i)) kept
  · rename_i reaches
    refine tracked_moves (tracked_congr same kept) (conclude_moves i s.startup _ _ _) fun wanted => ?_
    exact (aimed_congr same).mpr (aims reaches ((wanted_congr same).mp wanted))

/-- Along every run, the state of charge is read off the scale exactly when no
charge voltage is configured, or the cells' own, or a charge starts with the options. -/
theorem on_scale_iff (args : Args) (env : Env) (s : Loop) (started : start args env = some s) (inputs : List Tick) :
    (∀ visit ∈ visits step s inputs, OnScale visit.1 visit.2) ↔
      ∀ visit ∈ visits step s inputs, Aims visit.1 visit.2 := by
  refine visits_iff_while step (fun s => Steady s.conf ∧ Tracked s.conf) OnScale Aims
    (fun s i inv => on_scale s i inv.1 inv.2) (fun s i next inv aims taken => ?_) inputs s
    ⟨(start_steady args env s started).1,start_tracked args env s started⟩
  refine ⟨step_steady s i next inv.1 taken,?_⟩
  rw [step_after s i next taken]
  exact pass_tracked s i inv.1 inv.2 aims

theorem on_scale_bank :
    start bankArgs bankEnv = some booted ∧ ∀ visit ∈ visits step booted [calm,calm], OnScale visit.1 visit.2 :=
  ⟨booted_started,(on_scale_iff bankArgs bankEnv booted booted_started _).mpr (by decide +kernel)⟩

def unsized : CfgInfo :=
  ⟨[fileSection "MYBMM" [("CHARGE_VOLTAGE","54.6")],inverterItems,packItems "PACK_01" "jbd"]⟩

def unsizedStart : Loop := (start bankArgs (bench (some unsized))).getD ⟨{},0⟩

/-- At 54.6 V it is taken for 75 % full. -/
theorem off_scale :
    (start bankArgs (bench (some unsized))).isSome = true ∧
      ¬ ∀ visit ∈ visits step unsizedStart [tick (inverterAt 54.6) (packAt 25 3.6)], OnScale visit.1 visit.2 := by
  refine ⟨by decide +kernel,fun all => ?_⟩
  -- one evaluation of the start for all that is asked about the pass
  have held : Reaches unsizedStart (tick (inverterAt 54.6) (packAt 25 3.6)) ∧
      Wanted (reload (tick (inverterAt 54.6) (packAt 25 3.6)) unsizedStart.conf) ∧
      (weighed unsizedStart (tick (inverterAt 54.6) (packAt 25 3.6))).chargeTargetVoltage ≠
        setPoint (weighed unsizedStart (tick (inverterAt 54.6) (packAt 25 3.6))) ∧
      (weighed unsizedStart (tick (inverterAt 54.6) (packAt 25 3.6))).dischargeVoltage =
        dischargeSetPoint (weighed unsizedStart (tick (inverterAt 54.6) (packAt 25 3.6))) := by decide +kernel
  obtain ⟨reaches,wanted,apart,discharge⟩ := held
  have scaled := all (unsizedStart,tick (inverterAt 54.6) (packAt 25 3.6)) (by simp [visits]) reaches wanted
  have width := scaled.width
  exact apart (by linarith)

end Mybmm.SocScale
