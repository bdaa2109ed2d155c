import Mybmm.CritScan

/-! What holds of the configuration whenever the loop of main.c starts a pass:
the charge controller is sound, and the state of charge is forced only while a
cell is critical. -/
namespace Mybmm.Invariant
open Config Flags Battery Charge Libc Modules Inverters Packs Reconfig Main CritScan Attempt

structure Steady (conf : Conf) : Prop where
  sound : Sound conf
  forced : checkState conf .forceSoc = true → isCritvolt conf = true

structure Control where
  outcome : Outcome
  capacity : Int
  chargeMode : Int
  chargeVoltage : ℚ
  dischargeVoltage : ℚ
  setPoint : ℚ
  dischargeSetPoint : ℚ

def control (conf : Conf) : Control where
  outcome := outcome conf
  capacity := truncate conf.capacity
  chargeMode := conf.chargeMode
  chargeVoltage := conf.chargeVoltage
  dischargeVoltage := conf.dischargeVoltage
  setPoint := Battery.setPoint conf
  dischargeSetPoint := Battery.dischargeSetPoint conf

theorem steady_congr {before after : Conf} (same : control after = control before) (steady : Steady before) :
    Steady after := by
  simp only [control,outcome,Control.mk.injEq,Outcome.mk.injEq] at same
  obtain ⟨⟨charging,crit,force,amps⟩,capacity,mode,voltage,discharge,point,dischargePoint⟩ := same
  refine ⟨⟨?_,?_,?_,?_⟩,?_⟩
  · rw [charging,capacity,mode]
    exact steady.sound.active
  · rw [charging,mode,voltage,point]
    exact steady.sound.constant
  · rw [charging,amps,voltage,point]
    exact steady.sound.stopped
  · rw [discharge,dischargePoint]
    exact steady.sound.discharge
  · rw [force,crit]
    exact steady.forced

/-! Setting up, from the start of the program or again. -/

private theorem settled_control (conf : Conf) : control (settled conf) = control conf := by
  have flags : outcome (settled conf) = outcome conf := by
    simp [outcome,settled,clearState,isCharging,isCritvolt,checkState]
  simp only [control,flags]
  rfl

private theorem steady_of_settled {before after : Conf} (same : settled after = settled before) (steady : Steady before) :
    Steady after := by
  exact steady_congr (settled_congr control settled_control same) steady

private theorem checkState_links {before after : Conf} (same : (links after).state = (links before).state) (v : State)
    (other : State.charging ≠ v) : checkState after v = checkState before v := by
  have bits := congrArg (check · v) same
  simpa [links,checkState,other] using bits

private theorem batteryInit_steady (conf : Conf)
    (forced : checkState conf .forceSoc = true → isCritvolt conf = true) : Steady (batteryInit conf) := by
  have state := congrArg Links.state (batteryInit_links conf)
  refine ⟨batteryInit_sound conf,fun set => ?_⟩
  rw [checkState_links state .forceSoc (by decide)] at set
  rw [isCritvolt,checkState_links state .critCellvolt (by decide)]
  exact forced set

theorem reloaded_flag (env : Env) (conf : Conf) (v : State) (other : State.charging ≠ v) :
    checkState (reloaded env conf) v = checkState conf v :=
  checkState_links ((congrArg Links.state (reloaded_links env conf)).trans rfl) v other

private theorem reloaded_steady (env : Env) (conf : Conf)
    (forced : checkState conf .forceSoc = true → isCritvolt conf = true) : Steady (reloaded env conf) := by
  refine ⟨batteryInit_sound _,fun set => ?_⟩
  rw [reloaded_flag env conf .forceSoc (by decide)] at set
  rw [isCritvolt,reloaded_flag env conf .critCellvolt (by decide)]
  exact forced set

private theorem reread_steady (env : Env) (conf : Conf) (steady : Steady conf) : Steady (reread env conf).2 := by
  by_cases unreadable : Unreadable env conf
  · have result := readConfig_unreadable env (dropped conf) unreadable
    have same : control (openFile env (dropped conf)) = control conf := rfl
    rw [reread,result]
    exact steady_congr same steady
  · exact steady_of_settled (reread_settled env conf unreadable) (reloaded_steady env conf steady.forced)

private theorem getConfig_steady (env : Env) (filename : Option CString.Text) (debug : Int) (conf : Conf)
    (started : getConfig env filename debug = some conf) : Steady conf := by
  have done := (getConfig_reread env filename debug conf).mp started
  have settles := reread_settled env _ (reread_done env _ conf done).1
  rw [done] at settles
  exact steady_of_settled settles (reloaded_steady env _ fun set => by simp [checkState] at set)

private theorem getMqttConf_control (conf : Conf) : control (getMqttConf conf) = control conf :=
  getMqttConf_keeps control (fun _ _ => rfl) conf

private theorem batteryOption_steady (args : Args) (conf : Conf) (steady : Steady conf) :
    Steady (batteryOption args conf) := by
  unfold batteryOption
  split
  · exact batteryInit_steady _ steady.forced
  · exact steady

private theorem inverterAdd_settled (env : Env) (inv : Inverter) (c : Conf) :
    Keeps (fun conf => settled conf = c) (inverterAdd env inv) :=
  inverterAdd_installs env inv (loads_ignores env fun _ _ same => same) fun _ _ same => same

private theorem packAdd_settled (env : Env) (name : CString.Text) (pp : Pack) (c : Conf) :
    Keeps (fun conf => settled conf = c) (packAdd env name pp) :=
  packAdd_keeps env name pp (loads_ignores env fun _ _ same => same)
    (fun conf uuid same => (settled_keepUuid name uuid conf).trans same) fun _ _ same => same

theorem inverterOption_settled (args : Args) (env : Env) (conf after : Conf)
    (added : inverterOption args env conf = some after) : settled after = settled conf := by
  unfold inverterOption at added
  split_ifs at added
  · obtain rfl := Option.some.inj added
    rfl
  · obtain rfl := Option.some.inj added
    exact (inverterAdd_settled env _ _).ends rfl

theorem packOption_settled (args : Args) (env : Env) (conf after : Conf)
    (added : packOption args env conf = some after) : settled after = settled conf := by
  unfold packOption at added
  split_ifs at added
  · obtain rfl := Option.some.inj added
    rfl
  · obtain rfl := Option.some.inj added
    exact (packInit_settled env _).ends ((packAdd_settled env _ _ _).ends rfl)

private theorem chargeStart_steady (conf : Conf) (steady : Steady conf) : Steady (chargeStart conf) := by
  refine ⟨chargeStart_sound conf steady.sound,?_⟩
  rw [isCritvolt,checkState_chargeStart conf _ (by decide),checkState_chargeStart conf _ (by decide)]
  exact steady.forced

theorem start_steady (args : Args) (env : Env) (s : Loop) (started : start args env = some s) :
    Steady s.conf ∧ s.startup = 1 := by
  obtain ⟨conf,initial,rfl⟩ := Option.map_eq_some_iff.mp started
  refine ⟨chargeStart_steady conf ?_,rfl⟩
  obtain ⟨read,configured,options⟩ := Option.bind_eq_some_iff.mp initial
  obtain ⟨mid,inverter,packs⟩ := Option.bind_eq_some_iff.mp options
  have loaded : Steady (getMqttConf read) :=
    steady_congr (getMqttConf_control read) (getConfig_steady env _ _ read configured)
  exact steady_of_settled ((packOption_settled args env mid conf packs).trans
    (inverterOption_settled args env _ mid inverter)) (batteryOption_steady args _ loaded)

/-! One pass. -/

theorem checkState_still {before after : Conf} (same : still after = still before) (v : State)
    (other : State.charging ≠ v) : checkState after v = checkState before v :=
  still_congr (checkState · v) (fun _ => by simp [still,clearState,checkState,other]) same

private theorem steady_still {before after : Conf} (same : still after = still before) (steady : Steady before)
    (sound : Sound after) : Steady after := by
  refine ⟨sound,?_⟩
  rw [isCritvolt,checkState_still same _ (by decide),checkState_still same _ (by decide)]
  exact steady.forced

private theorem chargeStop_steady (conf : Conf) (steady : Steady conf) : Steady (chargeStop conf) :=
  steady_still (still_chargeStop conf) steady (chargeStop_sound conf)

theorem chargeCheck_steady (clock : Clock) (conf : Conf) (steady : Steady conf) :
    Steady (chargeCheck clock conf) :=
  steady_still (still_chargeCheck clock conf) steady (chargeCheck_sound clock conf steady.sound)

theorem softStart_steady (startup : Int) (conf : Conf) (steady : Steady conf) :
    Steady (softStart startup conf) := by
  unfold softStart
  split
  · exact @steady_congr (chargeStop conf) _ rfl (chargeStop_steady conf steady)
  · exact steady

theorem advance_steady (s : Loop) (steady : Steady s.conf) : Steady (advance s).conf := by
  unfold advance
  split
  · exact steady
  · split
    · dsimp only
      split
      · exact chargeStart_steady _ steady
      · exact steady
    · exact steady

theorem reload_steady (i : Tick) (conf : Conf) (steady : Steady conf) : Steady (reload i conf) := by
  unfold reload
  cases i.reconf with
  | none => exact steady
  | some env => exact reread_steady env conf steady

private theorem readInverter_control (reply : InverterReply) (conf : Conf) :
    control (readInverter reply conf).1 = control conf := by
  unfold readInverter
  cases conf.inverter <;> rfl

theorem heard_control (i : Tick) (s : Loop) : control (heard i s).1 = control (reload i s.conf) :=
  (readInverter_control i.inverter (resetReadings (reload i s.conf)))

theorem tally_control (conf : Conf) (totals : Totals) (packs : List Pack) :
    control (tally conf totals packs).1 = control conf := by
  induction packs generalizing conf totals with
  | nil => rfl
  | cons pp rest ih => exact (ih _ _).trans rfl

private theorem sound_flags {before after : Conf} (sound : Sound before)
    (same : ∃ state, after = { before with state := state })
    (charging : isCharging after = isCharging before) : Sound after := by
  obtain ⟨state,rfl⟩ := same
  refine ⟨fun on => sound.active (charging ▸ on),fun on => sound.constant (charging ▸ on),
    fun off => sound.stopped (charging ▸ off),sound.discharge⟩

private theorem setState_sound (conf : Conf) (v : State) (other : v ≠ State.charging) (sound : Sound conf) :
    Sound (setState conf v) :=
  sound_flags sound ⟨_,rfl⟩ (by simp [isCharging,checkState,setState,other])

private theorem clearState_sound (conf : Conf) (v : State) (other : v ≠ State.charging) (sound : Sound conf) :
    Sound (clearState conf v) :=
  sound_flags sound ⟨_,rfl⟩ (by simp [isCharging,checkState,clearState,other])

private theorem latch_sound (inRange : Bool) (conf : Conf) (sound : Sound conf) : Sound (latch inRange conf) := by
  have unlatched := clearState_sound conf .critCellvolt (by decide) sound
  unfold latch
  dsimp only
  split
  · split
    · exact clearState_sound _ .forceSoc (by decide) unlatched
    · exact unlatched
  · exact sound

private theorem react_sound (conf : Conf) (crit : Option Crit) (sound : Sound conf) : Sound (react conf crit) := by
  cases crit with
  | none => exact sound
  | some crit =>
    cases crit with
    | low => exact setState_sound conf .critCellvolt (by decide) sound
    | high =>
      have stopped := chargeStop_sound (setState conf .critCellvolt)
      have same : Sound { chargeStop (setState conf .critCellvolt) with soc := 101 } :=
        ⟨stopped.active,stopped.constant,stopped.stopped,stopped.discharge⟩
      exact setState_sound _ .forceSoc (by decide) same

/-- The scan's verdict forces the state of charge only as it latches. -/
private theorem react_steady (conf : Conf) (crit : Option Crit) (steady : Steady conf) :
    Steady (latch crit.isNone (react conf crit)) := by
  refine ⟨latch_sound _ _ (react_sound conf crit steady.sound),?_⟩
  have flags := react_outcome conf crit
  have forced : (verdict (outcome conf) crit).forceSoc = true →
      (verdict (outcome conf) crit).critCellvolt = true := by
    cases crit with
    | none =>
      intro set
      simp only [verdict,outcome,Bool.and_eq_true,Bool.not_eq_true'] at set
      rw [steady.forced set.1] at set
      exact absurd set.2 (by decide)
    | some crit => cases crit <;> exact fun _ => rfl
  rwa [← flags] at forced

theorem scan_steady (conf : Conf) (steady : Steady conf) : Steady (scan conf).1 := by
  rw [scan,scanPacks_eq]
  exact react_steady _ _ (steady_congr (tally_control conf {} _) steady)

private theorem resolveCapacity_steady (totals : Totals) (conf : Conf) (steady : Steady conf) :
    Steady (resolveCapacity totals conf) := by
  unfold resolveCapacity
  dsimp only
  by_cases filled : truncate conf.capacity ≠ 0
  · rw [if_pos filled]
    exact steady
  · rw [if_neg filled]
    have idle : isCharging conf ≠ true := fun charging => filled (steady.sound.active charging).1
    -- A capacity is only missing while no charge is in progress.
    have assigned (capacity kwh : ℚ) : Steady { conf with capacity := capacity, kwh := kwh } :=
      ⟨⟨fun charging => absurd charging idle,steady.sound.constant,steady.sound.stopped,
        steady.sound.discharge⟩,steady.forced⟩
    split
    · exact assigned _ _
    · split
      · exact assigned _ _
      · exact steady

theorem resolveReadings_control (invReported : Bool) (totals : Totals) (conf : Conf) :
    control (resolveReadings invReported totals conf) = control conf := by
  unfold resolveReadings
  dsimp only
  split
  · rfl
  · split <;> rfl

def checked (invReported : Bool) (totals : Totals) (conf : Conf) : Conf :=
  resolveSoc (resolveReadings invReported totals (resolveCapacity totals conf))

theorem checked_steady (invReported : Bool) (totals : Totals) (conf : Conf) (steady : Steady conf) :
    Steady (checked invReported totals conf) := by
  have readings : control (checked invReported totals conf) = control (resolveCapacity totals conf) :=
    resolveReadings_control invReported totals (resolveCapacity totals conf)
  exact steady_congr readings (resolveCapacity_steady totals conf steady)

private theorem conclude_steady (i : Tick) (startup : Int) (invReported : Bool) (totals : Totals) (conf : Conf)
    (steady : Steady conf) :
    Steady (conclude i startup invReported totals conf).after.conf ∧
      ∀ w, (conclude i startup invReported totals conf).written = some w → Steady w := by
  have decided := chargeCheck_steady i.clock _ (checked_steady invReported totals conf steady)
  unfold conclude
  dsimp only
  split
  · refine ⟨advance_steady _ (softStart_steady startup _ decided),fun w written => ?_⟩
    obtain rfl := Option.some.inj written
    exact softStart_steady startup _ decided
  · exact ⟨advance_steady _ decided,fun w written => by contradiction⟩

theorem pass_steady (i : Tick) (s : Loop) (steady : Steady s.conf) :
    Steady (pass i s).after.conf ∧ ∀ w, (pass i s).written = some w → Steady w := by
  have scanned : Steady (scan (heard i s).1).1 :=
    scan_steady _ (steady_congr (heard_control i s) (reload_steady i s.conf steady))
  unfold Main.pass
  dsimp only
  split
  · exact ⟨scanned,fun w written => by contradiction⟩
  · exact conclude_steady i s.startup _ _ _ scanned

theorem run_steady (s : Loop) (steady : Steady s.conf) (inputs : List Tick) :
    ∀ visit ∈ Machine.visits step s inputs, Steady visit.1.conf := by
  refine Machine.visits_invariant step (fun s => Steady s.conf) (fun s i next inv taken => ?_) inputs s steady
  unfold step at taken
  split at taken
  · contradiction
  · obtain rfl := Option.some.inj taken
    exact (pass_steady i s inv).1

end Mybmm.Invariant
