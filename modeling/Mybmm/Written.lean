import Mybmm.Invariant

/-! What a pass of main.c writes to the inverter, told from the state before the
pass and its answers: whether a charge is in progress, the temperature and the
state of charge the decision was made with, and the flags the scan left. -/
namespace Mybmm.Written
open Config Flags Battery Charge Libc Inverters Packs Reconfig Main CritScan Invariant

def crit (i : Tick) (s : Loop) : Option Crit := firstCrit (heard i s).1 (heard i s).1.packs

def tallied (i : Tick) (s : Loop) : Conf × Totals :=
  tally (heard i s).1 {} (counted (heard i s).1 (heard i s).1.packs)

def met (i : Tick) (s : Loop) : Conf := checked (heard i s).2 (tallied i s).2 (tallied i s).1

/-- The state of charge the readings amount to. -/
def measuredSoc (conf : Conf) : ℚ :=
  if conf.userSoc < 0 then
    (conf.batteryVoltage - conf.dischargeVoltage) / (conf.chargeTargetVoltage - conf.dischargeVoltage) * 100
  else conf.userSoc

def Going (i : Tick) (s : Loop) : Prop := isCharging (reload i s.conf) = true ∧ crit i s ≠ some .high

def On (i : Tick) (s : Loop) : Prop :=
  (Going i s ∧ ¬ Ends i.clock.now (met i s)) ∨ (¬ Going i s ∧ Starts (met i s))

instance (now : Int) (conf : Conf) : Decidable (Ends now conf) :=
  inferInstanceAs (Decidable (_ ∨ _ ∨ _))

instance (conf : Conf) : Decidable (Starts conf) := inferInstanceAs (Decidable (_ ∧ _))

instance (i : Tick) (s : Loop) : Decidable (Going i s) := inferInstanceAs (Decidable (_ ∧ _))

instance (i : Tick) (s : Loop) : Decidable (On i s) := inferInstanceAs (Decidable (_ ∨ _))

/-! What a scan may change that the readings do not depend on. -/

structure Ruling where
  state : BitVec 16
  chargeAmps : ℚ
  chargeVoltage : ℚ
  dischargeAmps : ℚ
  soc : ℚ

def ruled (r : Ruling) (conf : Conf) : Conf :=
  { conf with
    state := r.state
    chargeAmps := r.chargeAmps
    chargeVoltage := r.chargeVoltage
    dischargeAmps := r.dischargeAmps
    soc := r.soc }

def unruled (conf : Conf) : Conf := ruled ⟨0,0,0,0,0⟩ conf

private theorem unruled_setState (conf : Conf) (v : State) : unruled (setState conf v) = unruled conf := rfl

private theorem unruled_clearState (conf : Conf) (v : State) : unruled (clearState conf v) = unruled conf := rfl

private theorem unruled_forceSoc (conf : Conf) (soc : ℚ) : unruled (forceSoc conf soc) = unruled conf := rfl

theorem unruled_latch (inRange : Bool) (conf : Conf) : unruled (latch inRange conf) = unruled conf := by
  unfold latch
  dsimp only
  split
  · split <;> simp only [unruled_clearState]
  · rfl

private theorem unruled_chargeStop (conf : Conf) (point : conf.dischargeVoltage = dischargeSetPoint conf) :
    unruled (chargeStop conf) = unruled conf := by
  simp only [unruled,ruled,chargeStop,clearState,← point]

theorem unruled_react (conf : Conf) (found : Option Crit) (steady : Steady conf) :
    unruled (react conf found) = unruled conf := by
  cases found with
  | none => rfl
  | some found =>
    cases found with
    | low => exact unruled_setState conf .critCellvolt
    | high =>
      rw [react,unruled_forceSoc,unruled_chargeStop (setState conf .critCellvolt) steady.sound.discharge,
        unruled_setState]

private theorem ruled_of_unruled {before after : Conf} (same : unruled after = unruled before) :
    ∃ r, after = ruled r before := by
  refine ⟨⟨after.state,after.chargeAmps,after.chargeVoltage,after.dischargeAmps,after.soc⟩,?_⟩
  have restored := congrArg
    (ruled ⟨after.state,after.chargeAmps,after.chargeVoltage,after.dischargeAmps,after.soc⟩) same
  exact restored

private theorem resolveCapacity_ruled (r : Ruling) (totals : Totals) (conf : Conf) :
    resolveCapacity totals (ruled r conf) = ruled r (resolveCapacity totals conf) := by
  unfold resolveCapacity ruled
  dsimp only
  split
  · rfl
  · split
    · rfl
    · split <;> rfl

private theorem resolveReadings_ruled (r : Ruling) (invReported : Bool) (totals : Totals) (conf : Conf) :
    resolveReadings invReported totals (ruled r conf) = ruled r (resolveReadings invReported totals conf) := by
  unfold resolveReadings ruled
  dsimp only
  split
  · rfl
  · split <;> rfl

private theorem resolveSoc_ruled (r : Ruling) (conf : Conf) :
    resolveSoc (ruled r conf) = ruled { r with soc := measuredSoc (resolveSoc conf) } (resolveSoc conf) := rfl

private theorem checked_ruled (r : Ruling) (invReported : Bool) (totals : Totals) (conf : Conf) :
    ∃ r', checked invReported totals (ruled r conf) = ruled r' (checked invReported totals conf) ∧
      r'.soc = measuredSoc (checked invReported totals conf) := by
  refine ⟨{ r with soc := measuredSoc (checked invReported totals conf) },?_,rfl⟩
  simp only [checked,resolveCapacity_ruled,resolveReadings_ruled]
  exact resolveSoc_ruled r _

@[simp] theorem ruled_batteryTemp (r : Ruling) (conf : Conf) : (ruled r conf).batteryTemp = conf.batteryTemp := rfl

@[simp] theorem ruled_soc (r : Ruling) (conf : Conf) : (ruled r conf).soc = r.soc := rfl

private theorem ends_ruled (r : Ruling) (now : Int) (conf : Conf) : Ends now (ruled r conf) ↔ Ends now conf := Iff.rfl

private theorem starts_ruled (r : Ruling) (conf : Conf) : Starts (ruled r conf) ↔ Starts conf := Iff.rfl

/-! What `charge_check` makes of it. -/

def entry (i : Tick) (s : Loop) : Conf :=
  checked (heard i s).2 (scan (heard i s).1).2 (scan (heard i s).1).1

def decided (i : Tick) (s : Loop) : Conf := chargeCheck i.clock (entry i s)

theorem scan_eq (i : Tick) (s : Loop) :
    scan (heard i s).1 = (latch (crit i s).isNone (react (tallied i s).1 (crit i s)),(tallied i s).2) := by
  rw [scan,scanPacks_eq]
  rfl

theorem heard_steady (i : Tick) (s : Loop) (steady : Steady s.conf) : Steady (heard i s).1 :=
  steady_congr (heard_control i s) (reload_steady i s.conf steady)

private theorem tallied_steady (i : Tick) (s : Loop) (steady : Steady s.conf) : Steady (tallied i s).1 :=
  steady_congr (tally_control (heard i s).1 {} _) (heard_steady i s steady)

private theorem entry_ruled (i : Tick) (s : Loop) (steady : Steady s.conf) :
    ∃ r, entry i s = ruled r (met i s) ∧ r.soc = measuredSoc (met i s) := by
  have same := (unruled_latch (crit i s).isNone _).trans
    (unruled_react (tallied i s).1 (crit i s) (tallied_steady i s steady))
  obtain ⟨r,scanned⟩ := ruled_of_unruled same
  rw [entry,scan_eq,scanned]
  exact checked_ruled r _ _ _

theorem entry_steady (i : Tick) (s : Loop) (steady : Steady s.conf) : Steady (entry i s) :=
  checked_steady _ _ _ (scan_steady _ (heard_steady i s steady))

theorem decided_steady (i : Tick) (s : Loop) (steady : Steady s.conf) : Steady (decided i s) :=
  chargeCheck_steady i.clock _ (entry_steady i s steady)

theorem checked_outcome (invReported : Bool) (totals : Totals) (conf : Conf) :
    outcome (checked invReported totals conf) = outcome conf := by
  have readings : outcome (checked invReported totals conf) = outcome (resolveCapacity totals conf) :=
    congrArg Control.outcome (resolveReadings_control invReported totals (resolveCapacity totals conf))
  rw [readings]
  unfold resolveCapacity
  dsimp only
  split
  · rfl
  · split
    · rfl
    · split <;> rfl

private theorem entry_outcome (i : Tick) (s : Loop) :
    outcome (entry i s) = verdict (outcome (reload i s.conf)) (crit i s) := by
  rw [entry,checked_outcome,scan_outcome]
  exact congrArg (verdict · _) (congrArg Control.outcome (heard_control i s))

theorem entry_charging (i : Tick) (s : Loop) : isCharging (entry i s) = true ↔ Going i s := by
  have charging := congrArg Outcome.charging (entry_outcome i s)
  simp only [outcome] at charging
  rw [charging,Going]
  cases crit i s with
  | none => simp [verdict]
  | some found => cases found <;> simp [verdict]

private theorem decided_charging (i : Tick) (s : Loop) (steady : Steady s.conf) :
    isCharging (decided i s) = true ↔ On i s := by
  obtain ⟨r,entered,_⟩ := entry_ruled i s steady
  have ends : Ends i.clock.now (entry i s) ↔ Ends i.clock.now (met i s) := by rw [entered,ends_ruled]
  have starts : Starts (entry i s) ↔ Starts (met i s) := by rw [entered,starts_ruled]
  rw [decided,isCharging_chargeCheck,On,← Bool.not_eq_true,entry_charging,ends,starts]

theorem decided_flag (i : Tick) (s : Loop) (v : State) (other : State.charging ≠ v) :
    checkState (decided i s) v = checkState (entry i s) v :=
  checkState_still (still_chargeCheck i.clock (entry i s)) v other

theorem decided_readings (i : Tick) (s : Loop) (steady : Steady s.conf) :
    (decided i s).batteryTemp = (met i s).batteryTemp ∧ (decided i s).soc = measuredSoc (met i s) := by
  have temp := still_congr Conf.batteryTemp (fun _ => rfl) (still_chargeCheck i.clock (entry i s))
  have soc := still_congr Conf.soc (fun _ => rfl) (still_chargeCheck i.clock (entry i s))
  obtain ⟨r,entered,figure⟩ := entry_ruled i s steady
  rw [decided,temp,soc,entered,ruled_batteryTemp,ruled_soc]
  exact ⟨rfl,figure⟩

private theorem checkState_settled {before after : Conf} (same : settled after = settled before) (v : State)
    (other : State.configDirty ≠ v) : checkState after v = checkState before v :=
  settled_congr (checkState · v) (fun _ => by simp [settled,clearState,checkState,other]) same

private theorem reload_flag (i : Tick) (conf : Conf) (v : State) (other : State.charging ≠ v)
    (clean : State.configDirty ≠ v) : checkState (reload i conf) v = checkState conf v := by
  unfold reload
  cases i.reconf with
  | none => rfl
  | some env =>
    by_cases unreadable : Unreadable env conf
    · have kept : (reread env conf).2 = openFile env (dropped conf) :=
        congrArg Prod.snd (readConfig_unreadable env (dropped conf) unreadable)
      exact (congrArg (checkState · v) kept).trans rfl
    · exact (checkState_settled (reread_settled env conf unreadable) v clean).trans
        (reloaded_flag env conf v other)

/-- The state of charge is forced anew, or still, when the scan is over. -/
def Forced (i : Tick) (s : Loop) : Prop :=
  crit i s = some .high ∨ (checkState s.conf .forceSoc = true ∧ crit i s = some .low)

instance (i : Tick) (s : Loop) : Decidable (Forced i s) := inferInstanceAs (Decidable (_ ∨ _))

theorem entry_forced (i : Tick) (s : Loop) (steady : Steady s.conf) :
    checkState (entry i s) .forceSoc = true ↔ Forced i s := by
  have forced := congrArg Outcome.forceSoc (entry_outcome i s)
  have before : checkState (reload i s.conf) .forceSoc = checkState s.conf .forceSoc :=
    reload_flag i s.conf .forceSoc (by decide) (by decide)
  have latched := (reload_steady i s.conf steady).forced
  simp only [outcome] at forced
  rw [forced,Forced,← before]
  cases crit i s with
  | none => simpa [verdict] using latched
  | some found => cases found <;> simp [verdict]

/-! What a pass does with the decision. -/

private theorem pass_eq (i : Tick) (s : Loop) :
    pass i s =
      if (heard i s).2 = false ∧ (tallied i s).2.reported = 0 then
        ⟨⟨(scan (heard i s).1).1,s.startup⟩,none,
          (scan (heard i s).1).1.filename.isNone && (scan (heard i s).1).1.inverter.isNone⟩
      else conclude i s.startup (heard i s).2 (scan (heard i s).1).2 (scan (heard i s).1).1 := by
  have totals : (tallied i s).2 = (scan (heard i s).1).2 := (congrArg Prod.snd (scan_eq i s)).symm
  rw [totals]
  rfl

private theorem conclude_eq (i : Tick) (s : Loop) :
    conclude i s.startup (heard i s).2 (scan (heard i s).1).2 (scan (heard i s).1).1 =
      if (heard i s).2 = true then
        ⟨advance ⟨softStart s.startup (decided i s),s.startup⟩,some (softStart s.startup (decided i s)),false⟩
      else ⟨advance ⟨decided i s,s.startup⟩,none,false⟩ := rfl

theorem written_eq (i : Tick) (s : Loop) :
    (pass i s).written = if (heard i s).2 = true then some (softStart s.startup (decided i s)) else none := by
  rw [pass_eq,conclude_eq]
  cases reported : (heard i s).2 with
  | true => simp
  | false => by_cases counted : (tallied i s).2.reported = 0 <;> simp [counted]

theorem softStart_flag (startup : Int) (conf : Conf) (v : State) (other : State.charging ≠ v) :
    checkState (softStart startup conf) v = checkState conf v := by
  unfold softStart
  split
  · exact checkState_chargeStop conf v other
  · rfl

theorem softStart_temp (startup : Int) (conf : Conf) :
    (softStart startup conf).batteryTemp = conf.batteryTemp := by
  unfold softStart
  split <;> rfl

private theorem advance_flag (s : Loop) (v : State) (other : State.charging ≠ v) :
    checkState (advance s).conf v = checkState s.conf v := by
  unfold advance
  split
  · rfl
  · split
    · dsimp only
      split
      · exact checkState_chargeStart s.conf v other
      · rfl
    · rfl

/-- A pass leaves the critical state exactly when it found no critical cell. -/
theorem after_critvolt (i : Tick) (s : Loop) : isCritvolt (pass i s).after.conf = (crit i s).isSome := by
  have scanned : isCritvolt (scan (heard i s).1).1 = (crit i s).isSome := by
    have flag := congrArg Outcome.critCellvolt (scan_outcome (heard i s).1)
    refine flag.trans ?_
    rw [← crit]
    rcases crit i s with _ | _ | _ <;> rfl
  have entered : isCritvolt (decided i s) = (crit i s).isSome := by
    rw [isCritvolt,decided_flag i s _ (by decide),← isCritvolt]
    exact (congrArg Outcome.critCellvolt (checked_outcome _ _ _)).trans scanned
  rw [pass_eq,conclude_eq]
  split
  · exact scanned
  · split
    · rw [isCritvolt,advance_flag _ _ (by decide),softStart_flag _ _ _ (by decide)]
      exact entered
    · rw [isCritvolt,advance_flag _ _ (by decide)]
      exact entered

/-- Neither the inverter nor a pack before the first critical cell reported. -/
def Quiet (i : Tick) (s : Loop) : Prop :=
  (heard i s).2 = false ∧ counted (heard i s).1 (heard i s).1.packs = []

private theorem tally_reported (conf : Conf) (totals : Totals) (packs : List Pack) :
    (tally conf totals packs).2.reported = totals.reported + packs.length := by
  induction packs generalizing conf totals with
  | nil => rfl
  | cons pp rest ih =>
    rw [tally,ih,List.length_cons]
    simp only [Totals.count]
    omega

private theorem quiet_iff (i : Tick) (s : Loop) :
    Quiet i s ↔ (heard i s).2 = false ∧ (tallied i s).2.reported = 0 := by
  have none : ({} : Totals).reported = 0 := rfl
  rw [Quiet,tallied,tally_reported,none,Nat.zero_add,List.length_eq_zero_iff]

private theorem advance_startup (s : Loop) : (advance s).startup ≠ 1 := by
  unfold advance
  split
  · rename_i zero
    rw [zero]
    decide
  · split
    · exact zero_ne_one
    · dsimp only
      omega

/-- The count stays at the first pass exactly through quiet passes. -/
theorem after_startup (i : Tick) (s : Loop) : (pass i s).after.startup = 1 ↔ s.startup = 1 ∧ Quiet i s := by
  rw [quiet_iff,pass_eq,conclude_eq]
  split
  · rename_i quiet
    simp [quiet]
  · rename_i reported
    have gone (conf : Conf) : (advance ⟨conf,s.startup⟩).startup ≠ 1 := advance_startup _
    split <;> simp [gone,reported]

theorem softStart_soc (startup : Int) (conf : Conf) :
    (softStart startup conf).soc = if startup = 1 then 99.9 else conf.soc := by
  unfold softStart
  split <;> rfl

structure Off (conf : Conf) : Prop where
  idle : isCharging conf = false
  trickle : conf.chargeAmps = 0.1

instance (conf : Conf) : Decidable (Off conf) :=
  decidable_of_iff (isCharging conf = false ∧ conf.chargeAmps = 0.1)
    ⟨fun ⟨idle,trickle⟩ => ⟨idle,trickle⟩,fun off => ⟨off.idle,off.trickle⟩⟩

private theorem off_iff (conf : Conf) (steady : Steady conf) : Off conf ↔ isCharging conf = false :=
  ⟨fun off => off.idle,fun idle => ⟨idle,(steady.sound.stopped idle).1⟩⟩

theorem softStart_charging (i : Tick) (s : Loop) (steady : Steady s.conf) :
    isCharging (softStart s.startup (decided i s)) = false ↔ s.startup = 1 ∨ ¬ On i s := by
  rw [← decided_charging i s steady,Bool.not_eq_true]
  unfold softStart
  split
  · rename_i first
    exact iff_of_true (isCharging_chargeStop _) (Or.inl first)
  · rename_i later
    simp [later]

theorem softStart_off (i : Tick) (s : Loop) (steady : Steady s.conf) :
    Off (softStart s.startup (decided i s)) ↔ s.startup = 1 ∨ ¬ On i s := by
  rw [off_iff _ (softStart_steady s.startup _ (decided_steady i s steady)),softStart_charging i s steady]

/-- Everything a pass writes is off exactly when it writes nothing, or does so
for the first time, or did not decide to charge. -/
theorem written_off_iff (i : Tick) (s : Loop) (steady : Steady s.conf) :
    (∀ w, (pass i s).written = some w → Off w) ↔ s.startup = 1 ∨ (heard i s).2 = false ∨ ¬ On i s := by
  have off := softStart_off i s steady
  rw [written_eq]
  cases (heard i s).2 with
  | true => simpa using off
  | false => simp

end Mybmm.Written
