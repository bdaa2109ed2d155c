import Mybmm.Written

/-! Runs of the loop of main.c from `init` on, and what they write to the
inverter: the cut-off at the critical voltage and at the freezing point, the
critical state, the soft start and the forced state of charge. -/
namespace Mybmm.Runs
open CString Cfg Config Flags Battery Inverters Packs Reconfig Modules Main CritScan Invariant Written Machine

theorem step_after (s : Loop) (i : Tick) (next : Loop) (taken : step s i = some next) : next = (pass i s).after := by
  unfold step at taken
  split at taken
  · contradiction
  · exact (Option.some.inj taken).symm

theorem step_steady (s : Loop) (i : Tick) (next : Loop) (steady : Steady s.conf) (taken : step s i = some next) :
    Steady next.conf := by
  rw [step_after s i next taken]
  exact (pass_steady i s steady).1

/-- A property of passes that a steady configuration decides is decided along a run. -/
private theorem run_iff (P Q : Loop → Tick → Prop) (same : ∀ s i, Steady s.conf → (P s i ↔ Q s i))
    (args : Args) (env : Env) (s : Loop) (started : start args env = some s) (inputs : List Tick) :
    (∀ visit ∈ visits step s inputs, P visit.1 visit.2) ↔ ∀ visit ∈ visits step s inputs, Q visit.1 visit.2 :=
  visits_iff step (fun s => Steady s.conf) (fun s i next steady taken => step_steady s i next steady taken)
    P Q same inputs s (start_steady args env s started).1

/-! A bank to run: an inverter and one pack of fourteen cells, and 200 Ah. -/

def bank : CfgInfo :=
  ⟨[fileSection "MYBMM" [("CAPACITY","200")],inverterItems,packItems "PACK_01" "jbd"]⟩

def bankEnv : Env := bench (some bank)

def bankArgs : Args := { configfile := some "mybmm.conf".toList }

def booted : Loop := (start bankArgs bankEnv).getD ⟨{},0⟩

theorem booted_started : start bankArgs bankEnv = some booted := by
  have starts : (start bankArgs bankEnv).isSome = true := by decide +kernel
  obtain ⟨s,started⟩ := Option.isSome_iff_exists.mp starts
  rw [booted,started]
  rfl

def inverterAt (volts : ℚ) : InverterReply := .read 0 60 volts 0 25

def packAt (temp cell : ℚ) : PackReply :=
  .read {
    charging := false, discharging := true, balancing := false, capacity := 200, voltage := 50, current := 0
    temps := [temp], cellvolt := List.replicate 14 cell }

def tick (inverter : InverterReply) (pack : PackReply) : Tick := ⟨none,inverter,[pack],⟨0,0,Int.le_refl 0⟩⟩

def calm : Tick := tick (inverterAt 50) (packAt 25 3.6)

/-! No charging at the freezing point. -/

def ColdOff (s : Loop) (i : Tick) : Prop := ∀ w ∈ (pass i s).written, w.batteryTemp ≤ 0 → Off w

/-- The discharging branch has no eye on the temperature. -/
def ColdStart (s : Loop) (i : Tick) : Prop :=
  s.startup ≠ 1 ∧ (heard i s).2 = true ∧ (met i s).batteryTemp ≤ 0 ∧ ¬ Going i s ∧ Starts (met i s)

private theorem on_cold (i : Tick) (s : Loop) (cold : (met i s).batteryTemp ≤ 0) :
    On i s ↔ ¬ Going i s ∧ Starts (met i s) := by
  have ends : Ends i.clock.now (met i s) := Or.inl cold
  simp [On,ends]

instance (s : Loop) (i : Tick) : Decidable (ColdStart s i) := inferInstanceAs (Decidable (_ ∧ _))

instance (s : Loop) (i : Tick) : Decidable (ColdOff s i) :=
  inferInstanceAs (Decidable (∀ w ∈ (pass i s).written, w.batteryTemp ≤ 0 → Off w))

private theorem cold_off (s : Loop) (i : Tick) (steady : Steady s.conf) : ColdOff s i ↔ ¬ ColdStart s i := by
  have off := softStart_off i s steady
  have temp : (softStart s.startup (decided i s)).batteryTemp = (met i s).batteryTemp :=
    (softStart_temp s.startup (decided i s)).trans (decided_readings i s steady).1
  rw [ColdOff,ColdStart,written_eq]
  cases (heard i s).2 with
  | false => simp
  | true =>
    simp only [if_true,Option.mem_def,Option.some.injEq,forall_eq',temp,off]
    by_cases cold : (met i s).batteryTemp ≤ 0
    · simp [cold,on_cold i s cold,imp_iff_not_or]
    · simp [cold]

/-- Along every run, nothing that is written at the freezing point or below
charges unless the discharging branch started it. -/
theorem cold_off_iff (args : Args) (env : Env) (s : Loop) (started : start args env = some s) (inputs : List Tick) :
    (∀ visit ∈ visits step s inputs, ColdOff visit.1 visit.2) ↔
      ∀ visit ∈ visits step s inputs, ¬ ColdStart visit.1 visit.2 :=
  run_iff ColdOff (fun s i => ¬ ColdStart s i) cold_off args env s started inputs

theorem cold_ended :
    start bankArgs bankEnv = some booted ∧
      ∀ visit ∈ visits step booted [calm,calm,tick (inverterAt 50) (packAt (-5) 3.6)], ColdOff visit.1 visit.2 :=
  ⟨booted_started,(cold_off_iff bankArgs bankEnv booted booted_started _).mpr (by decide +kernel)⟩

/-- A frozen bank under 42 V is charged on the second pass. -/
theorem cold_started :
    start bankArgs bankEnv = some booted ∧
      ¬ ∀ visit ∈ visits step booted [tick (inverterAt 40) (packAt (-5) 3.6),tick (inverterAt 40) (packAt (-5) 3.6)],
        ColdOff visit.1 visit.2 :=
  ⟨booted_started,by decide +kernel⟩

/-! The cut-off at the critical voltage. -/

def startLimit (args : Args) (env : Env) : ℚ :=
  if args.batteryChem ≥ 0 then (chemistry args.batteryChem).cellCritHigh
  else (reloaded env { filename := args.configfile, debug := args.debug }).cellCritHigh

private theorem batteryInit_limit (conf : Conf) :
    (batteryInit conf).cellCritHigh =
      if conf.cellCritHigh < 0 then (chemistry conf.batteryChem).cellCritHigh else conf.cellCritHigh := by
  rw [still_congr Conf.cellCritHigh (fun _ => rfl) (still_batteryInit conf)]
  rfl

theorem start_limit (args : Args) (env : Env) (s : Loop) (started : start args env = some s) :
    s.conf.cellCritHigh = startLimit args env := by
  obtain ⟨conf,initial,rfl⟩ := Option.map_eq_some_iff.mp started
  obtain ⟨read,configured,options⟩ := Option.bind_eq_some_iff.mp initial
  obtain ⟨mid,inverter,packs⟩ := Option.bind_eq_some_iff.mp options
  have devices := (packOption_settled args env mid conf packs).trans (inverterOption_settled args env _ mid inverter)
  rw [still_congr Conf.cellCritHigh (fun _ => rfl) (still_chargeStart conf),
    settled_congr Conf.cellCritHigh (fun _ => rfl) devices]
  unfold batteryOption startLimit
  split
  · rw [batteryInit_limit]
    exact if_pos (by norm_num)
  · have done := (getConfig_reread env _ _ read).mp configured
    have settles := reread_settled env _ (reread_done env _ read done).1
    rw [done] at settles
    rw [getMqttConf_keeps Conf.cellCritHigh (fun _ _ => rfl),
      settled_congr Conf.cellCritHigh (fun _ => rfl) settles]

/-- The loop, and the limit `battery_init` resolved last. -/
structure Watched where
  loop : Loop
  limit : ℚ

def limitAfter (w : Watched) (i : Tick) : ℚ :=
  match i.reconf with
  | none => w.limit
  | some env => if Unreadable env w.loop.conf then w.limit else (reloaded env w.loop.conf).cellCritHigh

def startWatch (args : Args) (env : Env) (s : Loop) : Watched := ⟨s,startLimit args env⟩

def watch (w : Watched) (i : Tick) : Option Watched := (step w.loop i).map fun next => ⟨next,limitAfter w i⟩

def Over (limit : ℚ) (packs : List Pack) : Prop :=
  ∃ pp ∈ packs, check pp.state PackState.updated = true ∧ ∃ v ∈ pp.cellvolt, limit ≤ v

def OverOff (w : Watched) (i : Tick) : Prop :=
  Over (limitAfter w i) (heard i w.loop).1.packs → ∀ c ∈ (pass i w.loop).written, Off c

def OverCharge (w : Watched) (i : Tick) : Prop :=
  w.loop.startup ≠ 1 ∧ (heard i w.loop).2 = true ∧ Over (limitAfter w i) (heard i w.loop).1.packs ∧ On i w.loop

instance (limit : ℚ) (packs : List Pack) : Decidable (Over limit packs) :=
  inferInstanceAs (Decidable (∃ pp ∈ packs, _ ∧ ∃ v ∈ pp.cellvolt, limit ≤ v))

instance (w : Watched) (i : Tick) : Decidable (OverOff w i) :=
  inferInstanceAs (Decidable (_ → ∀ c ∈ (pass i w.loop).written, Off c))

instance (w : Watched) (i : Tick) : Decidable (OverCharge w i) := inferInstanceAs (Decidable (_ ∧ _))

private theorem over_off (w : Watched) (i : Tick) (steady : Steady w.loop.conf) : OverOff w i ↔ ¬ OverCharge w i := by
  have off := written_off_iff i w.loop steady
  simp only [OverOff,OverCharge,Option.mem_def,off,← Bool.not_eq_true]
  tauto

private theorem watch_steady (w : Watched) (i : Tick) (next : Watched) (steady : Steady w.loop.conf)
    (taken : watch w i = some next) : Steady next.loop.conf := by
  obtain ⟨after,stepped,rfl⟩ := Option.map_eq_some_iff.mp taken
  exact step_steady w.loop i after steady stepped

def Compared (w : Watched) (i : Tick) : Prop := (heard i w.loop).1.cellCritHigh = limitAfter w i

/-- A charge the scan stopped, or found stopped, is not started before the write. -/
def StaysOff (w : Watched) (i : Tick) : Prop :=
  Over (limitAfter w i) (heard i w.loop).1.packs → isCharging (scan (heard i w.loop).1).1 = false →
    ∀ c ∈ (pass i w.loop).written, isCharging c = false

def OverStart (w : Watched) (i : Tick) : Prop :=
  w.loop.startup ≠ 1 ∧ (heard i w.loop).2 = true ∧ Over (limitAfter w i) (heard i w.loop).1.packs ∧
    ¬ Going i w.loop ∧ Starts (met i w.loop)

theorem compared (w : Watched) (i : Tick) : Compared w i ↔ limitAfter w i = updateCritHigh := eq_comm

private theorem stays_off (w : Watched) (i : Tick) (steady : Steady w.loop.conf) : StaysOff w i ↔ ¬ OverStart w i := by
  have scanned : isCharging (scan (heard i w.loop).1).1 = false ↔ ¬ Going i w.loop := by
    rw [← entry_charging,Bool.not_eq_true]
    exact Eq.congr_left (congrArg Outcome.charging (checked_outcome _ _ _)).symm
  have idle := softStart_charging i w.loop steady
  rw [StaysOff,OverStart,written_eq,scanned]
  cases (heard i w.loop).2 with
  | false => simp
  | true =>
    simp only [if_true,Option.mem_def,Option.some.injEq,forall_eq',idle,On]
    by_cases going : Going i w.loop
    · simp [going]
    · simp [going,imp_iff_not_or,or_left_comm]

/-- Along every run, a charge is cut off over the limit unless it goes on or is
started; the limit compared is the resolved one only if that is 9.9 V; and a
charge the scan left stopped stays so unless the discharging branch starts it. -/
theorem over_off_iff (args : Args) (env : Env) (s : Loop) (started : start args env = some s) (inputs : List Tick) :
    ((∀ visit ∈ visits watch (startWatch args env s) inputs, OverOff visit.1 visit.2) ↔
      ∀ visit ∈ visits watch (startWatch args env s) inputs, ¬ OverCharge visit.1 visit.2) ∧
    ((∀ visit ∈ visits watch (startWatch args env s) inputs, Compared visit.1 visit.2) ↔
      ∀ visit ∈ visits watch (startWatch args env s) inputs, limitAfter visit.1 visit.2 = updateCritHigh) ∧
    ((∀ visit ∈ visits watch (startWatch args env s) inputs, StaysOff visit.1 visit.2) ↔
      ∀ visit ∈ visits watch (startWatch args env s) inputs, ¬ OverStart visit.1 visit.2) := by
  have decided (P Q : Watched → Tick → Prop) (same : ∀ w i, Steady w.loop.conf → (P w i ↔ Q w i)) :=
    visits_iff watch (fun w => Steady w.loop.conf) (fun w i next steady taken => watch_steady w i next steady taken)
      P Q same inputs (startWatch args env s) (start_steady args env s started).1
  exact ⟨decided _ (fun w i => ¬ OverCharge w i) over_off,
    decided _ (fun w i => limitAfter w i = updateCritHigh) fun w i _ => compared w i,
    decided _ (fun w i => ¬ OverStart w i) stays_off⟩

theorem over_cold :
    start bankArgs bankEnv = some booted ∧
      ∀ visit ∈ visits watch (startWatch bankArgs bankEnv booted) [calm,calm,tick (inverterAt 50) (packAt (-5) 4.3)],
        OverOff visit.1 visit.2 :=
  ⟨booted_started,(over_off_iff bankArgs bankEnv booted booted_started _).1.mpr (by decide +kernel)⟩

/-- With the limit at 4.25 V, a charge goes on at 4.3 V. -/
theorem over_charged :
    start bankArgs bankEnv = some booted ∧
      ¬ ∀ visit ∈ visits watch (startWatch bankArgs bankEnv booted) [calm,calm,tick (inverterAt 50) (packAt 25 4.3)],
        OverOff visit.1 visit.2 :=
  ⟨booted_started,by decide +kernel⟩

/-! The critical state. -/

def AllInRange (conf : Conf) : Prop :=
  ∀ pp ∈ conf.packs, check pp.state PackState.updated = true ∧
    ∀ v ∈ pp.cellvolt, conf.cellCritLow < v ∧ v < conf.cellCritHigh

def Latched (s : Loop) (i : Tick) : Prop :=
  isCritvolt s.conf = true → isCritvolt (pass i s).after.conf = false → AllInRange (heard i s).1

/-- The packs that answer are all the scan asks about. -/
def Unlatched (s : Loop) (i : Tick) : Prop :=
  isCritvolt s.conf = true ∧ crit i s = none ∧
    ∃ pp ∈ (heard i s).1.packs, check pp.state PackState.updated = false

instance (conf : Conf) : Decidable (AllInRange conf) :=
  inferInstanceAs (Decidable (∀ pp ∈ conf.packs, _ ∧ ∀ v ∈ pp.cellvolt, _ < v ∧ v < _))

instance (s : Loop) (i : Tick) : Decidable (Latched s i) := inferInstanceAs (Decidable (_ → _ → _))

instance (s : Loop) (i : Tick) : Decidable (Unlatched s i) :=
  inferInstanceAs (Decidable (_ ∧ _ ∧ ∃ pp ∈ (heard i s).1.packs, _))

private theorem crit_none (i : Tick) (s : Loop) :
    crit i s = none ↔ ∀ pp ∈ (heard i s).1.packs, check pp.state PackState.updated = true →
      ∀ v ∈ pp.cellvolt, (heard i s).1.cellCritLow < v ∧ v < (heard i s).1.cellCritHigh := by
  have inside (v : ℚ) : classify (heard i s).1 v = none ↔
      (heard i s).1.cellCritLow < v ∧ v < (heard i s).1.cellCritHigh := by
    unfold classify
    split_ifs <;> simp_all
  simp only [crit,firstCrit,Scan.first,List.findSome?_eq_none_iff,List.mem_flatMap,inside]
  constructor
  · intro clear pp member answered v cell
    exact clear v ⟨pp,member,by simpa [answers,answered] using cell⟩
  · rintro clear v ⟨pp,member,cell⟩
    unfold answers at cell
    split at cell
    · rename_i answered
      exact clear pp member answered v cell
    · contradiction

theorem latched (s : Loop) (i : Tick) : Latched s i ↔ ¬ Unlatched s i := by
  rw [Latched,Unlatched,after_critvolt,Option.isSome_eq_false_iff,Option.isNone_iff_eq_none,AllInRange]
  constructor
  · rintro kept ⟨before,clear,pp,member,silent⟩
    rw [(kept before clear pp member).1] at silent
    contradiction
  · intro answered before clear pp member
    have updated : check pp.state PackState.updated = true := by
      by_contra silent
      exact answered ⟨before,clear,pp,member,by simpa using silent⟩
    exact ⟨updated,(crit_none i s).mp clear pp member updated⟩

/-- Along every run, the critical state ends with every cell read in range
unless a pack that does not answer was all that stood in the way. -/
theorem latched_iff (args : Args) (env : Env) (s : Loop) (started : start args env = some s) (inputs : List Tick) :
    (∀ visit ∈ visits step s inputs, Latched visit.1 visit.2) ↔
      ∀ visit ∈ visits step s inputs, ¬ Unlatched visit.1 visit.2 :=
  run_iff Latched (fun s i => ¬ Unlatched s i) (fun s i _ => latched s i) args env s started inputs

theorem latched_recovered :
    start bankArgs bankEnv = some booted ∧
      ∀ visit ∈ visits step booted [tick (inverterAt 50) (packAt 25 1),calm], Latched visit.1 visit.2 :=
  ⟨booted_started,(latched_iff bankArgs bankEnv booted booted_started _).mpr (by decide +kernel)⟩

/-- A cell at 1 V whose pack no longer answers. -/
theorem silence_unlatches :
    start bankArgs bankEnv = some booted ∧
      ¬ ∀ visit ∈ visits step booted [tick (inverterAt 50) (packAt 25 1),tick (inverterAt 50) .closed],
        Latched visit.1 visit.2 :=
  ⟨booted_started,by decide +kernel⟩

/-! The soft start. -/

structure Soft (conf : Conf) : Prop where
  idle : isCharging conf = false
  trickle : conf.chargeAmps = 0.1
  soc : conf.soc = 99.9

/-- A visit of a run before which nothing was written. -/
structure Leads (s : Loop) (inputs : List Tick) (before : List (Loop × Tick)) (visit : Loop × Tick) : Prop where
  run : ∃ after, visits step s inputs = before ++ visit :: after
  silent : ∀ earlier ∈ before, (pass earlier.2 earlier.1).written = none

private theorem leads_startup {s : Loop} {inputs : List Tick} {before : List (Loop × Tick)} {visit : Loop × Tick}
    (leads : Leads s inputs before visit) :
    visit.1.startup = 1 ↔ s.startup = 1 ∧ ∀ earlier ∈ before, Quiet earlier.2 earlier.1 := by
  obtain ⟨after,run⟩ := leads.run
  refine visits_history step (fun s => s.startup = 1) (fun s i => Quiet i s) (fun s i next taken => ?_)
    before visit after inputs s run
  rw [step_after s i next taken]
  exact after_startup i s

private theorem leads_steady {s : Loop} {inputs : List Tick} {before : List (Loop × Tick)} {visit : Loop × Tick}
    (leads : Leads s inputs before visit) (steady : Steady s.conf) : Steady visit.1.conf := by
  obtain ⟨after,run⟩ := leads.run
  exact run_steady s steady inputs visit (by simp [run])

private theorem soft_iff (i : Tick) (s : Loop) (steady : Steady s.conf) :
    (∀ w ∈ (pass i s).written, Soft w) ↔
      ((heard i s).2 = true → s.startup = 1 ∨ (¬ On i s ∧ measuredSoc (met i s) = 99.9)) := by
  have split (conf : Conf) : Soft conf ↔ Off conf ∧ conf.soc = 99.9 :=
    ⟨fun soft => ⟨⟨soft.idle,soft.trickle⟩,soft.soc⟩,fun ⟨off,soc⟩ => ⟨off.idle,off.trickle,soc⟩⟩
  have off := softStart_off i s steady
  have soc := (decided_readings i s steady).2
  rw [written_eq]
  cases (heard i s).2 with
  | false => simp
  | true =>
    simp only [if_true,Option.mem_def,Option.some.injEq,forall_eq',forall_const,split,off,softStart_soc,soc]
    by_cases first : s.startup = 1 <;> simp [first]

/-- Something reported before the inverter first did, and the pass that then
writes charges or is not at 99.9 %. -/
def HardStart (before : List (Loop × Tick)) (visit : Loop × Tick) : Prop :=
  (heard visit.2 visit.1).2 = true ∧ (∃ earlier ∈ before, ¬ Quiet earlier.2 earlier.1) ∧
    (On visit.2 visit.1 ∨ measuredSoc (met visit.2 visit.1) ≠ 99.9)

/-- The first write of a run is soft exactly when nothing reported before the
inverter did, or when the pass that writes rests at 99.9 % anyway. -/
theorem first_write_iff (args : Args) (env : Env) (s : Loop) (started : start args env = some s) (inputs : List Tick) :
    (∀ before visit, Leads s inputs before visit → ∀ w ∈ (pass visit.2 visit.1).written, Soft w) ↔
      ∀ before visit, Leads s inputs before visit → ¬ HardStart before visit := by
  obtain ⟨steady,first⟩ := start_steady args env s started
  refine forall_congr' fun before => forall_congr' fun visit => imp_congr_right fun leads => ?_
  rw [soft_iff visit.2 visit.1 (leads_steady leads steady),leads_startup leads,HardStart]
  have disturbed : (∃ earlier ∈ before, ¬ Quiet earlier.2 earlier.1) ↔
      ¬ ∀ earlier ∈ before, Quiet earlier.2 earlier.1 := by
    simp
  rw [disturbed]
  simp only [first,true_and]
  tauto

instance (conf : Conf) : Decidable (Soft conf) :=
  decidable_of_iff (isCharging conf = false ∧ conf.chargeAmps = 0.1 ∧ conf.soc = 99.9)
    ⟨fun ⟨idle,trickle,soc⟩ => ⟨idle,trickle,soc⟩,fun soft => ⟨soft.idle,soft.trickle,soft.soc⟩⟩

instance (i : Tick) (s : Loop) : Decidable (Quiet i s) := inferInstanceAs (Decidable (_ ∧ _))

theorem soft_after_silence :
    start bankArgs bankEnv = some booted ∧
      ∀ before visit, Leads booted [tick .closed .closed,calm] before visit →
        ∀ w ∈ (pass visit.2 visit.1).written, Soft w := by
  refine ⟨booted_started,(first_write_iff bankArgs bankEnv booted booted_started _).mpr ?_⟩
  rintro before visit leads ⟨_,⟨earlier,member,loud⟩,_⟩
  have quiet : ∀ v ∈ visits step booted [tick .closed .closed,calm],
      (pass v.2 v.1).written = none → Quiet v.2 v.1 := by
    decide +kernel
  obtain ⟨after,run⟩ := leads.run
  exact loud (quiet earlier (by simp [run,member]) (leads.silent earlier member))

/-- The pack reports one pass before the inverter does, and the first write charges. -/
theorem hard_start :
    start bankArgs bankEnv = some booted ∧
      ¬ ∀ before visit, Leads booted [tick .closed (packAt 25 3.6),calm] before visit →
        ∀ w ∈ (pass visit.2 visit.1).written, Soft w := by
  refine ⟨booted_started,fun all => ?_⟩
  have taken : step booted (tick .closed (packAt 25 3.6)) = some (pass (tick .closed (packAt 25 3.6)) booted).after :=
    if_neg (by decide +kernel)
  have leads : Leads booted [tick .closed (packAt 25 3.6),calm] [(booted,tick .closed (packAt 25 3.6))]
      ((pass (tick .closed (packAt 25 3.6)) booted).after,calm) :=
    ⟨⟨_,by simp only [visits,taken]; rfl⟩,by decide +kernel⟩
  have hard : ¬ ∀ w ∈ (pass calm (pass (tick .closed (packAt 25 3.6)) booted).after).written, Soft w := by
    decide +kernel
  exact hard (all _ _ leads)

/-! The forced state of charge. -/

def Forced101 (s : Loop) (i : Tick) : Prop :=
  s.startup = 0 → ∀ w ∈ (pass i s).written, checkState w .forceSoc = true → w.soc = 101

def Overruled (s : Loop) (i : Tick) : Prop :=
  s.startup = 0 ∧ (heard i s).2 = true ∧ Forced i s ∧ measuredSoc (met i s) ≠ 101

def ForcedCritical (conf : Conf) : Prop := checkState conf .forceSoc = true → isCritvolt conf = true

instance (s : Loop) (i : Tick) : Decidable (Forced101 s i) :=
  inferInstanceAs (Decidable (_ → ∀ w ∈ (pass i s).written, _ → w.soc = 101))

instance (s : Loop) (i : Tick) : Decidable (Overruled s i) := inferInstanceAs (Decidable (_ ∧ _))

private theorem forced_101 (s : Loop) (i : Tick) (steady : Steady s.conf) : Forced101 s i ↔ ¬ Overruled s i := by
  have forced := entry_forced i s steady
  have flag := decided_flag i s .forceSoc (by decide)
  have soc := (decided_readings i s steady).2
  rw [Forced101,Overruled,written_eq]
  cases (heard i s).2 with
  | false => simp
  | true =>
    simp only [if_true,Option.mem_def,Option.some.injEq,forall_eq',true_and,softStart_soc,
      softStart_flag _ _ State.forceSoc (by decide),flag,forced,soc]
    by_cases running : s.startup = 0 <;> simp [running]

/-- Along every run, what is written past the start with the flag set has the
forced value unless the readings overrule it; and the flag is set only in the
critical state. -/
theorem forced_soc_iff (args : Args) (env : Env) (s : Loop) (started : start args env = some s) (inputs : List Tick) :
    ((∀ visit ∈ visits step s inputs, Forced101 visit.1 visit.2) ↔
      ∀ visit ∈ visits step s inputs, ¬ Overruled visit.1 visit.2) ∧
    ∀ visit ∈ visits step s inputs, ForcedCritical visit.1.conf ∧ ForcedCritical (pass visit.2 visit.1).after.conf ∧
      ∀ w ∈ (pass visit.2 visit.1).written, ForcedCritical w := by
  refine ⟨run_iff Forced101 (fun s i => ¬ Overruled s i) forced_101 args env s started inputs,
    fun visit member => ?_⟩
  have steady := run_steady s (start_steady args env s started).1 inputs visit member
  obtain ⟨after,written⟩ := pass_steady visit.2 visit.1 steady
  exact ⟨steady.forced,after.forced,fun w writes => (written w writes).forced⟩

theorem forced_anyway :
    start bankArgs bankEnv = some booted ∧
      ∀ visit ∈ visits step booted [calm,calm,tick (inverterAt 58.968) (packAt 25 10)], Forced101 visit.1 visit.2 :=
  ⟨booted_started,(forced_soc_iff bankArgs bankEnv booted booted_started _).1.mpr (by decide +kernel)⟩

/-- A cell at 10 V forces 101 %, and the voltage of the bank makes it 47.6 %. -/
theorem forced_overruled :
    start bankArgs bankEnv = some booted ∧
      ¬ ∀ visit ∈ visits step booted [calm,calm,tick (inverterAt 50) (packAt 25 10)], Forced101 visit.1 visit.2 :=
  ⟨booted_started,by decide +kernel⟩

end Mybmm.Runs
