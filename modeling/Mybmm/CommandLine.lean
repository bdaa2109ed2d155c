import Mybmm.FreshStart
import Mybmm.Invariant

/-! The battery on the command line against the battery in the file. `-b` has the
limits resolved a second time, over what the file's own options and chemistry
have already settled. -/
namespace Mybmm.CommandLine
open CString Libc Cfg Config Flags Battery Modules Inverters Packs Reconfig FreshStart Main Invariant

/-- What the rest of the program knows of the battery. -/
structure Figures where
  capacity : ℚ
  cellLow : ℚ
  cellCritLow : ℚ
  cellHigh : ℚ
  cellCritHigh : ℚ
  cellMin : ℚ
  cellMax : ℚ
  cRate : ℚ
  eRate : ℚ
  chargeMaxVoltage : ℚ
  chargeTargetVoltage : ℚ
deriving DecidableEq

def figures (conf : Conf) : Figures where
  capacity := conf.capacity
  cellLow := conf.cellLow
  cellCritLow := conf.cellCritLow
  cellHigh := conf.cellHigh
  cellCritHigh := conf.cellCritHigh
  cellMin := conf.cellMin
  cellMax := conf.cellMax
  cRate := conf.cRate
  eRate := conf.eRate
  chargeMaxVoltage := conf.chargeMaxVoltage
  chargeTargetVoltage := conf.chargeTargetVoltage

def aim (conf : Conf) : ℚ :=
  if truncate conf.capacity = 0 ∨ conf.chargeAtMax ≠ 0 then conf.chargeTargetVoltage else setPoint conf

theorem figures_chargeStart (conf : Conf) :
    figures (chargeStart conf) = { figures conf with chargeTargetVoltage := aim conf } := by
  by_cases empty : truncate conf.capacity = 0
  · rw [chargeStart_empty conf empty,aim,if_pos (Or.inl empty)]
    rfl
  · rw [chargeStart_started conf empty]
    by_cases top : conf.chargeAtMax = 0 <;> simp [figures,aim,started,setState,empty,top]

def initFigures (d : Defaulted) : Figures :=
  let chem := chemistry d.batteryChem
  let r := resolved d
  let capacity := if d.userCapacity < 0 then 0 else d.userCapacity
  { capacity := capacity
    cellLow := r.cellLow
    cellCritLow := r.cellCritLow
    cellHigh := r.cellHigh
    cellCritHigh := r.cellCritHigh
    cellMin := chem.cellMin
    cellMax := chem.cellMax
    cRate := r.cRate
    eRate := r.eRate
    chargeMaxVoltage := if d.userChargeVoltage < 0 then chem.cellMax * r.cells else d.userChargeMaxVoltage
    chargeTargetVoltage :=
      if truncate capacity = 0 ∨ d.chargeAtMax ≠ 0 then r.cellHigh * r.cells
      else if d.userChargeVoltage < 0 then r.cellHigh * r.cells else d.userChargeVoltage }

theorem batteryInit_figures (conf : Conf) : figures (batteryInit conf) = initFigures (defaulted conf) := by
  rw [batteryInit,figures_chargeStart]
  rfl

private theorem aim_chargeStart (conf : Conf) : aim (chargeStart conf) = aim conf := by
  have kept := still_chargeStart conf
  have target : (chargeStart conf).chargeTargetVoltage = aim conf :=
    congrArg Figures.chargeTargetVoltage (figures_chargeStart conf)
  rw [aim,still_congr Conf.capacity (fun _ => rfl) kept,still_congr Conf.chargeAtMax (fun _ => rfl) kept,
    still_congr setPoint (fun _ => rfl) kept,target,aim]
  split <;> rfl

theorem figures_again (conf : Conf) : figures (chargeStart (batteryInit conf)) = figures (batteryInit conf) := by
  rw [figures_chargeStart (batteryInit conf),batteryInit,aim_chargeStart,figures_chargeStart]

/-! The options of a file, and those of the same file with the battery in it. -/

def fileOptions (file : Option CfgInfo) : Defaulted := defaulted (cfgGetTab file configTab {})

def mybmm : Text := "mybmm".toList

def unset : List Text :=
  ["cell_low".toList,"cell_crit_low".toList,"cell_high".toList,"cell_crit_high".toList,"c_rate".toList,"e_rate".toList]

def replaced : List Text := "battery_chem".toList :: "capacity".toList :: unset

/-- `other` is `file` with the battery in it: the chemistry, the capacity, and no
limits. -/
structure Instead (file other : CfgInfo) (chem cap : Int) : Prop where
  chemistry : (cfgGetItem (some other) mybmm "battery_chem".toList).map atoi = some chem
  capacity : (cfgGetItem (some other) mybmm "capacity".toList).map atof = some (cap : ℚ)
  limits : ∀ keyword ∈ unset, cfgGetItem (some other) mybmm keyword = none
  others : ∀ sectionName keyword,
    toupper sectionName ≠ toupper mybmm ∨ toupper keyword ∉ replaced.map toupper →
      cfgGetItem (some other) sectionName keyword = cfgGetItem (some file) sectionName keyword

def withBattery (d : Defaulted) (chem : Int) : Defaulted :=
  { d with
    batteryChem := chem, cellLow := -1, cellCritLow := -1, cellHigh := -1, cellCritHigh := -1, cRate := -1 }

def optionOf {α : Type} (read : Text → α) (file : Option CfgInfo) (keyword default : String) : α :=
  read ((cfgGetItem file mybmm keyword.toList).getD default.toList)

def logical (src : Text) : Int :=
  if tolower src = "yes".toList ∨ tolower src = "true".toList ∨ tolower src = "1".toList then 1 else 0

private theorem fileOptions_eq (file : Option CfgInfo) :
    fileOptions file =
      { interval := optionOf atoi file "interval" "30"
        maxChargeAmps := optionOf atof file "max_charge_amps" "-1"
        maxDischargeAmps := optionOf atof file "max_discharge_amps" "-1"
        systemVoltage := optionOf atoi file "system_voltage" "48"
        batteryChem := optionOf atoi file "battery_chem" "1"
        cells := optionOf atoi file "cells" "14"
        cellLow := optionOf atof file "cell_low" "-1"
        cellCritLow := optionOf atof file "cell_crit_low" "-1"
        cellHigh := optionOf atof file "cell_high" "-1"
        cellCritHigh := optionOf atof file "cell_crit_high" "-1"
        cRate := optionOf atof file "c_rate" "-1"
        eRate := optionOf atof file "e_rate" "-1"
        userCapacity := optionOf atof file "capacity" "-1"
        userChargeVoltage := optionOf atof file "charge_voltage" "-1"
        userChargeAmps := optionOf atof file "charge_amps" "-1"
        userDischargeVoltage := optionOf atof file "discharge_voltage" "-1"
        userDischargeAmps := optionOf atof file "discharge_amps" "-1"
        userChargeMaxVoltage := optionOf atof file "charge_max_voltage" "-1"
        chargeAtMax := optionOf logical file "charge_at_max" "N"
        userSoc := optionOf atof file "soc" "-1.0"
        usePackv := optionOf logical file "use_pack_voltage" "0" } := by
  rw [fileOptions,configTab,cfgGetTab_cons,cfgGetTab_defaults file _ _ defaultTab_covered]
  generalize cfgGetEntry file _ _ = conf
  rfl

private theorem optionOf_same {α : Type} (read : Text → α) (file other : CfgInfo) (chem cap : Int)
    (instead : Instead file other chem cap) (keyword default : String)
    (outside : toupper keyword.toList ∉ replaced.map toupper) :
    optionOf read (some other) keyword default = optionOf read (some file) keyword default := by
  rw [optionOf,optionOf,instead.others mybmm keyword.toList (Or.inr outside)]

private theorem optionOf_unset (file other : CfgInfo) (chem cap : Int) (instead : Instead file other chem cap)
    (keyword : String) (absent : keyword.toList ∈ unset) : optionOf atof (some other) keyword "-1" = -1 := by
  have default : atof "-1".toList = -1 := by decide +kernel
  rw [optionOf,instead.limits _ absent,Option.getD_none,default]

private theorem fileOptions_instead (file other : CfgInfo) (chem cap : Int) (instead : Instead file other chem cap) :
    fileOptions (some other) =
      { withBattery (fileOptions (some file)) chem with eRate := -1, userCapacity := cap } := by
  have chemistry : optionOf atoi (some other) "battery_chem" "1" = chem := by
    obtain ⟨text,found,read⟩ := Option.map_eq_some_iff.mp instead.chemistry
    rw [optionOf,found,Option.getD_some,read]
  have capacity : optionOf atof (some other) "capacity" "-1" = cap := by
    obtain ⟨text,found,read⟩ := Option.map_eq_some_iff.mp instead.capacity
    rw [optionOf,found,Option.getD_some,read]
  have same {α : Type} (read : Text → α) := optionOf_same read file other chem cap instead
  have none := optionOf_unset file other chem cap instead
  rw [fileOptions_eq,fileOptions_eq,chemistry,capacity,none "cell_low" (by decide),none "cell_crit_low" (by decide),
    none "cell_high" (by decide),none "cell_crit_high" (by decide),none "c_rate" (by decide),
    none "e_rate" (by decide)]
  simp only [withBattery,Defaulted.mk.injEq,true_and]
  repeat' apply And.intro
  all_goals exact same _ _ _ (by decide)

/-! Both ways come to figures of one shape. -/

def batteryFigures (chem : Chemistry) (capacity eRate : ℚ) (cells : Int) (d : Defaulted) : Figures :=
  { capacity := capacity
    cellLow := chem.cellLow
    cellCritLow := chem.cellCritLow
    cellHigh := chem.cellHigh
    cellCritHigh := chem.cellCritHigh
    cellMin := chem.cellMin
    cellMax := chem.cellMax
    cRate := chem.cRate
    eRate := eRate
    chargeMaxVoltage := if d.userChargeVoltage < 0 then chem.cellMax * cells else d.userChargeMaxVoltage
    chargeTargetVoltage :=
      if truncate capacity = 0 ∨ d.chargeAtMax ≠ 0 then chem.cellHigh * cells
      else if d.userChargeVoltage < 0 then chem.cellHigh * cells else d.userChargeVoltage }

private theorem chemistry_positive (chem : Int) :
    0 < (chemistry chem).cellHigh ∧ 0 < (chemistry chem).cellMax ∧ 0 < (chemistry chem).eRate ∧
      0 < (chemistry chem).cells := by
  unfold chemistry
  split_ifs <;> norm_num [lithium,lifepo4,titanate]

private theorem resolved_settled (d : Defaulted) : 0 ≤ (resolved d).eRate ∧ 0 ≤ (resolved d).cells := by
  obtain ⟨_,_,eRate,cells⟩ := chemistry_positive d.batteryChem
  refine ⟨?_,?_⟩
  · change 0 ≤ if d.eRate < 0 then _ else _
    split
    · exact eRate.le
    · exact le_of_not_gt ‹_›
  · change 0 ≤ if d.cells < 0 then _ else _
    split
    · exact cells.le
    · exact le_of_not_gt ‹_›

private theorem initFigures_withBattery (d : Defaulted) (chem : Int) :
    initFigures (withBattery d chem) =
      batteryFigures (chemistry chem) (if d.userCapacity < 0 then 0 else d.userCapacity)
        (if d.eRate < 0 then (chemistry chem).eRate else d.eRate)
        (if d.cells < 0 then (chemistry chem).cells else d.cells) d := by
  simp only [initFigures,resolved,withBattery]
  rfl

private theorem batteryFigures_iff (chem : Chemistry) (high : 0 < chem.cellHigh) (most : 0 < chem.cellMax)
    (capacity capacity' eRate eRate' : ℚ) (cells cells' : Int) (d : Defaulted) :
    batteryFigures chem capacity eRate cells d = batteryFigures chem capacity' eRate' cells' d ↔
      capacity = capacity' ∧ eRate = eRate' ∧
        (cells = cells' ∨ (0 ≤ d.userChargeVoltage ∧ d.chargeAtMax = 0 ∧ truncate capacity' ≠ 0)) := by
  have volts (factor : ℚ) (positive : 0 < factor) : factor * cells = factor * cells' ↔ cells = cells' := by
    rw [mul_right_inj' positive.ne',Int.cast_inj]
  simp only [batteryFigures,Figures.mk.injEq,true_and]
  constructor
  · rintro ⟨rfl,rfl,max,target⟩
    refine ⟨rfl,rfl,?_⟩
    by_cases free : d.userChargeVoltage < 0
    · rw [if_pos free,if_pos free,volts _ most] at max
      exact Or.inl max
    · by_cases held : truncate capacity = 0 ∨ d.chargeAtMax ≠ 0
      · rw [if_pos held,if_pos held,volts _ high] at target
        exact Or.inl target
      · obtain ⟨filled,top⟩ := not_or.mp held
        exact Or.inr ⟨not_lt.mp free,not_not.mp top,filled⟩
  · rintro ⟨rfl,rfl,rfl | ⟨given,top,filled⟩⟩
    · exact ⟨rfl,rfl,rfl,rfl⟩
    · simp [not_lt.mpr given,top,filled]

/-- The file already has the capacity, its discharge rate is that of the new
chemistry, and so is its number of cells where that matters. -/
def OptionAgrees (d : Defaulted) (chem cap : Int) : Prop :=
  (if d.userCapacity < 0 then 0 else d.userCapacity) = cap ∧
    (if d.eRate < 0 then (chemistry d.batteryChem).eRate else d.eRate) = (chemistry chem).eRate ∧
    (0 ≤ d.cells ∨ (chemistry d.batteryChem).cells = (chemistry chem).cells ∨
      (0 ≤ d.userChargeVoltage ∧ d.chargeAtMax = 0 ∧ cap ≠ 0))

instance (d : Defaulted) (chem cap : Int) : Decidable (OptionAgrees d chem cap) :=
  inferInstanceAs (Decidable (_ ∧ _ ∧ (_ ∨ _ ∨ _)))

private theorem initFigures_agree_iff (d : Defaulted) (chem cap : Int) (given : 0 ≤ cap) :
    initFigures (withBattery (resolved d) chem) =
        initFigures { withBattery d chem with eRate := -1, userCapacity := cap } ↔ OptionAgrees d chem cap := by
  have negative : (-1 : ℚ) < 0 := by norm_num
  have known : ¬ (cap : ℚ) < 0 := by simpa using given
  have filled : truncate (cap : ℚ) ≠ 0 ↔ cap ≠ 0 := by simp [truncate]
  obtain ⟨high,most,_,_⟩ := chemistry_positive chem
  obtain ⟨rate,count⟩ := resolved_settled d
  have cells : (resolved d).cells = (if d.cells < 0 then (chemistry chem).cells else d.cells) ↔
      0 ≤ d.cells ∨ (chemistry d.batteryChem).cells = (chemistry chem).cells := by
    change (if d.cells < 0 then _ else _) = _ ↔ _
    split
    · rename_i missing
      simp [not_le.mpr missing]
    · rename_i present
      simp [not_lt.mp present]
  have instead : initFigures { withBattery d chem with eRate := -1, userCapacity := cap } =
      batteryFigures (chemistry chem) cap (chemistry chem).eRate
        (if d.cells < 0 then (chemistry chem).cells else d.cells) d := by
    have same := initFigures_withBattery { d with eRate := -1, userCapacity := cap } chem
    rw [if_neg known,if_pos negative] at same
    exact same
  have option : initFigures (withBattery (resolved d) chem) =
      batteryFigures (chemistry chem) (if d.userCapacity < 0 then 0 else d.userCapacity) (resolved d).eRate
        (resolved d).cells d := by
    rw [initFigures_withBattery,if_neg (not_lt.mpr rate),if_neg (not_lt.mpr count)]
    rfl
  rw [option,instead,batteryFigures_iff _ high most,cells,filled,or_assoc]
  rfl

/-! From `init` on. -/

def startFigures (conf : Conf) : Figures := figures (chargeStart conf)

private theorem startFigures_settled (conf : Conf) : startFigures (settled conf) = startFigures conf := by
  rw [startFigures,startFigures,figures_chargeStart,figures_chargeStart]
  rfl

private theorem startFigures_mqtt (conf : Conf) (mqtt : Memory) :
    startFigures { conf with mqtt := mqtt } = startFigures conf := by
  rw [startFigures,startFigures,figures_chargeStart,figures_chargeStart]
  rfl

/-- Up to what setting up the devices changes, the program starts from the file's
options and then from `-b`. -/
theorem start_settled (args : Args) (env : Env) (s : Loop) (started : start args env = some s) :
    ∃ read conf, settled read = settled (reloaded env { filename := args.configfile, debug := args.debug }) ∧
      settled conf = settled (batteryOption args (getMqttConf read)) ∧ s.conf = chargeStart conf := by
  obtain ⟨conf,initial,rfl⟩ := Option.map_eq_some_iff.mp started
  obtain ⟨read,configured,options⟩ := Option.bind_eq_some_iff.mp initial
  obtain ⟨mid,inverter,packs⟩ := Option.bind_eq_some_iff.mp options
  have devices := (packOption_settled args env mid conf packs).trans (inverterOption_settled args env _ mid inverter)
  have done := (getConfig_reread env _ _ read).mp configured
  have settles := reread_settled env _ (reread_done env _ read done).1
  rw [done] at settles
  exact ⟨read,conf,settles,devices,rfl⟩

private theorem start_figures (args : Args) (env : Env) (s : Loop) (started : start args env = some s) :
    ∃ read, settled read = settled (reloaded env { filename := args.configfile, debug := args.debug }) ∧
      figures s.conf = startFigures (batteryOption args (getMqttConf read)) := by
  obtain ⟨read,conf,settles,devices,same⟩ := start_settled args env s started
  rw [same]
  exact ⟨read,settles,settled_congr startFigures startFigures_settled devices⟩

def readFile (args : Args) (env : Env) : Option CfgInfo :=
  newFile env { filename := args.configfile, debug := args.debug }

private theorem option_figures (args : Args) (env : Env) (s : Loop) (given : 0 ≤ args.batteryChem)
    (started : start args env = some s) :
    figures s.conf =
      initFigures (withBattery (resolved (fileOptions (readFile args env))) args.batteryChem) := by
  obtain ⟨read,settles,same⟩ := start_figures args env s started
  have options : defaulted (getMqttConf read) = resolved (fileOptions (readFile args env)) :=
    calc defaulted (getMqttConf read)
      _ = defaulted read := getMqttConf_keeps defaulted (fun _ _ => rfl) read
      _ = defaulted (reloaded env { filename := args.configfile, debug := args.debug }) :=
        settled_congr defaulted (fun _ => rfl) settles
      _ = resolved (fileOptions (readFile args env)) :=
        congrArg Options.defaulted (loaded_options (opened env (dropped _)))
  rw [same,batteryOption,if_pos given,startFigures,figures_again,batteryInit_figures,← options]
  rfl

private theorem file_figures (args : Args) (env : Env) (s : Loop) (absent : args.batteryChem < 0)
    (started : start args env = some s) : figures s.conf = initFigures (fileOptions (readFile args env)) := by
  obtain ⟨read,settles,same⟩ := start_figures args env s started
  have options (conf : Conf) : defaulted (getMqttConf (cfgGetTab conf.cfg configTab conf)) = fileOptions conf.cfg :=
    (getMqttConf_keeps defaulted (fun _ _ => rfl) _).trans (configTab_defaulted conf.cfg conf {})
  rw [same,batteryOption,if_neg (not_le.mpr absent),getMqttConf_keeps startFigures startFigures_mqtt,
    settled_congr startFigures startFigures_settled settles,startFigures,reloaded,loaded,figures_again,
    batteryInit_figures]
  exact congrArg initFigures (options (opened env (dropped _)))

/-- `-b` and the file agree on the battery exactly when the file already has the
capacity, and the rate and cells the first reading settled are the chemistry's. -/
theorem option_agrees_iff (args : Args) (env : Env) (name : Text) (file other : CfgInfo) (chem cap : Int)
    (named : args.configfile = some name) (reads : env.cfgRead = some file) (known : 0 ≤ chem) (given : 0 ≤ cap)
    (instead : Instead file other chem cap) (s t : Loop)
    (option : start { args with batteryChem := chem, batteryCap := cap } env = some s)
    (configured : start { args with batteryChem := -1, batteryCap := -1 } { env with cfgRead := some other } = some t) :
    figures s.conf = figures t.conf ↔ OptionAgrees (fileOptions (some file)) chem cap := by
  have first : readFile { args with batteryChem := chem, batteryCap := cap } env = some file := by
    rw [← reads]
    simp [readFile,newFile,opened,dropped,openFile,named]
  have second : readFile { args with batteryChem := -1, batteryCap := -1 } { env with cfgRead := some other } = some other := by
    simp [readFile,newFile,opened,dropped,openFile,named]
  rw [option_figures _ env s known option,file_figures _ _ t (show (-1 : Int) < 0 by decide) configured,first,second,
    fileOptions_instead file other chem cap instead]
  exact initFigures_agree_iff (fileOptions (some file)) chem cap given

/-! A file with an inverter and the battery options it is given. -/

def batteryFile (items : List (String × String)) : CfgInfo := ⟨[fileSection "MYBMM" items,inverterItems]⟩

private theorem batteryFile_others (items items' : List (String × String))
    (inside : ∀ item ∈ items ++ items', item.1.toList ∈ replaced.map toupper) (sectionName keyword : Text)
    (outside : toupper sectionName ≠ toupper mybmm ∨ toupper keyword ∉ replaced.map toupper) :
    cfgGetItem (some (batteryFile items')) sectionName keyword =
      cfgGetItem (some (batteryFile items)) sectionName keyword := by
  have absent (l : List (String × String)) (within : ∀ item ∈ l, item.1.toList ∈ replaced.map toupper)
      (away : toupper keyword ∉ replaced.map toupper) : getItem (fileSection "MYBMM" l) (toupper keyword) = none := by
    rw [getItem,List.find?_eq_none]
    rintro _ member
    obtain ⟨item,entry,rfl⟩ := List.mem_map.mp member
    intro same
    exact away (beq_iff_eq.mp same ▸ within item entry)
  have upper : toupper mybmm = "MYBMM".toList := by decide
  have name (l : List (String × String)) : (fileSection "MYBMM" l).name = "MYBMM".toList := rfl
  simp only [cfgGetItem,batteryFile,cfgGetSection,Option.bind_eq_bind,Option.bind_some,List.find?_cons,name]
  cases hit : ("MYBMM".toList == toupper sectionName) with
  | false => rfl
  | true =>
    have away : toupper keyword ∉ replaced.map toupper :=
      outside.resolve_left fun apart => apart (upper ▸ (beq_iff_eq.mp hit).symm)
    have first := absent items (fun item member => inside item (List.mem_append_left _ member)) away
    have second := absent items' (fun item member => inside item (List.mem_append_right _ member)) away
    simp only [Option.bind_some,first,second]

def batteryArgs (chem cap : Int) : Args :=
  { configfile := some "mybmm.conf".toList, batteryChem := chem, batteryCap := cap }

def batteryStart (chem cap : Int) (file : CfgInfo) : Option Loop :=
  start (batteryArgs chem cap) (bench (some file))

def given100 : CfgInfo := batteryFile [("CAPACITY","100")]

private theorem given100_instead :
    Instead given100 (batteryFile [("BATTERY_CHEM","2"),("CAPACITY","100")]) 2 100 where
  chemistry := by decide +kernel
  capacity := by decide +kernel
  limits := by decide +kernel
  others := batteryFile_others _ _ (by decide +kernel)

/-- `-b 2,100` over a file that has the 100 Ah. -/
theorem option_kept :
    (batteryStart 2 100 given100).map (fun s => figures s.conf) =
      (batteryStart (-1) (-1) (batteryFile [("BATTERY_CHEM","2"),("CAPACITY","100")])).map
        (fun s => figures s.conf) := by
  have starts : (batteryStart 2 100 given100).isSome = true := by decide +kernel
  have starts' : (batteryStart (-1) (-1) (batteryFile [("BATTERY_CHEM","2"),("CAPACITY","100")])).isSome = true := by
    decide +kernel
  obtain ⟨s,option⟩ := Option.isSome_iff_exists.mp starts
  obtain ⟨t,configured⟩ := Option.isSome_iff_exists.mp starts'
  rw [option,configured]
  have same := (option_agrees_iff (batteryArgs 2 100) (bench (some given100)) _ given100 _ 2 100 rfl rfl
    (by decide) (by decide) given100_instead s t option configured).mpr (by decide +kernel)
  exact congrArg some same

/-- `-b 1,100` over an empty section leaves no capacity at all. -/
theorem option_capacity_lost :
    Instead (batteryFile []) (batteryFile [("BATTERY_CHEM","1"),("CAPACITY","100")]) 1 100 ∧
      (batteryStart 1 100 (batteryFile [])).map (fun s => s.conf.capacity) = some 0 ∧
      (batteryStart (-1) (-1) (batteryFile [("BATTERY_CHEM","1"),("CAPACITY","100")])).map
        (fun s => s.conf.capacity) = some 100 :=
  ⟨⟨by decide +kernel,by decide +kernel,by decide +kernel,batteryFile_others _ _ (by decide +kernel)⟩,
    by decide +kernel,by decide +kernel⟩

end Mybmm.CommandLine
