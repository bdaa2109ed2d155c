import Mybmm.Reconfig

/-! A reconfiguration against a start from the same file. What a file does not
mention and no default covers is left over from before: the debug level, the
MQTT texts, the inverter and the capability bits. And a password that fills its
array leaves another file to be read. -/
namespace Mybmm.FreshStart
open CString Libc Cfg Config Flags Battery Modules Inverters Packs Reconfig Attempt

/-- The options that have a default, as they stand after `battery_init`. -/
structure Defaulted where
  interval : Int
  maxChargeAmps : ℚ
  maxDischargeAmps : ℚ
  systemVoltage : Int
  batteryChem : Int
  cells : Int
  cellLow : ℚ
  cellCritLow : ℚ
  cellHigh : ℚ
  cellCritHigh : ℚ
  cRate : ℚ
  eRate : ℚ
  userCapacity : ℚ
  userChargeVoltage : ℚ
  userChargeAmps : ℚ
  userDischargeVoltage : ℚ
  userDischargeAmps : ℚ
  userChargeMaxVoltage : ℚ
  chargeAtMax : Int
  userSoc : ℚ
  usePackv : Int

def defaulted (conf : Conf) : Defaulted where
  interval := conf.interval
  maxChargeAmps := conf.maxChargeAmps
  maxDischargeAmps := conf.maxDischargeAmps
  systemVoltage := conf.systemVoltage
  batteryChem := conf.batteryChem
  cells := conf.cells
  cellLow := conf.cellLow
  cellCritLow := conf.cellCritLow
  cellHigh := conf.cellHigh
  cellCritHigh := conf.cellCritHigh
  cRate := conf.cRate
  eRate := conf.eRate
  userCapacity := conf.userCapacity
  userChargeVoltage := conf.userChargeVoltage
  userChargeAmps := conf.userChargeAmps
  userDischargeVoltage := conf.userDischargeVoltage
  userDischargeAmps := conf.userDischargeAmps
  userChargeMaxVoltage := conf.userChargeMaxVoltage
  chargeAtMax := conf.chargeAtMax
  userSoc := conf.userSoc
  usePackv := conf.usePackv

structure Options where
  debug : Int
  mqtt : List Text
  defaulted : Defaulted

def mqttTexts (conf : Conf) : List Text :=
  [conf.mqttBroker,conf.mqttTopic,conf.mqttUsername,conf.mqttPassword]

def options (conf : Conf) : Options := ⟨conf.debug,mqttTexts conf,defaulted conf⟩

theorem configTab_defaulted (cfg : Option CfgInfo) (a b : Conf) :
    defaulted (cfgGetTab cfg configTab a) = defaulted (cfgGetTab cfg configTab b) := by
  rw [configTab,cfgGetTab_cons,cfgGetTab_cons,cfgGetTab_defaults cfg _ _ defaultTab_covered,
    cfgGetTab_defaults cfg _ _ defaultTab_covered]
  generalize cfgGetEntry cfg _ a = a
  generalize cfgGetEntry cfg _ b = b
  rfl

def resolved (d : Defaulted) : Defaulted :=
  let chem := chemistry d.batteryChem
  { d with
    cellLow := if d.cellLow < 0 then chem.cellLow else d.cellLow
    cellCritLow := if d.cellCritLow < 0 then chem.cellCritLow else d.cellCritLow
    cellHigh := if d.cellHigh < 0 then chem.cellHigh else d.cellHigh
    cellCritHigh := if d.cellCritHigh < 0 then chem.cellCritHigh else d.cellCritHigh
    cRate := if d.cRate < 0 then chem.cRate else d.cRate
    eRate := if d.eRate < 0 then chem.eRate else d.eRate
    cells := if d.cells < 0 then chem.cells else d.cells }

theorem loaded_options (conf : Conf) :
    options (loaded conf) =
      ⟨debugOption conf.cfg conf.debug,texts (fill conf.mqtt 0 (mqttBuffers conf.cfg)) 0 (mqttBuffers conf.cfg),
        resolved (defaulted (cfgGetTab conf.cfg configTab {}))⟩ := by
  obtain ⟨apart,debug,mqtt⟩ := configTab_apart conf.cfg conf
  have cfg : (cfgGetTab conf.cfg configTab conf).cfg = conf.cfg := congrArg Links.cfg apart
  have point := still_congr options (fun _ => rfl) (still_batteryInit
    { getMqttConf (cfgGetTab conf.cfg configTab conf) with batteryTemp := 25 })
  rw [loaded,point,getMqttConf_fill,cfg,← debug,configTab_defaulted conf.cfg {} conf,← mqtt]
  rfl

/-! What a file sets up. -/

def fileMasks (env : Env) (file : Option CfgInfo) : List (BitVec 16) :=
  (sections file packNames).filterMap fun name =>
    (env.symbol (sectionType file name)).map Module.capabilities

theorem writeBack_links (conf : Conf) :
    (writeBack conf).inverter = conf.inverter ∧ (writeBack conf).packs = conf.packs ∧
      (writeBack conf).capabilities = conf.capabilities := by
  unfold writeBack
  split <;> exact ⟨rfl,rfl,rfl⟩

def blank (conf : Conf) (debug : Int) : Conf := { filename := conf.filename, debug := debug }

structure Fresh (after fresh : Conf) : Prop where
  options : options after = options fresh
  inverter : after.inverter.isSome = fresh.inverter.isSome
  packs : after.packs = fresh.packs
  charge : check after.capabilities Capability.chargeControl = check fresh.capabilities Capability.chargeControl
  discharge :
    check after.capabilities Capability.dischargeControl = check fresh.capabilities Capability.dischargeControl

/-- The password's terminator has fallen on the first byte of the pointer behind it, which is
the file name's. -/
def Overwritten (conf : Conf) : Prop := conf.filename.isSome ∧ ∀ i < 32, conf.mqtt (224 + i) ≠ nul

instance (conf : Conf) : Decidable (Overwritten conf) :=
  inferInstanceAs (Decidable (conf.filename.isSome ∧ ∀ i < 32, conf.mqtt (224 + i) ≠ nul))

/-- What the file of that name may hold: what was read, as long as it is that name that was
opened. -/
def Holds (env : Env) (conf : Conf) (file : Option CfgInfo) : Prop := Overwritten conf ∨ file = env.cfgRead

/-- Nothing is left over that the file does not replace. -/
structure Clean (env : Env) (conf : Conf) (debug : Int) : Prop where
  named : ¬ Overwritten conf
  debug : (cfgGetItem (newFile env conf) "mybmm".toList "debug".toList).isSome = true ∨ conf.debug = debug
  mqtt : Blank conf.mqtt 0 (mqttBuffers (newFile env conf))
  inverter : conf.inverter.isSome = true → (cfgGetItem (newFile env conf) inverterSection "type".toList).isSome = true
  charge : check conf.capabilities Capability.chargeControl = true →
    check (granted (fileMasks env (newFile env conf)) 0) Capability.chargeControl = true
  discharge : check conf.capabilities Capability.dischargeControl = true →
    check (granted (fileMasks env (newFile env conf)) 0) Capability.dischargeControl = true

end Mybmm.FreshStart
