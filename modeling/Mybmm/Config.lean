import Mybmm.Support.Flags
import Mybmm.Cfg

/-! The records of config.h, pack.h, inverter.h and module.h. Each field starts
out as `calloc` leaves it. Arrays that carry their own count are lists; fields
that only drivers or log lines use are left out. -/
namespace Mybmm.Config
open CString Libc Cfg Flags

inductive State where
  | shutdown | genActive | charging | critCellvolt | forceSoc | configDirty
  | gridEnable | genEnable | gridActive
deriving DecidableEq, Repr

instance : FlagSet State 16 where
  mask
    | .shutdown => 0x0001
    | .genActive => 0x0002
    | .charging => 0x0004
    | .critCellvolt => 0x0008
    | .forceSoc => 0x0010
    | .configDirty => 0x0020
    | .gridEnable => 0x0040
    | .genEnable => 0x0080
    | .gridActive => 0x0100
  mask_ne_zero := by intro a; cases a <;> decide
  mask_disjoint := by
    intro a b ne
    cases a <;> cases b <;> first | rfl | exact absurd rfl ne

inductive PackState where
  | updated | charging | discharging | balancing
deriving DecidableEq, Repr

instance : FlagSet PackState 16 where
  mask
    | .updated => 0x01
    | .charging => 0x02
    | .discharging => 0x04
    | .balancing => 0x08
  mask_ne_zero := by intro a; cases a <;> decide
  mask_disjoint := by
    intro a b ne
    cases a <;> cases b <;> first | rfl | exact absurd rfl ne

inductive InverterState where
  | updated | running | grid | gen | charging
deriving DecidableEq, Repr

instance : FlagSet InverterState 16 where
  mask
    | .updated => 0x01
    | .running => 0x02
    | .grid => 0x04
    | .gen => 0x08
    | .charging => 0x10
  mask_ne_zero := by intro a; cases a <;> decide
  mask_disjoint := by
    intro a b ne
    cases a <;> cases b <;> first | rfl | exact absurd rfl ne

inductive Capability where
  | chargeControl | dischargeControl | balanceControl
deriving DecidableEq, Repr

instance : FlagSet Capability 16 where
  mask
    | .chargeControl => 0x01
    | .dischargeControl => 0x02
    | .balanceControl => 0x04
  mask_ne_zero := by intro a; cases a <;> decide
  mask_disjoint := by
    intro a b ne
    cases a <;> cases b <;> first | rfl | exact absurd rfl ne

inductive ModType where
  | inverter | cellmon | transport | db
deriving DecidableEq, Repr

structure Module where
  type : ModType
  name : Text
  capabilities : BitVec 16
deriving DecidableEq, Repr

/-! `name`, `uuid`, `type`, `transport`, `target` and `opts` (or `params`) lie in
this order in both records, one after the other; a padding byte follows. -/

def textSize : Nat := 230

structure Inverter where
  text : Memory := fun _ => nul
  batteryVoltage : ℚ := 0
  batteryAmps : ℚ := 0
  batteryTemp : ℚ := 0
  handle : Nat := 0
  state : BitVec 16 := 0
  capabilities : BitVec 16 := 0

def Inverter.uuid (inv : Inverter) : Text := cstr inv.text 32 (textSize - 32)
def Inverter.type (inv : Inverter) : Text := cstr inv.text 69 (textSize - 69)
def Inverter.transport (inv : Inverter) : Text := cstr inv.text 101 (textSize - 101)
def Inverter.name (inv : Inverter) : Text := cstr inv.text 0 textSize

structure Pack where
  text : Memory := fun _ => nul
  state : BitVec 16 := 0
  capacity : ℚ := 0
  voltage : ℚ := 0
  current : ℚ := 0
  temps : List ℚ := []
  cellvolt : List ℚ := []
  cellMin : ℚ := 0
  cellMax : ℚ := 0
  cellDiff : ℚ := 0
  cellAvg : ℚ := 0
  capabilities : BitVec 16 := 0
  handle : Nat := 0
  mqttHandle : Option Nat := none

def Pack.name (pp : Pack) : Text := cstr pp.text 0 textSize
def Pack.uuid (pp : Pack) : Text := cstr pp.text 32 (textSize - 32)
def Pack.type (pp : Pack) : Text := cstr pp.text 69 (textSize - 69)
def Pack.transport (pp : Pack) : Text := cstr pp.text 101 (textSize - 101)

/-- `mybmm_config_t`, with the global `debug`, which is an option like others.
`mqtt` is the memory of the arrays from `mqtt_broker` to `mqtt_password` and of
the byte after them. -/
structure Conf where
  debug : Int := 0
  mqtt : Memory := fun _ => nul
  filename : Option Text := none
  modules : List Module := []
  inverter : Option Inverter := none
  inverterTid : Nat := 0
  packs : List Pack := []
  packTid : Nat := 0
  packPool : Option Nat := none
  interval : Int := 0
  systemVoltage : Int := 0
  batteryChem : Int := 0
  batteryVoltage : ℚ := 0
  batteryAmps : ℚ := 0
  batteryTemp : ℚ := 0
  frequency : ℚ := 0
  cells : Int := 0
  cellLow : ℚ := 0
  cellMin : ℚ := 0
  cellCritLow : ℚ := 0
  cellHigh : ℚ := 0
  cellMax : ℚ := 0
  cellCritHigh : ℚ := 0
  capacity : ℚ := 0
  cRate : ℚ := 0
  eRate : ℚ := 0
  kwh : ℚ := 0
  soc : ℚ := 0
  soh : ℚ := 0
  maxChargeAmps : ℚ := 0
  maxDischargeAmps : ℚ := 0
  dischargeVoltage : ℚ := 0
  dischargeAmps : ℚ := 0
  chargeVoltage : ℚ := 0
  chargeAmps : ℚ := 0
  userCapacity : ℚ := 0
  userChargeVoltage : ℚ := 0
  userChargeAmps : ℚ := 0
  userDischargeVoltage : ℚ := 0
  userDischargeAmps : ℚ := 0
  userSoc : ℚ := 0
  cfg : Option CfgInfo := none
  state : BitVec 16 := 0
  capabilities : BitVec 16 := 0
  usePackv : Int := 0
  chargeMode : Int := 0
  chargeMaxVoltage : ℚ := 0
  chargeTargetVoltage : ℚ := 0
  userChargeMaxVoltage : ℚ := 0
  chargeAtMax : Int := 0
  packTempMax : ℚ := 0
  startTemp : ℚ := 0
  packCellMax : ℚ := 0
  packCellMin : ℚ := 0
  cvStartTime : Int := 0
  tvolt : ℚ := 0

def mqttSize : Nat := 257

def Conf.mqttBroker (conf : Conf) : Text := cstr conf.mqtt 0 mqttSize
def Conf.mqttTopic (conf : Conf) : Text := cstr conf.mqtt 64 (mqttSize - 64)
def Conf.mqttUsername (conf : Conf) : Text := cstr conf.mqtt 192 (mqttSize - 192)
def Conf.mqttPassword (conf : Conf) : Text := cstr conf.mqtt 224 (mqttSize - 224)

/-! The state macros of mybmm.h, on the configuration. -/

def setState (conf : Conf) (v : State) : Conf := { conf with state := set conf.state v }

def clearState (conf : Conf) (v : State) : Conf := { conf with state := clear conf.state v }

def checkState (conf : Conf) (v : State) : Bool := check conf.state v

def isCharging (conf : Conf) : Bool := checkState conf .charging

def isCritvolt (conf : Conf) : Bool := checkState conf .critCellvolt

def forceSoc (conf : Conf) (v : ℚ) : Conf := setState { conf with soc := v } .forceSoc

end Mybmm.Config
