import Mybmm.Charge
import Mybmm.Packs

/-! config.c: reading the configuration at the start and again at run time, and
what a reading that fails leaves in force. -/
namespace Mybmm.Reconfig
open CString Libc Cfg Config Flags Battery Modules Inverters Packs Attempt

def mqttTab : List (Proctab Conf) :=
  let string (keyword : Text) (offset dlen : Nat) : Proctab Conf :=
    ⟨"mqtt".toList,keyword,.string (fun f conf => { conf with mqtt := f conf.mqtt }) offset dlen,none⟩
  [string "broker".toList 0 64,string "topic".toList 64 128,
    string "username".toList 192 32,string "password".toList 224 32]

def getMqttConf (conf : Conf) : Conf := cfgGetTab conf.cfg mqttTab conf

def defaultTab : List (Proctab Conf) :=
  let option (keyword : Text) (dest : Dest Conf) (default : Text) : Proctab Conf :=
    ⟨"mybmm".toList,keyword,dest,some default⟩
  [option "interval".toList (.int fun v conf => { conf with interval := v }) "30".toList,
    option "max_charge_amps".toList (.float fun v conf => { conf with maxChargeAmps := v }) "-1".toList,
    option "max_discharge_amps".toList (.float fun v conf => { conf with maxDischargeAmps := v }) "-1".toList,
    option "system_voltage".toList (.int fun v conf => { conf with systemVoltage := v }) "48".toList,
    option "battery_chem".toList (.int fun v conf => { conf with batteryChem := v }) "1".toList,
    option "cells".toList (.int fun v conf => { conf with cells := v }) "14".toList,
    option "cell_low".toList (.float fun v conf => { conf with cellLow := v }) "-1".toList,
    option "cell_crit_low".toList (.float fun v conf => { conf with cellCritLow := v }) "-1".toList,
    option "cell_high".toList (.float fun v conf => { conf with cellHigh := v }) "-1".toList,
    option "cell_crit_high".toList (.float fun v conf => { conf with cellCritHigh := v }) "-1".toList,
    option "c_rate".toList (.float fun v conf => { conf with cRate := v }) "-1".toList,
    option "e_rate".toList (.float fun v conf => { conf with eRate := v }) "-1".toList,
    -- Forced values
    option "capacity".toList (.float fun v conf => { conf with userCapacity := v }) "-1".toList,
    option "charge_voltage".toList (.float fun v conf => { conf with userChargeVoltage := v }) "-1".toList,
    option "charge_amps".toList (.float fun v conf => { conf with userChargeAmps := v }) "-1".toList,
    option "discharge_voltage".toList (.float fun v conf => { conf with userDischargeVoltage := v }) "-1".toList,
    option "discharge_amps".toList (.float fun v conf => { conf with userDischargeAmps := v }) "-1".toList,
    option "charge_max_voltage".toList (.float fun v conf => { conf with userChargeMaxVoltage := v }) "-1".toList,
    option "charge_at_max".toList (.logical fun v conf => { conf with chargeAtMax := v }) "N".toList,
    option "soc".toList (.float fun v conf => { conf with userSoc := v }) "-1.0".toList,
    option "use_pack_voltage".toList (.logical fun v conf => { conf with usePackv := v }) "0".toList]

/-- The table of `read_config`. Only the debug level has no default. -/
def configTab : List (Proctab Conf) :=
  ⟨"mybmm".toList,"debug".toList,.int fun v conf => { conf with debug := v },none⟩ :: defaultTab

/-- The part of `read_config` between opening the file and setting up the
inverter and the packs. -/
def loaded (conf : Conf) : Conf :=
  batteryInit { getMqttConf (cfgGetTab conf.cfg configTab conf) with batteryTemp := 25 }

def Unreadable (env : Env) (conf : Conf) : Prop := conf.filename.isSome ∧ env.cfgRead = none

instance (env : Env) (conf : Conf) : Decidable (Unreadable env conf) :=
  inferInstanceAs (Decidable (conf.filename.isSome ∧ env.cfgRead = none))

def writeBack (conf : Conf) : Conf :=
  if checkState conf .configDirty then clearState conf .configDirty else conf

def setUp (env : Env) : Attempt Conf Unit := do
  Attempt.modify loaded
  inverterInit env
  packInit env
  Attempt.modify writeBack

def openFile (env : Env) (conf : Conf) : Conf := { conf with cfg := env.cfgRead }

def opened (env : Env) (conf : Conf) : Conf :=
  match conf.filename with
  | none => conf
  | some _ => openFile env conf

def readConfig (env : Env) : Attempt Conf Unit := do
  let filename ← Attempt.gets Conf.filename
  match filename with
  | none => setUp env
  | some _ =>
    Attempt.modify (openFile env)
    match env.cfgRead with
    | none => Attempt.giveUp
    | some _ => setUp env

def dropped (conf : Conf) : Conf := { conf with modules := [], packs := [], cfg := none }

/-- What `reconfig` does besides cancelling the two threads. -/
def reread (env : Env) (conf : Conf) : Option Unit × Conf := readConfig env (dropped conf)

/-- `get_config`, with the debug level the command line gave. -/
def getConfig (env : Env) (filename : Option Text) (debug : Int) : Option Conf :=
  match readConfig env { filename := filename, debug := debug } with
  | (some (),conf) => some conf
  | (none,_) => none

/-! What loading the options leaves alone. -/

structure Links where
  filename : Option Text
  modules : List Module
  inverter : Option Inverter
  packs : List Pack
  packPool : Option Nat
  cfg : Option CfgInfo
  state : BitVec 16
  capabilities : BitVec 16

def links (conf : Conf) : Links where
  filename := conf.filename
  modules := conf.modules
  inverter := conf.inverter
  packs := conf.packs
  packPool := conf.packPool
  cfg := conf.cfg
  state := clear conf.state State.charging
  capabilities := conf.capabilities

theorem getMqttConf_keeps {β : Type} (f : Conf → β) (ignores : ∀ conf mqtt, f { conf with mqtt := mqtt } = f conf)
    (conf : Conf) : f (getMqttConf conf) = f conf := by
  refine cfgGetTab_keeps f conf.cfg mqttTab conf fun entry member src s => ?_
  simp only [mqttTab,List.mem_cons,List.not_mem_nil,or_false] at member
  rcases member with rfl | rfl | rfl | rfl
  all_goals exact ignores s _

theorem getMqttConf_links (conf : Conf) : links (getMqttConf conf) = links conf :=
  getMqttConf_keeps links (fun _ _ => rfl) conf

theorem defaultTab_covered : ∀ entry ∈ defaultTab, entry.default.isSome := by
  simp [defaultTab]

private theorem defaultTab_apart (cfg : Option CfgInfo) (conf : Conf) :
    (links (cfgGetTab cfg defaultTab conf),(cfgGetTab cfg defaultTab conf).debug,
      (cfgGetTab cfg defaultTab conf).mqtt) = (links conf,conf.debug,conf.mqtt) := by
  refine cfgGetTab_keeps (fun conf => (links conf,conf.debug,conf.mqtt)) cfg defaultTab conf
    fun entry member src s => ?_
  simp only [defaultTab,List.mem_cons,List.not_mem_nil,or_false] at member
  rcases member with rfl | rfl | rfl | rfl | rfl | rfl | rfl | rfl | rfl | rfl | rfl | rfl | rfl |
    rfl | rfl | rfl | rfl | rfl | rfl | rfl | rfl <;> rfl

def debugOption (cfg : Option CfgInfo) (debug : Int) : Int :=
  match cfgGetItem cfg "mybmm".toList "debug".toList with
  | some p => atoi p
  | none => debug

theorem configTab_apart (cfg : Option CfgInfo) (conf : Conf) :
    links (cfgGetTab cfg configTab conf) = links conf ∧
      (cfgGetTab cfg configTab conf).debug = debugOption cfg conf.debug ∧
      (cfgGetTab cfg configTab conf).mqtt = conf.mqtt := by
  rw [configTab,cfgGetTab_cons]
  have apart := defaultTab_apart cfg
    (cfgGetEntry cfg ⟨"mybmm".toList,"debug".toList,.int fun v conf => { conf with debug := v },none⟩ conf)
  simp only [Prod.mk.injEq] at apart
  rw [apart.1,apart.2.1,apart.2.2]
  unfold cfgGetEntry debugOption
  cases cfgGetItem cfg "mybmm".toList "debug".toList <;> exact ⟨rfl,rfl,rfl⟩

private theorem links_still (conf : Conf) : links (still conf) = links conf := by
  simp only [links,still,clearState,clear_clear]

theorem batteryInit_links (conf : Conf) : links (batteryInit conf) = links conf := by
  rw [← links_still (batteryInit conf),still_batteryInit,links_still]
  rfl

theorem loaded_links (conf : Conf) : links (loaded conf) = links conf := by
  rw [loaded,batteryInit_links]
  exact (getMqttConf_links _).trans (configTab_apart conf.cfg conf).1

def mqttBuffers (cfg : Option CfgInfo) : Buffers :=
  [(64,cfgGetItem cfg "mqtt".toList "broker".toList),(128,cfgGetItem cfg "mqtt".toList "topic".toList),
    (32,cfgGetItem cfg "mqtt".toList "username".toList),(32,cfgGetItem cfg "mqtt".toList "password".toList)]

theorem getMqttConf_fill (conf : Conf) :
    getMqttConf conf = { conf with mqtt := fill conf.mqtt 0 (mqttBuffers conf.cfg) } := by
  simp only [getMqttConf,mqttTab,cfgGetTab_cons,cfgGetTab_nil,cfgGetEntry,mqttBuffers]
  cases cfgGetItem conf.cfg "mqtt".toList "broker".toList <;>
    cases cfgGetItem conf.cfg "mqtt".toList "topic".toList <;>
      cases cfgGetItem conf.cfg "mqtt".toList "username".toList <;>
        cases cfgGetItem conf.cfg "mqtt".toList "password".toList <;> rfl

theorem batteryInit_mqtt (conf : Conf) : (batteryInit conf).mqtt = conf.mqtt := by
  have same := still_congr Conf.mqtt (fun _ => rfl) (still_batteryInit conf)
  exact same

/-- The options without a default: what the file does not have of them stays. -/
theorem loaded_mqtt (conf : Conf) : (loaded conf).mqtt = fill conf.mqtt 0 (mqttBuffers conf.cfg) := by
  obtain ⟨apart,_,mqtt⟩ := configTab_apart conf.cfg conf
  have cfg : (cfgGetTab conf.cfg configTab conf).cfg = conf.cfg := congrArg Links.cfg apart
  rw [loaded,batteryInit_mqtt,getMqttConf_fill,cfg,← mqtt]

private theorem loaded_debug (conf : Conf) : (loaded conf).debug = debugOption conf.cfg conf.debug := by
  obtain ⟨_,debug,_⟩ := configTab_apart conf.cfg conf
  have same := still_congr Conf.debug (fun _ => rfl) (still_batteryInit
    { getMqttConf (cfgGetTab conf.cfg configTab conf) with batteryTemp := 25 })
  rw [loaded,same,← debug]
  exact getMqttConf_keeps Conf.debug (fun _ _ => rfl) _

/-! Failing. -/

theorem readConfig_readable (env : Env) (conf : Conf) (readable : ¬ Unreadable env conf) :
    readConfig env conf = setUp env (opened env conf) := by
  cases named : conf.filename with
  | none => simp only [readConfig,opened,gets,bind,named]
  | some f =>
    cases file : env.cfgRead with
    | none => exact absurd ⟨by simp [named],file⟩ readable
    | some info => simp only [readConfig,opened,gets,Attempt.modify,bind,named,file]

theorem readConfig_unreadable (env : Env) (conf : Conf) (unreadable : Unreadable env conf) :
    readConfig env conf = (none,openFile env conf) := by
  obtain ⟨named,file⟩ := unreadable
  obtain ⟨f,named⟩ := Option.isSome_iff_exists.mp named
  simp only [readConfig,gets,Attempt.modify,giveUp,bind,named,file]

/-- What setting up the inverter and the packs leaves alone: every option, every
limit and the charge. -/
def settled (conf : Conf) : Conf :=
  { clearState conf .configDirty with
    modules := [], inverter := none, packs := [], packPool := none, cfg := none, capabilities := 0 }

theorem settled_congr {β : Type*} (f : Conf → β) (ignores : ∀ conf, f (settled conf) = f conf)
    {before after : Conf} (same : settled after = settled before) : f after = f before := by
  rw [← ignores after,same,ignores]

theorem settled_keepUuid (name uuid : Text) (conf : Conf) : settled (keepUuid name uuid conf) = settled conf := by
  simp only [settled,keepUuid,clearState,setState,clear_set]

theorem inverterInit_settled (env : Env) (c : Conf) : Keeps (fun conf => settled conf = c) (inverterInit env) :=
  inverterInit_keeps env (loads_ignores env fun _ _ same => same)
    (fun conf uuid same => (settled_keepUuid _ uuid conf).trans same) fun _ _ same => same

theorem packInit_settled (env : Env) (c : Conf) : Keeps (fun conf => settled conf = c) (packInit env) :=
  packInit_keeps env (loads_ignores env fun _ _ same => same)
    (fun name _ conf uuid same => (settled_keepUuid name uuid conf).trans same) (fun _ _ same => same)
    (fun _ _ same => same) fun _ _ same => same

theorem settled_writeBack (conf : Conf) : settled (writeBack conf) = settled conf := by
  unfold writeBack
  split
  · simp only [settled,clearState,clear_clear]
  · rfl

theorem setUp_done (env : Env) (conf after : Conf) (succeeded : setUp env conf = (some (),after)) :
    ∃ mid last, inverterInit env (loaded conf) = (some (),mid) ∧ packInit env mid = (some (),last) ∧
      after = writeBack last := by
  obtain ⟨_,first,options,succeeded⟩ := bind_done_iff.mp succeeded
  obtain rfl : loaded conf = first := congrArg Prod.snd options
  obtain ⟨_,mid,inverter,succeeded⟩ := bind_done_iff.mp succeeded
  obtain ⟨_,last,packs,written⟩ := bind_done_iff.mp succeeded
  exact ⟨mid,last,inverter,packs,(congrArg Prod.snd written).symm⟩

def newFile (env : Env) (conf : Conf) : Option CfgInfo := (opened env (dropped conf)).cfg

def reloaded (env : Env) (conf : Conf) : Conf := loaded (opened env (dropped conf))

theorem reloaded_links (env : Env) (conf : Conf) :
    links (reloaded env conf) = { links (dropped conf) with cfg := newFile env conf } := by
  rw [reloaded,loaded_links,newFile]
  unfold opened
  split <;> rfl

theorem reread_readable (env : Env) (conf : Conf) (readable : ¬ Unreadable env conf) :
    reread env conf = setUp env (opened env (dropped conf)) :=
  readConfig_readable env (dropped conf) readable

theorem reloaded_kept (env : Env) (conf : Conf) :
    (reloaded env conf).debug = debugOption (newFile env conf) conf.debug ∧
      (reloaded env conf).mqtt = fill conf.mqtt 0 (mqttBuffers (newFile env conf)) := by
  rw [reloaded,loaded_debug,loaded_mqtt,newFile]
  unfold opened
  split <;> exact ⟨rfl,rfl⟩

/-- Once the file has been read its options are in force, whatever fails then. -/
theorem reread_settled (env : Env) (conf : Conf) (readable : ¬ Unreadable env conf) :
    settled (reread env conf).2 = settled (reloaded env conf) := by
  have keeps : Triple (fun c => c = opened env (dropped conf)) (setUp env)
      (fun _ c => settled c = settled (reloaded env conf)) (fun c => settled c = settled (reloaded env conf)) := by
    refine triple_bind (Q := fun _ c => settled c = settled (reloaded env conf))
      (triple_modify _ fun c same => by rw [same,reloaded]) fun _ => ?_
    exact keeps_bind (inverterInit_settled env _) fun _ => keeps_bind (packInit_settled env _) fun _ =>
      keeps_modify _ fun c same => (settled_writeBack c).trans same
  rw [reread_readable env conf readable]
  exact keeps.ends rfl

theorem reread_done (env : Env) (conf after : Conf) (succeeded : reread env conf = (some (),after)) :
    ¬ Unreadable env conf ∧ setUp env (opened env (dropped conf)) = (some (),after) := by
  have readable : ¬ Unreadable env conf := by
    intro unreadable
    have result := readConfig_unreadable env (dropped conf) unreadable
    rw [← reread,succeeded] at result
    exact absurd (congrArg Prod.fst result) (Option.some_ne_none _)
  exact ⟨readable,reread_readable env conf readable ▸ succeeded⟩

theorem getConfig_reread (env : Env) (filename : Option Text) (debug : Int) (conf : Conf) :
    getConfig env filename debug = some conf ↔
      reread env { filename := filename, debug := debug } = (some (),conf) := by
  have same : reread env { filename := filename, debug := debug } =
      readConfig env { filename := filename, debug := debug } := rfl
  rw [same,getConfig]
  rcases readConfig env { filename := filename, debug := debug } with ⟨ending,after⟩
  cases ending with
  | none => simp
  | some _ => simp

theorem inverterSection_apart : ∀ other ∈ packNames, toupper other ≠ toupper inverterSection := by
  decide +kernel

def Ready (env : Env) (file : Option CfgInfo) (capabilities : BitVec 16) (conf : Conf) : Prop :=
  Registered env conf ∧ conf.packs = [] ∧ Untouched file packNames conf ∧ conf.capabilities = capabilities

theorem reloaded_ready (env : Env) (conf : Conf) :
    Ready env (newFile env conf) conf.capabilities (reloaded env conf) := by
  have fresh := reloaded_links env conf
  have modules : (reloaded env conf).modules = [] := congrArg Links.modules fresh
  have cfg : (reloaded env conf).cfg = newFile env conf := congrArg Links.cfg fresh
  refine ⟨fun mp member => ?_,congrArg Links.packs fresh,fun name _ keyword => by rw [cfg],
    congrArg Links.capabilities fresh⟩
  rw [modules] at member
  contradiction

theorem inverterInit_ready (env : Env) (file : Option CfgInfo) (capabilities : BitVec 16) :
    Keeps (Ready env file capabilities) (inverterInit env) := by
  refine inverterInit_keeps env (loads_registered env fun _ _ inv => inv) (fun conf uuid ready => ?_)
    fun _ _ inv => inv
  obtain ⟨registered,empty,untouched,same⟩ := ready
  exact ⟨registered,empty,untouched_ignoresUuid file packNames inverterSection (by decide)
    inverterSection_apart conf uuid untouched,same⟩

structure InForce (before after : Conf) : Prop where
  packs : after.packs = before.packs
  modules : after.modules = before.modules
  inverter : after.inverter = before.inverter
  cfg : after.cfg = before.cfg
  settled : settled after = settled before
  capabilities : after.capabilities = before.capabilities

/-- A program with an inverter, two battery monitors and two transports, in which
everything but the file succeeds. -/
def bench (file : Option CfgInfo) : Env where
  cfgRead := file
  symbol name := List.find? (fun mp => mp.name == name)
    [⟨.inverter,"si".toList,7⟩,⟨.cellmon,"jbd".toList,7⟩,⟨.cellmon,"preh".toList,0⟩,
      ⟨.transport,"can".toList,0⟩,⟨.transport,"ip".toList,0⟩]
  symbol_name name mp found := by simpa using List.find?_some found
  init _ := 0
  inverter _ _ _ := some 1
  pack _ _ _ := some (1,[])
  uuid _ := "6d1f1f3a-6f0e-4a0c-9d55-0f5a3f1e2b7c".toList
  uuid_length _ := by decide +kernel
  calloc _ := true
  pool count := some count
  mqtt _ _ _ _ _ := some 1

def fileSection (name : String) (items : List (String × String)) : CfgSection :=
  ⟨name.toList,items.map fun item => ⟨item.1.toList,none,item.2.toList⟩⟩

def inverterItems : CfgSection :=
  fileSection "INVERTER" [("TYPE","si"),("TRANSPORT","can"),("TARGET","can0")]

def packItems (name type : String) : CfgSection :=
  fileSection name [("TYPE",type),("TRANSPORT","ip"),("TARGET","10.0.0.7")]

def runningFile : CfgInfo := ⟨[inverterItems,packItems "PACK_01" "jbd"]⟩

def running : Conf := (getConfig (bench (some runningFile)) (some "mybmm.conf".toList) 0).getD {}

end Mybmm.Reconfig
