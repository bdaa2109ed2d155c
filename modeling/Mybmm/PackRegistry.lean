import Mybmm.PackLoading
import Mybmm.Main

/-! The packs over a start with any command line and any number of readings of the
configuration after it: how often each is listed, and the workers there are. -/
namespace Mybmm.PackRegistry
open CString Cfg Config Flags Battery Libc Modules Inverters Packs Reconfig FreshStart Main PackLoading Attempt Machine

structure Reading where
  env : Env
  threads : Threads

def Reading.world (r : Reading) : Env := threaded r.env r.threads

def readFile (filename : Option Text) (r : Reading) : Option CfgInfo := filename.bind fun _ => r.env.cfgRead

def optionSection : Text := "pack".toList

def given (args : Args) : Pack := { text := specified args.packType args.packTransport args.packTarget }

/-- The options `-p` is handled under. The MQTT options are read twice by then. -/
def optionConf (file : Option CfgInfo) : Conf := getMqttConf (getMqttConf { cfg := file })

def optionEntry (args : Args) (first : Reading) : Option Pack :=
  packEntry first.world (optionConf (readFile args.configfile first)) optionSection (given args)

/-- The packs that no section sets up and that are to be listed all the same. -/
def wanted (args : Args) (first : Reading) (later : List Reading) : Option (List Pack) :=
  if later = [] ∧ args.packType ≠ [] then (optionEntry args first).map fun pp => [pp] else some []

private theorem packNames_length : packNames.length = maxPacks := by simp [packNames]

/-- What holds while a file is being set up: the loaded modules are initialised,
and of the file only the UUIDs of the inverter and the packs have been written. -/
def Underway (env : Env) (file : Option CfgInfo) (mqtt : Memory) (conf : Conf) : Prop :=
  Initialised env conf ∧ SameOptions file conf ∧ Untouched file [optionSection] conf ∧ conf.mqtt = mqtt

variable {env : Env} {file : Option CfgInfo} {mqtt : Memory}

private theorem underway_loads : Loads env (Underway env file mqtt) := loads_initialised env fun _ _ inv => inv

private theorem underway_uuid (name : Text) (fits : name.length ≤ cfgSectionNameSize)
    (apart : toupper optionSection ≠ toupper name) : IgnoresUuid name (Underway env file mqtt) := by
  intro conf uuid ⟨initialised,options,untouched,same⟩
  refine ⟨initialised,sameOptions_ignoresUuid file name conf uuid options,?_,same⟩
  exact untouched_ignoresUuid file [optionSection] name fits (by simpa using apart) conf uuid untouched

private theorem optionSection_apart : ∀ name ∈ packNames, toupper optionSection ≠ toupper name := by decide +kernel

private theorem inverterInit_underway : Keeps (Underway env file mqtt) (inverterInit env) :=
  inverterInit_keeps env underway_loads (underway_uuid inverterSection (by decide) (by decide)) fun _ _ inv => inv

private theorem packInit_underway : Keeps (Underway env file mqtt) (packInit env) :=
  packInit_keeps env underway_loads
    (fun name member => underway_uuid name (packNames_fit name member) (optionSection_apart name member))
    (fun _ _ inv => inv) (fun _ _ inv => inv) fun _ _ inv => inv

private theorem packInit_pool (conf after : Conf) (succeeded : packInit env conf = (some (),after)) :
    after.packPool = (if after.packs = [] then conf.packPool else env.pool after.packs.length) ∧
      (after.packs ≠ [] → after.packPool ≠ none) := by
  have kept : Keeps (fun c => c.packPool = conf.packPool) (packSections env packNames) :=
    packSections_keeps env packNames (loads_ignores env fun _ _ same => same) (fun _ _ _ _ same => same)
      fun _ _ same => same
  rw [packInit_eq] at succeeded
  rcases read : packSections env packNames conf with ⟨ending,mid⟩
  rw [read] at succeeded
  cases ending with
  | none => simp at succeeded
  | some _ =>
    have same := kept.done rfl read
    dsimp only at succeeded
    split at succeeded
    · rename_i empty
      obtain rfl : mid = after := congrArg Prod.snd succeeded
      rw [if_pos empty]
      exact ⟨same,fun listed => absurd empty listed⟩
    · rename_i listed
      split at succeeded
      · simp at succeeded
      · rename_i made
        obtain rfl := congrArg Prod.snd succeeded
        exact ⟨(if_neg listed).symm,fun _ => made⟩

private theorem reloaded_underway (env : Env) (conf : Conf) :
    Underway env (newFile env conf) (fill conf.mqtt 0 (mqttBuffers (newFile env conf))) (reloaded env conf) := by
  have fresh := reloaded_links env conf
  have modules : (reloaded env conf).modules = [] := congrArg Links.modules fresh
  have cfg : (reloaded env conf).cfg = newFile env conf := congrArg Links.cfg fresh
  refine ⟨?_,fun name keyword _ => by rw [cfg],fun name _ keyword => by rw [cfg],?_⟩
  · intro mp member
    rw [modules] at member
    contradiction
  · exact (reloaded_kept env conf).2

structure Settled (env : Env) (before after : Conf) : Prop where
  packs : List.Forall₂ (SetUp env (newFile env before)) (sections (newFile env before) packNames) after.packs
  pool : after.packPool = if after.packs = [] then before.packPool else env.pool after.packs.length
  made : after.packs ≠ [] → after.packPool ≠ none
  filename : after.filename = before.filename
  underway : Underway env (newFile env before) (fill before.mqtt 0 (mqttBuffers (newFile env before))) after

private theorem reread_settles (env : Env) (conf after : Conf) (succeeded : reread env conf = (some (),after)) :
    Settled env conf after := by
  obtain ⟨readable,done⟩ := reread_done env conf after succeeded
  have calm := reread_settled env conf readable
  rw [succeeded] at calm
  obtain ⟨mid,last,inverter,packs,rfl⟩ := setUp_done env _ after done
  have fresh := reloaded_links env conf
  obtain ⟨registered,empty,untouched,_⟩ := (inverterInit_ready env _ _).done (reloaded_ready env conf) inverter
  have written : (writeBack last).packPool = last.packPool := by
    unfold writeBack
    split <;> rfl
  obtain ⟨pool,made⟩ := packInit_pool mid last packs
  refine ⟨?_,?_,?_,?_,?_⟩
  · rw [(writeBack_links last).2.1]
    exact (packInit_registers env _).done ⟨registered,empty,untouched⟩ packs
  · have kept : Keeps (fun c => c.packPool = conf.packPool) (inverterInit env) :=
      inverterInit_keeps env (loads_ignores env fun _ _ same => same) (fun _ _ same => same) fun _ _ same => same
    have same := kept.done (congrArg Links.packPool fresh) inverter
    rw [(writeBack_links last).2.1,written,pool,same]
  · rw [(writeBack_links last).2.1,written]
    exact made
  · have named : (reloaded env conf).filename = conf.filename := congrArg Links.filename fresh
    exact (settled_congr Conf.filename (fun _ => rfl) calm).trans named
  · have ended := packInit_underway.done (inverterInit_underway.done (reloaded_underway env conf) inverter) packs
    unfold writeBack
    split
    · exact ended
    · exact ended

/-! The options of the command line. -/

private theorem batteryOption_links (args : Args) (conf : Conf) :
    links (batteryOption args conf) = links conf ∧ (batteryOption args conf).mqtt = conf.mqtt := by
  unfold batteryOption
  split
  · exact ⟨batteryInit_links _,batteryInit_mqtt _⟩
  · exact ⟨rfl,rfl⟩

private theorem underway_links {texts : Memory} {conf other : Conf} (alike : links other = links conf)
    (inv : Underway env file mqtt conf) (same : other.mqtt = texts) : Underway env file texts other := by
  have modules : other.modules = conf.modules := congrArg Links.modules alike
  have cfg : other.cfg = conf.cfg := congrArg Links.cfg alike
  obtain ⟨initialised,options,untouched,_⟩ := inv
  refine ⟨?_,?_,?_,same⟩
  · rwa [Initialised,modules]
  · rwa [SameOptions,cfg]
  · rwa [Untouched,cfg]

private theorem inverterOption_keeps {I : Conf → Prop} (args : Args) (env : Env) (conf after : Conf) (loads : Loads env I)
    (installs : ∀ conf inv, I conf → I { conf with inverter := some inv }) (inv : I conf)
    (done : inverterOption args env conf = some after) : I after := by
  unfold inverterOption at done
  split at done
  · exact Option.some.inj done ▸ inv
  · split at done
    · simp at done
    · rw [← Option.some.inj done]
      exact (inverterAdd_installs env _ loads installs).ends inv

/-- What `init` has come to when it looks at `-p`. -/
structure Started (args : Args) (first : Reading) (conf : Conf) : Prop where
  packs : List.Forall₂ (SetUp first.world (readFile args.configfile first))
    (sections (readFile args.configfile first) packNames) conf.packs
  workers : poolWorkers conf = conf.packs.length
  filename : conf.filename = args.configfile
  underway : Underway first.world (readFile args.configfile first)
    (optionConf (readFile args.configfile first)).mqtt conf

private theorem newFile_eq (r : Reading) (conf : Conf) : newFile r.world conf = readFile conf.filename r := by
  simp only [newFile,opened,dropped,openFile,readFile]
  cases conf.filename <;> rfl

private theorem settled_workers (r : Reading) (before after : Conf) (settled : Settled r.world before after)
    (fresh : before.packPool = none ∨ after.packs ≠ []) : poolWorkers after = after.packs.length := by
  have pool := settled.pool
  by_cases empty : after.packs = []
  · rw [if_pos empty,fresh.resolve_right (not_not_intro empty)] at pool
    simp [poolWorkers,pool,empty]
  · rw [if_neg empty] at pool
    obtain ⟨workers,some⟩ := Option.ne_none_iff_exists'.mp (settled.made empty)
    rw [poolWorkers,some,Option.getD_some]
    exact workerCreatePool_some (pool.symm.trans some)

private theorem optionConf_mqtt (file : Option CfgInfo) :
    (optionConf file).mqtt = fill (fill (fun _ => nul) 0 (mqttBuffers file)) 0 (mqttBuffers file) := by
  rw [optionConf,getMqttConf_fill,getMqttConf_fill]

theorem started (args : Args) (first : Reading) (conf₀ conf₁ : Conf)
    (read : getConfig first.world args.configfile args.debug = some conf₀)
    (options : inverterOption args first.world (batteryOption args (getMqttConf conf₀)) = some conf₁) :
    Started args first conf₁ := by
  have settled := reread_settles _ _ _ ((getConfig_reread _ _ _ _).mp read)
  have workers := settled_workers first _ _ settled (Or.inl rfl)
  have file : newFile first.world { filename := args.configfile, debug := args.debug } =
      readFile args.configfile first := newFile_eq first _
  obtain ⟨packs,_,_,filename,underway⟩ := settled
  rw [file] at packs underway
  have buffers : mqttBuffers conf₀.cfg = mqttBuffers (readFile args.configfile first) := by
    have same (keyword : Text) (apart : toupper keyword ≠ toupper "uuid".toList) :=
      underway.2.1 "mqtt".toList keyword apart
    simp only [mqttBuffers]
    rw [same "broker".toList (by decide),same "topic".toList (by decide),same "username".toList (by decide),
      same "password".toList (by decide)]
  have mqtt : (getMqttConf conf₀).mqtt = (optionConf (readFile args.configfile first)).mqtt := by
    rw [optionConf_mqtt,getMqttConf_fill,buffers]
    exact congrArg (fill · 0 _) underway.2.2.2
  obtain ⟨alike,same⟩ := batteryOption_links args (getMqttConf conf₀)
  have linked : links (batteryOption args (getMqttConf conf₀)) = links conf₀ := alike.trans (getMqttConf_links conf₀)
  have mid : Underway first.world (readFile args.configfile first) (optionConf (readFile args.configfile first)).mqtt
      (batteryOption args (getMqttConf conf₀)) := underway_links linked underway (same.trans mqtt)
  obtain ⟨inv,listed,pool,named⟩ := inverterOption_keeps
    (I := fun c => Underway first.world (readFile args.configfile first)
      (optionConf (readFile args.configfile first)).mqtt c ∧
      c.packs = conf₀.packs ∧ c.packPool = conf₀.packPool ∧ c.filename = conf₀.filename)
    args first.world _ conf₁ (loads_and underway_loads (loads_ignores _ fun _ _ same => same)) (fun _ _ inv => inv)
    ⟨mid,congrArg Links.packs linked,congrArg Links.packPool linked,congrArg Links.filename linked⟩ options
  refine ⟨listed ▸ packs,?_,named.trans filename,inv⟩
  rw [poolWorkers,pool,listed]
  exact workers

theorem packSections_stops (env : Env) (conf : Conf) (name : Text) (rest : List Text)
    (absent : cfgGetItem conf.cfg name "type".toList = none) : packSections env (name :: rest) conf = (some (),conf) := by
  have read : gets (fun conf => cfgGetItem conf.cfg name "type".toList) conf = (some none,conf) := by
    rw [gets,absent]
  exact bind_done read

theorem take_length {n : Nat} (fits : n ≤ maxPacks) : (packNames.take n).length = n := by
  rw [List.length_take,packNames_length]
  exact Nat.min_eq_left fits

end Mybmm.PackRegistry
