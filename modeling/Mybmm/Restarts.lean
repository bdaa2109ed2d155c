import Mybmm.Identity

/-! Starting the program again and again over the file that each start leaves: the inverter
and the packs keep their records, and after the first start the file is as it was. -/
namespace Mybmm.Restarts
open CString Libc Cfg CfgFile CfgRoundTrip CfgLookup Config Flags Modules Inverters Packs Reconfig FreshStart
open PackLoading PackRegistry Identity Uuid Attempt

/-- A program with its drivers, over the text of its file and the random bytes of each UUID. -/
def booted (base : Env) (disk : Text) (random : Text → UuidT) : Env :=
  { base with
    cfgRead := cfgRead disk
    uuid := fun name => myUuidUnparse (uuidGenerateRandom (random name))
    uuid_length := fun name => unparse_length (uuidGenerateRandom (random name)) }

/-- `read_config` up to where it looks whether the file is to be written. -/
def unsaved (env : Env) : Attempt Conf Unit := do
  Attempt.modify loaded
  inverterInit env
  packInit env

/-- The file behind `read_config`, when it can be written. -/
def saved (disk : Text) (conf : Conf) : Text :=
  if checkState conf .configDirty then (conf.cfg.map cfgWrite).getD disk else disk

/-- `get_config` over the text of the file, and the text that it leaves. -/
def startUp (base : Env) (filename : Text) (debug : Int) (random : Text → UuidT) (disk : Text) : Option (Conf × Text) :=
  let env := booted base disk random
  match env.cfgRead with
  | none => none
  | some info =>
    match unsaved env { filename := some filename, debug := debug, cfg := some info } with
    | (some _,conf) => some (writeBack conf,saved disk conf)
    | (none,_) => none

private theorem setUp_unsaved (env : Env) (conf : Conf) : setUp env conf = match unsaved env conf with
    | (some _,last) => (some (),writeBack last)
    | (none,last) => (none,last) := by
  have options : Attempt.modify loaded conf = (some (),loaded conf) := rfl
  rw [setUp,unsaved,bind_done options,bind_done options]
  rcases inverter : inverterInit env (loaded conf) with ⟨ending,mid⟩
  cases ending with
  | none => rw [bind_gaveUp inverter,bind_gaveUp inverter]
  | some _ =>
    rw [bind_done inverter,bind_done inverter]
    rcases packs : packInit env mid with ⟨ending,last⟩
    cases ending with
    | none => rw [bind_gaveUp packs]
    | some _ => exact bind_done packs

theorem startUp_getConfig (base : Env) (filename : Text) (debug : Int) (random : Text → UuidT) (disk : Text) :
    (startUp base filename debug random disk).map Prod.fst =
      getConfig (booted base disk random) (some filename) debug := by
  cases read : (booted base disk random).cfgRead with
  | none =>
    have unreadable : Unreadable (booted base disk random) { filename := some filename, debug := debug } := ⟨rfl,read⟩
    rw [getConfig,readConfig_unreadable _ _ unreadable]
    simp only [startUp,read,Option.map_none]
  | some info =>
    have readable : ¬ Unreadable (booted base disk random) { filename := some filename, debug := debug } := by
      rintro ⟨_,missing⟩
      rw [read] at missing
      cases missing
    rw [getConfig,readConfig_readable _ _ readable,setUp_unsaved]
    simp only [startUp,read,opened,openFile]
    rcases unsaved (booted base disk random) { filename := some filename, debug := debug, cfg := some info } with ⟨ending,last⟩
    cases ending with
    | none => rfl
    | some _ => rfl

/-! What a start makes of a file. -/

variable {base : Env} {disk disk' : Text} {random random' : Text → UuidT}

/-- The sections from the first one on that have a type. -/
def typedNames (file : Option CfgInfo) (names : List Text) : List Text :=
  names.takeWhile fun name => (cfgGetItem file name "type".toList).isSome

abbrev optsMarked (env : Env) (file : Option CfgInfo) (name : Text) (after : Option CfgInfo) : Prop :=
  Marked env file name "opts".toList (fun _ => nul) after

private theorem booted_plain (name : Text) : nul ∉ (booted base disk random).uuid name := unparse_plain _

private theorem packCapacity_marked {env : Env} {a b : Option CfgInfo} {name : Text} (marked : optsMarked env a name b)
    (pp : Pack) :
    packCapacity b name pp = packCapacity a name pp := by
  have same : cfgGetItem b name "capacity".toList = cfgGetItem a name "capacity".toList := marked.others _ (by decide)
  simp only [packCapacity,cfgGetEntry,same]

/-- A pack is the same whoever drew its UUID, once the file has it. -/
private theorem packEntry_marked {a b : Conf} {name : Text} (marked : optsMarked (booted base disk random) a.cfg name b.cfg)
    (short : name.length < 32) (typed : cfgGetItem a.cfg name "type".toList ≠ none) (mqtt : b.mqtt = a.mqtt) :
    packEntry (booted base disk' random') b name {} = packEntry (booted base disk random) a name {} := by
  have text := (tabText_marked marked (by decide) short typed (booted_plain name)).2 (booted base disk' random')
  have record : packRecord (booted base disk' random') b.cfg name {} = packRecord (booted base disk random) a.cfg name {} := by
    simp only [packRecord,packCapacity_marked marked,text]
  have session (owner : Text) : (packMqtt (booted base disk' random') owner b).1 =
      (packMqtt (booted base disk random) owner a).1 := by
    rw [packMqtt_reads _ owner b a mqtt]
    rfl
  simp only [packEntry,record,session]
  rfl

/-! One section after the other. -/

abbrev packTabConf (env : Env) (name : Text) : Conf → Conf := tabConf env name "opts".toList fun _ => nul

/-- Of the file and of what has to be written, loading a driver changes nothing. -/
private theorem packAdd_file {env : Env} {name : Text} (plain : nul ∉ env.uuid name) (conf : Conf) :
    Triple (fun c => c = conf) (packAdd env name {})
      (fun _ c => c.cfg = (packTabConf env name conf).cfg ∧ c.state = (packTabConf env name conf).state)
      (fun c => c.cfg = (packTabConf env name conf).cfg ∧ c.state = (packTabConf env name conf).state) := by
  have quiet : IgnoresModules fun c => c.cfg = (packTabConf env name conf).cfg ∧
      c.state = (packTabConf env name conf).state := fun _ _ same => same
  refine triple_bind (Q := fun cfg c => cfg = conf.cfg ∧ c = conf)
    (triple_gets _ fun c same => ⟨congrArg Conf.cfg same,same⟩) fun cfg => ?_
  rw [triple_and_left]
  rintro rfl
  dsimp only
  rw [packCapacity_text]
  refine triple_bind (Q := fun _ c => c = packTabConf env name conf) ?_ fun text => ?_
  · rintro c rfl
    rw [getTab_eq plain]
  · refine triple_weaken ?_ fun c same => show c.cfg = (packTabConf env name conf).cfg ∧
      c.state = (packTabConf env name conf).state from same ▸ ⟨rfl,rfl⟩
    split
    · exact keeps_pure ()
    · exact keeps_bind (loads_ignores env quiet _ _) fun tp => keeps_bind (loads_ignores env quiet _ _) fun mp =>
        keeps_bind (keeps_ofOption _) fun made => keeps_bind (packMqtt_keeps env _) fun session =>
          keeps_modify _ fun c same => same

structure PackAdded (env : Env) (name : Text) (conf after : Conf) : Prop where
  packs : after.packs = conf.packs ++ (packEntry env conf name {}).toList
  cfg : after.cfg = (packTabConf env name conf).cfg
  state : after.state = (packTabConf env name conf).state
  initialised : Initialised env after
  mqtt : after.mqtt = conf.mqtt
  inverter : after.inverter = conf.inverter

private theorem packAdd_done {env : Env} {name : Text} {conf after : Conf} (plain : nul ∉ env.uuid name)
    (initialised : Initialised env conf) (done : packAdd env name {} conf = (some (),after)) :
    PackAdded env name conf after := by
  obtain ⟨packs,kept,mqtt,inverter⟩ := packAdd_after (I := fun c => c.mqtt = conf.mqtt ∧ c.inverter = conf.inverter)
    env name {} conf (fun _ _ same => same) (fun _ _ same => same) (fun _ _ same => same) initialised ⟨rfl,rfl⟩
  obtain ⟨cfg,state⟩ := (packAdd_file plain conf).done rfl done
  rw [done] at packs kept mqtt inverter
  exact ⟨packs,cfg,state,kept,mqtt,inverter⟩

/-! Sections with other names. -/

private theorem tabConf_other (env : Env) {name other : Text} (last : Text) (text : Memory) (conf : Conf)
    (fits : name.length ≤ cfgSectionNameSize) (apart : toupper other ≠ toupper name) (keyword : Text) :
    cfgGetItem (tabConf env name last text conf).cfg other keyword = cfgGetItem conf.cfg other keyword := by
  unfold tabConf
  split_ifs
  · rfl
  · rw [keepUuid_cfg]
    cases conf.cfg with
    | none => rfl
    | some info => exact cfgSetItem_other info name _ none _ other keyword fits apart

private theorem tabConf_keyword (env : Env) (name last : Text) (text : Memory) (conf : Conf) :
    SameOptions conf.cfg (tabConf env name last text conf) := by
  intro other keyword apart
  unfold tabConf
  split_ifs
  · rfl
  · rw [keepUuid_cfg]
    cases conf.cfg with
    | none => rfl
    | some info => exact cfgSetItem_keyword info name _ none _ other keyword (by decide) apart

abbrev SameItems (a b : Option CfgInfo) (name : Text) : Prop :=
  ∀ keyword, cfgGetItem b name keyword = cfgGetItem a name keyword

private theorem identified_congr {a b : Option CfgInfo} {name : Text} (same : SameItems a b name) (last : Text)
    (text : Memory) :
    Identified b name last text ↔ Identified a name last text := by
  have reads : cfgGetTab b (textTab name last) text = cfgGetTab a (textTab name last) text := by
    refine cfgGetTab_congr _ _ fun entry member => ?_
    rw [textTab_own name last entry member]
    exact same _
  rw [Identified,Identified,reads]

private theorem marked_congr {env : Env} {a a' b b' : Option CfgInfo} {name last : Text} {text : Memory}
    (marked : Marked env a name last text b) (before : SameItems a a' name) (after : SameItems b b' name) :
    Marked env a' name last text b' where
  others keyword apart := by rw [after,marked.others keyword apart,before]
  uuid := by
    rw [after,marked.uuid]
    by_cases old : Identified a name last text
    · rw [if_pos old,if_pos ((identified_congr before last text).mpr old),before]
    · rw [if_neg old,if_neg (mt (identified_congr before last text).mp old)]

private theorem typedNames_congr {a b : Option CfgInfo} {names : List Text}
    (same : ∀ name, cfgGetItem b name "type".toList = cfgGetItem a name "type".toList) :
    typedNames b names = typedNames a names := by
  simp only [typedNames,same]

/-- What `pack_init` has come to at the end of its first loop. -/
structure SectionsRead (env : Env) (names : List Text) (conf after : Conf) : Prop where
  packs : after.packs = conf.packs ++
    (typedNames conf.cfg names).flatMap fun name => (packEntry env conf name {}).toList
  marked : ∀ name ∈ typedNames conf.cfg names, optsMarked env conf.cfg name after.cfg
  others : ∀ other, (∀ name ∈ names, toupper other ≠ toupper name) → SameItems conf.cfg after.cfg other
  keywords : SameOptions conf.cfg after
  clean : (∀ name ∈ typedNames conf.cfg names, Identified conf.cfg name "opts".toList fun _ => nul) →
    after.cfg = conf.cfg ∧ after.state = conf.state
  mqtt : after.mqtt = conf.mqtt
  inverter : after.inverter = conf.inverter

private theorem cfg_isSome {cfg : Option CfgInfo} {name keyword t : Text} (item : cfgGetItem cfg name keyword = some t) :
    cfg.isSome = true := by
  cases cfg with
  | none => cases item
  | some info => rfl

private theorem packSections_step {env : Env} {name : Text} {rest : List Text} {conf after : Conf}
    (typed : cfgGetItem conf.cfg name "type".toList ≠ none)
    (done : packSections env (name :: rest) conf = (some (),after)) :
    ∃ mid, packAdd env name {} conf = (some (),mid) ∧ packSections env rest mid = (some (),after) := by
  obtain ⟨t,type⟩ := Option.ne_none_iff_exists'.mp typed
  have read : gets (fun conf => cfgGetItem conf.cfg name "type".toList) conf = (some (some t),conf) := by
    rw [gets,type]
  rw [packSections,bind_done read] at done
  dsimp only at done
  split at done
  · cases done
  · obtain ⟨_,mid,first,done⟩ := bind_done_iff.mp done
    exact ⟨mid,first,done⟩

private theorem packSections_done {env : Env} {names : List Text} {conf after : Conf} (plain : ∀ name, nul ∉ env.uuid name)
    (fits : ∀ name ∈ names, name.length < cfgSectionNameSize)
    (apart : names.Pairwise fun name other => toupper other ≠ toupper name) (initialised : Initialised env conf)
    (done : packSections env names conf = (some (),after)) : SectionsRead env names conf after := by
  induction names generalizing conf with
  | nil =>
    obtain rfl : conf = after := congrArg Prod.snd done
    exact ⟨(List.append_nil _).symm,List.forall_mem_nil _,fun _ _ _ => rfl,fun _ _ _ => rfl,fun _ => ⟨rfl,rfl⟩,rfl,rfl⟩
  | cons name rest ih =>
    obtain ⟨apart,later⟩ := List.pairwise_cons.mp apart
    obtain ⟨short,fits⟩ := List.forall_mem_cons.mp fits
    cases type : cfgGetItem conf.cfg name "type".toList with
    | none =>
      rw [packSections_stops env conf name rest type] at done
      obtain rfl : conf = after := congrArg Prod.snd done
      have none : typedNames conf.cfg (name :: rest) = [] := List.takeWhile_cons_of_neg (by rw [type]; decide)
      refine ⟨?_,?_,fun _ _ _ => rfl,fun _ _ _ => rfl,fun _ => ⟨rfl,rfl⟩,rfl,rfl⟩
      · rw [none]
        exact (List.append_nil _).symm
      · rw [none]
        exact List.forall_mem_nil _
    | some t =>
      have typed : typedNames conf.cfg (name :: rest) = name :: typedNames conf.cfg rest :=
        List.takeWhile_cons_of_pos (by rw [type]; rfl)
      obtain ⟨mid,first,done⟩ := packSections_step (by rw [type]; exact Option.some_ne_none t) done
      obtain ⟨packs,cfg,state,kept,mqtt,inverter⟩ := packAdd_done (plain name) initialised first
      have own : optsMarked env conf.cfg name mid.cfg := cfg ▸ tabConf_marked env _ _ short (cfg_isSome type)
      have options : SameOptions conf.cfg mid := by
        intro other keyword apart
        rw [cfg]
        exact tabConf_keyword env name _ _ conf other keyword apart
      have same (other : Text) (apart : toupper other ≠ toupper name) : SameItems conf.cfg mid.cfg other := by
        rw [cfg]
        exact tabConf_other env _ _ conf short.le apart
      have names : typedNames mid.cfg rest = typedNames conf.cfg rest := typedNames_congr fun other => options other _ (by decide)
      have inside (other : Text) (member : other ∈ typedNames conf.cfg rest) : toupper other ≠ toupper name :=
        apart other (List.takeWhile_sublist _ |>.subset member)
      obtain ⟨packs',marked,others,options',clean,mqtt',inverter'⟩ := ih fits later kept done
      rw [names] at packs' marked clean
      refine ⟨?_,?_,?_,?_,?_,mqtt'.trans mqtt,inverter'.trans inverter⟩
      · have entries : ((typedNames conf.cfg rest).flatMap fun name => (packEntry env mid name {}).toList) =
            (typedNames conf.cfg rest).flatMap fun name => (packEntry env conf name {}).toList := by
          refine List.flatMap_congr fun other member => ?_
          rw [packEntry_congr env other {} (same other (inside other member)) mqtt]
        rw [packs',packs,typed,List.flatMap_cons,entries,List.append_assoc]
      · rw [typed]
        refine List.forall_mem_cons.mpr ⟨?_,fun other member => ?_⟩
        · exact marked_congr own (fun _ => rfl) (others name fun other member => (apart other member).symm)
        · refine marked_congr (marked other member) (fun keyword => ?_) fun _ => rfl
          exact (same other (inside other member) keyword).symm
      · intro other free keyword
        obtain ⟨first,rest⟩ := List.forall_mem_cons.mp free
        rw [others other rest,same other first]
      · intro other keyword apart
        rw [options' other keyword apart,options other keyword apart]
      · rw [typed,List.forall_mem_cons]
        rintro ⟨old,olds⟩
        have unmoved : packTabConf env name conf = conf := if_pos old
        rw [unmoved] at cfg state
        obtain ⟨cfg',state'⟩ := clean fun other member => by
          rw [cfg]
          exact olds other member
        exact ⟨cfg'.trans cfg,state'.trans state⟩

/-! The inverter. -/

abbrev paramsMarked (env : Env) (file after : Option CfgInfo) : Prop :=
  Marked env file inverterSection "params".toList (fun _ => nul) after

/-- The inverter that the section of a file comes to. -/
def inverterEntry (env : Env) (file : Option CfgInfo) : Option Inverter := do
  let inv : Inverter := { text := tabText env file inverterSection "params".toList fun _ => nul }
  let tp ← loadable env inv.transport
  let mp ← loadable env inv.type
  let handle ← env.inverter inv mp tp
  return { inv with handle := handle, capabilities := mp.capabilities }

private theorem inverterAdd_entry (env : Env) (inv : Inverter) {I : Conf → Prop} (modules : IgnoresModules I)
    (installs : ∀ conf inv, I conf → I { conf with inverter := some inv }) :
    Triple (fun conf => Initialised env conf ∧ I conf) (inverterAdd env inv)
      (fun _ conf => Initialised env conf ∧ I conf ∧ ∃ tp mp handle, loadable env inv.transport = some tp ∧
        loadable env inv.type = some mp ∧ env.inverter inv mp tp = some handle ∧
        conf.inverter = some { inv with handle := handle, capabilities := mp.capabilities }) fun _ => True := by
  refine triple_bind (triple_consequence (loadModule_loadable env _ _ modules) (fun _ _ post => post) fun _ _ => trivial)
    fun tp => ?_
  rw [triple_and_left]
  intro transport
  refine triple_bind (triple_consequence (loadModule_loadable env _ _ modules) (fun _ _ post => post) fun _ _ => trivial)
    fun mp => ?_
  rw [triple_and_left]
  intro driver
  refine triple_bind (triple_ofOption (Q := fun handle conf => env.inverter inv mp tp = some handle ∧
    Initialised env conf ∧ I conf) _ (fun handle conf made pre => ⟨made,pre⟩) fun _ _ => trivial) fun handle => ?_
  rw [triple_and_left]
  intro made
  exact triple_modify _ fun conf pre => ⟨pre.1,installs conf _ pre.2,tp,mp,handle,transport,driver,made,rfl⟩

/-- What `inverter_init` has come to. -/
structure InverterRead (env : Env) (conf after : Conf) : Prop where
  inverter : after.inverter =
    if cfgGetItem conf.cfg inverterSection "type".toList = none then conf.inverter else inverterEntry env conf.cfg
  marked : cfgGetItem conf.cfg inverterSection "type".toList ≠ none → paramsMarked env conf.cfg after.cfg
  others : ∀ other, toupper other ≠ toupper inverterSection → SameItems conf.cfg after.cfg other
  keywords : SameOptions conf.cfg after
  clean : (cfgGetItem conf.cfg inverterSection "type".toList ≠ none →
    Identified conf.cfg inverterSection "params".toList fun _ => nul) → after.cfg = conf.cfg ∧ after.state = conf.state
  initialised : Initialised env after
  mqtt : after.mqtt = conf.mqtt
  packs : after.packs = conf.packs

private theorem inverterInit_done {env : Env} {conf after : Conf} (plain : ∀ name, nul ∉ env.uuid name)
    (initialised : Initialised env conf) (done : inverterInit env conf = (some (),after)) :
    InverterRead env conf after := by
  cases type : cfgGetItem conf.cfg inverterSection "type".toList with
  | none =>
    rw [inverterInit_absent env conf type] at done
    obtain rfl : conf = after := congrArg Prod.snd done
    exact ⟨(if_pos type).symm,fun typed => absurd type typed,fun _ _ _ => rfl,fun _ _ _ => rfl,fun _ => ⟨rfl,rfl⟩,
      initialised,rfl,rfl⟩
  | some t =>
    have typed : cfgGetItem conf.cfg inverterSection "type".toList ≠ none := by
      rw [type]
      exact Option.some_ne_none t
    have read : gets (fun conf => cfgGetItem conf.cfg inverterSection "type".toList) conf = (some (some t),conf) := by
      rw [gets,type]
    let mid := tabConf env inverterSection "params".toList (fun _ => nul) conf
    have added : inverterAdd env { text := tabText env conf.cfg inverterSection "params".toList fun _ => nul } mid =
        (some (),after) := by
      rw [inverterInit,bind_done read] at done
      dsimp only at done
      split at done
      · cases done
      · rwa [bind_done (getTab_eq (plain inverterSection) _ _ conf)] at done
    have ready : Initialised env mid := by
      have modules : mid.modules = conf.modules := by
        simp only [mid,tabConf]
        split_ifs <;> rfl
      rwa [Initialised,modules]
    have rest : mid.mqtt = conf.mqtt ∧ mid.packs = conf.packs := by
      simp only [mid,tabConf]
      split_ifs <;> exact ⟨rfl,rfl⟩
    obtain ⟨kept,⟨cfg,state,mqtt,packs⟩,tp,mp,handle,transport,driver,made,inverter⟩ :=
      (inverterAdd_entry env _ (I := fun c => c.cfg = mid.cfg ∧ c.state = mid.state ∧ c.mqtt = mid.mqtt ∧
        c.packs = mid.packs) (fun _ _ same => same) fun _ _ same => same).done ⟨ready,rfl,rfl,rfl,rfl⟩ added
    refine ⟨?_,fun _ => ?_,fun other apart keyword => ?_,fun other keyword apart => ?_,fun old => ?_,kept,
      mqtt.trans rest.1,packs.trans rest.2⟩
    · rw [if_neg typed,inverter,inverterEntry]
      simp only [transport,driver,made,Option.bind_eq_bind,Option.bind_some]
      rfl
    · exact cfg ▸ tabConf_marked env _ _ (by decide) (cfg_isSome type)
    · rw [cfg]
      exact tabConf_other env _ _ conf (by decide) apart keyword
    · rw [cfg]
      exact tabConf_keyword env _ _ _ conf other keyword apart
    · have unmoved : mid = conf := if_pos (old typed)
      rw [unmoved] at cfg state
      exact ⟨cfg,state⟩

/-! A whole start. -/

/-- What the packs' sections are read from. -/
def fileConf (file : Option CfgInfo) : Conf := { cfg := file, mqtt := fill (fun _ => nul) 0 (mqttBuffers file) }

/-- What a start has come to when it looks whether the file is to be written. -/
structure Begun (env : Env) (file : Option CfgInfo) (conf : Conf) : Prop where
  inverter : conf.inverter =
    if cfgGetItem file inverterSection "type".toList = none then none else inverterEntry env file
  packs : conf.packs = (typedNames file packNames).flatMap fun name => (packEntry env (fileConf file) name {}).toList
  params : cfgGetItem file inverterSection "type".toList ≠ none → paramsMarked env file conf.cfg
  opts : ∀ name ∈ typedNames file packNames, optsMarked env file name conf.cfg
  keywords : SameOptions file conf
  clean : (cfgGetItem file inverterSection "type".toList ≠ none →
      Identified file inverterSection "params".toList fun _ => nul) →
    (∀ name ∈ typedNames file packNames, Identified file name "opts".toList fun _ => nul) →
    checkState conf .configDirty = false
  present : conf.cfg.isSome = true
  unwritten : checkState conf .configDirty = false → conf.cfg = file

private theorem packInit_sections {env : Env} {conf after : Conf} (done : packInit env conf = (some (),after)) :
    ∃ mid, packSections env packNames conf = (some (),mid) ∧ after.packs = mid.packs ∧ after.cfg = mid.cfg ∧
      after.state = mid.state ∧ after.inverter = mid.inverter := by
  rw [packInit_eq] at done
  rcases read : packSections env packNames conf with ⟨ending,mid⟩
  rw [read] at done
  cases ending with
  | none => simp at done
  | some _ =>
    dsimp only at done
    split at done
    · cases done
      exact ⟨_,rfl,rfl,rfl,rfl,rfl⟩
    · split at done
      · simp at done
      · cases done
        exact ⟨_,rfl,rfl,rfl,rfl,rfl⟩

/-- Whatever is not to be written is in the file. -/
def InFile (file : Option CfgInfo) (conf : Conf) : Prop :=
  conf.cfg.isSome = true ∧ (checkState conf .configDirty = false → conf.cfg = file)

private theorem inFile_uuid (file : Option CfgInfo) (name : Text) : IgnoresUuid name (InFile file) := by
  intro conf uuid kept
  refine ⟨?_,fun clean => ?_⟩
  · rw [keepUuid_cfg,Option.isSome_map]
    exact kept.1
  · simp [keepUuid,setState,checkState] at clean

private theorem packNames_short : ∀ name ∈ packNames, name.length < 32 := by decide +kernel

/-- The configuration that a start begins from. -/
def fresh (filename : Text) (debug : Int) (info : CfgInfo) : Conf :=
  { filename := some filename, debug := debug, cfg := some info }

theorem loaded_fresh (filename : Text) (debug : Int) (info : CfgInfo) :
    let conf := loaded (fresh filename debug info)
    conf.cfg = some info ∧ conf.modules = [] ∧ conf.packs = [] ∧ conf.inverter = none ∧
      conf.mqtt = (fileConf (some info)).mqtt ∧ checkState conf .configDirty = false := by
  have alike := loaded_links (fresh filename debug info)
  refine ⟨congrArg Links.cfg alike,congrArg Links.modules alike,congrArg Links.packs alike,congrArg Links.inverter alike,
    loaded_mqtt _,?_⟩
  have state : clear (loaded (fresh filename debug info)).state State.charging = clear 0 State.charging :=
    congrArg Links.state alike
  rw [checkState,← check_clear_ne _ (by decide : State.charging ≠ State.configDirty),state]
  decide

private theorem unsaved_begun {env : Env} {filename : Text} {debug : Int} {info : CfgInfo} {conf : Conf}
    (plain : ∀ name, nul ∉ env.uuid name) (done : unsaved env (fresh filename debug info) = (some (),conf)) :
    Begun env (some info) conf := by
  obtain ⟨_,start,options,done⟩ := bind_done_iff.mp done
  obtain rfl : loaded (fresh filename debug info) = start := congrArg Prod.snd options
  obtain ⟨_,mid,inverter,packs⟩ := bind_done_iff.mp done
  obtain ⟨cfg,modules,empty,absent,mqtt,settled⟩ := loaded_fresh filename debug info
  have initialised : Initialised env (loaded (fresh filename debug info)) := by
    intro mp member
    rw [modules] at member
    cases member
  have unwritten : InFile (some info) conf := by
    have starts : InFile (some info) (loaded (fresh filename debug info)) := ⟨by rw [cfg]; rfl,fun _ => cfg⟩
    have first : InFile (some info) mid := (inverterInit_keeps env (loads_ignores env fun _ _ same => same)
      (inFile_uuid _ _) fun _ _ same => same).done starts inverter
    exact (packInit_keeps env (loads_ignores env fun _ _ same => same) (fun name _ => inFile_uuid _ name)
      (fun _ _ same => same) (fun _ _ same => same) fun _ _ same => same).done first packs
  have read := inverterInit_done plain initialised inverter
  obtain ⟨last,sections,packs,cfg',state',inverter'⟩ := packInit_sections packs
  have named : ∀ name ∈ packNames, name.length < cfgSectionNameSize := fun name member =>
    Nat.lt_trans (packNames_short name member) (by decide)
  have later := packSections_done plain named packNames_apart read.initialised sections
  have sameNames : typedNames mid.cfg packNames = typedNames (some info) packNames := by
    rw [← cfg]
    exact typedNames_congr fun name => read.keywords name _ (by decide)
  have own (name : Text) (member : name ∈ typedNames (some info) packNames) : SameItems (some info) mid.cfg name := by
    rw [← cfg]
    exact read.others name (inverterSection_apart name ((List.takeWhile_sublist _).subset member))
  refine ⟨?_,?_,?_,?_,?_,?_,unwritten.1,unwritten.2⟩
  · rw [inverter',later.inverter,read.inverter,cfg,absent]
  · rw [packs,later.packs,read.packs,empty,List.nil_append,sameNames]
    refine List.flatMap_congr fun name member => ?_
    rw [packEntry_congr env name {} (own name member) (read.mqtt.trans mqtt)]
  · intro typed
    rw [cfg']
    rw [← cfg] at typed ⊢
    exact marked_congr (read.marked typed) (fun _ => rfl)
      (later.others inverterSection fun name member => (inverterSection_apart name member).symm)
  · intro name member
    rw [cfg']
    exact marked_congr (later.marked name (sameNames ▸ member)) (fun keyword => (own name member keyword).symm) fun _ => rfl
  · intro name keyword apart
    rw [cfg',later.keywords name keyword apart,read.keywords name keyword apart,cfg]
  · intro old olds
    rw [← cfg] at old
    obtain ⟨cfg'',state''⟩ := read.clean old
    have kept := later.clean fun name member => by
      rw [cfg'',cfg]
      exact olds name (sameNames ▸ member)
    rw [checkState,state',kept.2,state'']
    exact settled

/-! A start over the file of an earlier one. -/

private theorem inverterEntry_marked {a b : Option CfgInfo} (marked : paramsMarked (booted base disk random) a b)
    (typed : cfgGetItem a inverterSection "type".toList ≠ none) :
    inverterEntry (booted base disk' random') b = inverterEntry (booted base disk random) a := by
  have text := (tabText_marked marked (by decide) (by decide) typed (booted_plain _)).2 (booted base disk' random')
  simp only [inverterEntry,text]
  rfl

structure Again (before after : Conf) : Prop where
  packs : after.packs = before.packs
  inverter : after.inverter = before.inverter
  unwritten : checkState after .configDirty = false

private theorem begun_again {a b : Option CfgInfo} {before after : Conf} (first : Begun (booted base disk random) a before)
    (second : Begun (booted base disk' random') b after) (same : ∀ name, SameItems before.cfg b name) :
    Again before after := by
  have options (name keyword : Text) (apart : toupper keyword ≠ toupper "uuid".toList) :
      cfgGetItem b name keyword = cfgGetItem a name keyword := (same name keyword).trans (first.keywords name keyword apart)
  have names : typedNames b packNames = typedNames a packNames := typedNames_congr fun name => options name _ (by decide)
  have type : cfgGetItem b inverterSection "type".toList = cfgGetItem a inverterSection "type".toList :=
    options _ _ (by decide)
  have mqtt : (fileConf b).mqtt = (fileConf a).mqtt := by
    simp only [fileConf,mqttBuffers,options "mqtt".toList "broker".toList (by decide),
      options "mqtt".toList "topic".toList (by decide),options "mqtt".toList "username".toList (by decide),
      options "mqtt".toList "password".toList (by decide)]
  have params (typed : cfgGetItem a inverterSection "type".toList ≠ none) : paramsMarked (booted base disk random) a b :=
    marked_congr (first.params typed) (fun _ => rfl) (same inverterSection)
  have opts (name : Text) (member : name ∈ typedNames a packNames) : optsMarked (booted base disk random) a name b :=
    marked_congr (first.opts name member) (fun _ => rfl) (same name)
  have short (name : Text) (member : name ∈ typedNames a packNames) : name.length < 32 :=
    packNames_short name ((List.takeWhile_sublist _).subset member)
  have typed (name : Text) (member : name ∈ typedNames a packNames) : cfgGetItem a name "type".toList ≠ none := by
    have held := List.mem_takeWhile_imp (show name ∈ packNames.takeWhile _ from member)
    exact Option.isSome_iff_ne_none.mp held
  refine ⟨?_,?_,?_⟩
  · rw [first.packs,second.packs,names]
    refine List.flatMap_congr fun name member => ?_
    rw [packEntry_marked (a := fileConf a) (b := fileConf b) (opts name member) (short name member) (typed name member) mqtt]
  · rw [first.inverter,second.inverter,type]
    split_ifs with absent
    · rfl
    · exact inverterEntry_marked (params absent) absent
  · apply second.clean
    · rw [type]
      intro present
      exact (tabText_marked (params present) (by decide) (by decide) present (booted_plain _)).1
    · rw [names]
      intro name member
      exact (tabText_marked (opts name member) (by decide) (short name member) (typed name member) (booted_plain _)).1

/-! The file. -/

private theorem find_related {α β : Type} {R : α → α → Prop} {p : α → Bool} {f : α → Option β} {l l' : List α}
    (found : ∀ a b, R a b → p b = p a) (same : ∀ a b, R a b → f b = f a) (related : List.Forall₂ R l l') :
    (l'.find? p).bind f = (l.find? p).bind f := by
  induction related with
  | nil => rfl
  | @cons a b l l' first rest ih =>
    rw [List.find?_cons,List.find?_cons,found a b first]
    cases p a with
    | true => exact same a b first
    | false => exact ih

private theorem sameSections_items {info back : CfgInfo} (same : List.Forall₂ SameSection info.sections back.sections)
    (name : Text) :
    SameItems (some info) (some back) name := by
  intro keyword
  refine find_related (fun a b held => by rw [held.name]) (fun a b held => ?_) same
  refine find_related (fun a b held => by rw [held.keyword]) (fun a b held => ?_) held.items
  exact congrArg some held.value

/-- The file that a start leaves holds what the start has set. -/
private theorem saved_items {env : Env} {info : CfgInfo} {conf : Conf} {disk : Text} (begun : Begun env (some info) conf)
    (read : cfgRead disk = some info) (writable : ∀ info, conf.cfg = some info → Writable info) :
    ∃ back, cfgRead (saved disk conf) = some back ∧ ∀ name, SameItems conf.cfg (some back) name := by
  cases dirty : checkState conf .configDirty with
  | false =>
    have kept := begun.unwritten dirty
    refine ⟨info,?_,fun name keyword => by rw [kept]⟩
    rw [saved,dirty]
    exact read
  | true =>
    obtain ⟨info',cfg⟩ := Option.isSome_iff_exists.mp begun.present
    obtain ⟨back,again,same⟩ := read_written info' (writable info' cfg)
    refine ⟨back,?_,fun name => cfg ▸ sameSections_items same name⟩
    rw [saved,dirty,cfg]
    exact again

private theorem startUp_some {base : Env} {filename : Text} {debug : Int} {random : Text → UuidT} {disk disk' : Text}
    {conf : Conf}
    (begun : startUp base filename debug random disk = some (conf,disk')) :
    ∃ info last, cfgRead disk = some info ∧ Begun (booted base disk random) (some info) last ∧
      conf = writeBack last ∧ disk' = saved disk last := by
  simp only [startUp] at begun
  split at begun
  · cases begun
  · rename_i info read
    split at begun
    · rename_i last done
      cases begun
      exact ⟨info,last,read,unsaved_begun booted_plain done,rfl,rfl⟩
    · cases begun

structure Start where
  debug : Int
  random : Text → UuidT

/-- Starts one after the other, each over the file of the one before. -/
def restarts (base : Env) (filename : Text) : Text → List Start → Option (List Conf × Text)
  | disk, [] => some ([],disk)
  | disk, s :: rest => do
    let (conf,disk) ← startUp base filename s.debug s.random disk
    let (confs,disk) ← restarts base filename disk rest
    return (conf :: confs,disk)

/-- Over all starts after the first one the inverter and the packs are the same, UUIDs and
all, and the file is not written again. -/
theorem identity_survives {base : Env} {filename : Text} {first : Start} {disk disk' : Text} {conf : Conf}
    (begun : startUp base filename first.debug first.random disk = some (conf,disk'))
    (writable : ∀ info, conf.cfg = some info → Writable info) {later : List Start} {confs : List Conf} {disk'' : Text}
    (again : restarts base filename disk' later = some (confs,disk'')) :
    disk'' = disk' ∧ ∀ c ∈ confs, c.packs = conf.packs ∧ c.inverter = conf.inverter := by
  obtain ⟨info,last,read,started,rfl,rfl⟩ := startUp_some begun
  have file : (writeBack last).cfg = last.cfg := by
    unfold writeBack
    split <;> rfl
  rw [file] at writable
  obtain ⟨back,read',same⟩ := saved_items started read writable
  obtain ⟨inverter,packs,_⟩ := writeBack_links last
  rw [packs,inverter]
  induction later generalizing confs disk'' with
  | nil =>
    cases again
    exact ⟨rfl,List.forall_mem_nil _⟩
  | cons s later ih =>
    simp only [restarts,Option.bind_eq_bind,Option.bind_eq_some_iff] at again
    obtain ⟨⟨c,file⟩,next,⟨rest,file'⟩,run,ended⟩ := again
    cases ended
    obtain ⟨info',last',found,started',rfl,rfl⟩ := startUp_some next
    rw [read'] at found
    cases found
    obtain ⟨packs',inverter',clean⟩ := begun_again started started' same
    have unwritten : saved (saved disk last) last' = saved disk last := by
      rw [saved,clean]
      rfl
    rw [unwritten] at run
    obtain ⟨kept,each⟩ := ih run
    obtain ⟨inverter'',packs'',_⟩ := writeBack_links last'
    exact ⟨kept,List.forall_mem_cons.mpr ⟨⟨packs''.trans packs',inverter''.trans inverter'⟩,each⟩⟩

instance (info : CfgInfo) : Decidable (Writable info) :=
  decidable_of_iff ((∀ s ∈ info.sections, WritableSection s) ∧ (info.sections.map CfgSection.name).Nodup)
    ⟨fun ⟨sections,unique⟩ => ⟨sections,unique⟩,fun ⟨sections,unique⟩ => ⟨sections,unique⟩⟩

/-- Two packs, the second of which has a UUID. -/
def bareFile : Text :=
  ("[inverter]\ntype=si\ntransport=can\n\n[pack_01]\ntype=jbd\ntransport=ip\n\n" ++
    "[pack_02]\ntype=preh\ntransport=ip\nuuid=old\n\n").toList

def startOf (b : Arrays.Byte) : Start := ⟨0,fun _ => Vector.replicate 16 b⟩

private theorem bare_begins : (startUp (bench none) [] 0 (startOf 7).random bareFile).isSome = true := by decide +kernel

def bareStart : Conf × Text := (startUp (bench none) [] 0 (startOf 7).random bareFile).get bare_begins

private theorem bare_restarts : (restarts (bench none) [] bareStart.2 [startOf 1,startOf 2]).isSome = true :=
    by decide +kernel

private theorem bare_writable : bareStart.1.cfg.all (fun info => Writable info) = true := by decide +kernel

theorem identity_survives_sample :
    ((restarts (bench none) [] bareStart.2 [startOf 1,startOf 2]).get bare_restarts).2 = bareStart.2 ∧
      ∀ c ∈ ((restarts (bench none) [] bareStart.2 [startOf 1,startOf 2]).get bare_restarts).1,
        c.packs = bareStart.1.packs ∧ c.inverter = bareStart.1.inverter := by
  have begun : startUp (bench none) [] (startOf 7).debug (startOf 7).random bareFile = some bareStart :=
    (Option.some_get bare_begins).symm
  have writable : ∀ info, bareStart.1.cfg = some info → Writable info := by
    intro info cfg
    have held := bare_writable
    rw [cfg] at held
    exact of_decide_eq_true held
  exact identity_survives begun writable (Option.some_get bare_restarts).symm

end Mybmm.Restarts
