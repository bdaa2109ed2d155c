import Mathlib.Data.List.Forall2
import Mybmm.Inverters

/-! pack.c: setting packs up from their sections, and reading them all through
the worker pool. The jobs of one round touch different packs, so a round is
given by what each pack's job comes to. -/
namespace Mybmm.Packs
open CString Cfg Config Flags Libc Modules Inverters Attempt

def packCapacity (cfg : Option CfgInfo) (packname : Text) (pp : Pack) : Pack :=
  cfgGetEntry cfg ⟨packname,"capacity".toList,.float (fun v pp => { pp with capacity := v }),none⟩ pp

@[simp] theorem packCapacity_text (cfg : Option CfgInfo) (packname : Text) (pp : Pack) :
    (packCapacity cfg packname pp).text = pp.text := by
  unfold packCapacity cfgGetEntry
  cases cfgGetItem cfg packname "capacity".toList <;> rfl

def packMqtt (env : Env) (name : Text) : Attempt Conf (Option Nat) := do
  let broker ← gets Conf.mqttBroker
  let topic ← gets Conf.mqttTopic
  let user ← gets Conf.mqttUsername
  let pass ← gets Conf.mqttPassword
  if broker = [] then return none else
  match env.mqtt broker name (topic ++ '/' :: name) user pass with
  | none => giveUp
  | some session => return some session

def listPack (pp : Pack) (conf : Conf) : Conf := { conf with packs := conf.packs ++ [pp] }

/-- `pack_add`. A pack without a transport is accepted but not registered. -/
def packAdd (env : Env) (packname : Text) (pp : Pack) : Attempt Conf Unit := do
  let cfg ← gets Conf.cfg
  let pp := packCapacity cfg packname pp
  let text ← getTab env packname "opts".toList pp.text
  let pp := { pp with text := text }
  if pp.transport = [] then return () else
  let tp ← loadModule env pp.transport .transport
  let mp ← loadModule env pp.type .cellmon
  let (handle,cells) ← ofOption (env.pack pp mp tp)
  let session ← packMqtt env pp.name
  modify (listPack { pp with
    handle := handle, cellvolt := cells, mqttHandle := session, capabilities := mp.capabilities })

def maxPacks : Nat := 32

/-- `sprintf(name,"pack_%02d",i+1)`. -/
def packName (i : Nat) : Text :=
  "pack_".toList ++ (if i + 1 < 10 then '0' :: (Nat.toDigits 10 (i + 1)) else Nat.toDigits 10 (i + 1))

def packNames : List Text := (List.range maxPacks).map packName

/-- The first loop of `pack_init`: up to the first section without a type. -/
def packSections (env : Env) : List Text → Attempt Conf Unit
  | [] => return ()
  | name :: rest => do
    let type ← gets fun conf => cfgGetItem conf.cfg name "type".toList
    match type with
    | none => return ()
    | some _ =>
      if env.calloc name = false then giveUp else
      packAdd env name {}
      packSections env rest

/-- The second loop of `pack_init`: whether all packs have charge and discharge
control, by their masks. A pack without the first is not asked for the second. -/
def packControls (masks : List (BitVec 16)) : Bool × Bool :=
  masks.foldl (fun (c,d) mask =>
    if !check mask Capability.chargeControl then (false,d)
    else if !check mask Capability.dischargeControl then (c,false)
    else (c,d)) (true,true)

/-- What `pack_init` makes of the answer: capabilities are set, never cleared. -/
def grant (controls : Bool × Bool) (capabilities : BitVec 16) : BitVec 16 :=
  let capabilities := if controls.1 then set capabilities Capability.chargeControl else capabilities
  if controls.2 then set capabilities Capability.dischargeControl else capabilities

def granted (masks : List (BitVec 16)) (capabilities : BitVec 16) : BitVec 16 :=
  if masks = [] then capabilities else grant (packControls masks) capabilities

def packInit (env : Env) : Attempt Conf Unit := do
  packSections env packNames
  let packs ← gets Conf.packs
  if packs = [] then return () else
  modify fun conf => { conf with packPool := env.pool packs.length }
  if env.pool packs.length = none then giveUp else
  modify fun conf => { conf with capabilities := grant (packControls (packs.map Pack.capabilities)) conf.capabilities }

/-! Which packs a file sets up, and that nothing else does. -/

def sectionText (file : Option CfgInfo) (name : Text) : Memory :=
  cfgGetTab file (textTab name "opts".toList) fun _ => nul

def sectionType (file : Option CfgInfo) (name : Text) : Text :=
  cstr (sectionText file name) 69 (textSize - 69)

def sectionTransport (file : Option CfgInfo) (name : Text) : Text :=
  cstr (sectionText file name) 101 (textSize - 101)

def sections (file : Option CfgInfo) : List Text → List Text
  | [] => []
  | name :: rest =>
    if cfgGetItem file name "type".toList = none then []
    else if sectionTransport file name = [] then sections file rest
    else name :: sections file rest

structure SetUp (env : Env) (file : Option CfgInfo) (name : Text) (pp : Pack) : Prop where
  type : pp.type = sectionType file name
  driver : ∃ mp, env.symbol (sectionType file name) = some mp ∧ pp.capabilities = mp.capabilities

def Untouched (file : Option CfgInfo) (names : List Text) (conf : Conf) : Prop :=
  ∀ name ∈ names, ∀ keyword, cfgGetItem conf.cfg name keyword = cfgGetItem file name keyword

theorem untouched_ignoresUuid (file : Option CfgInfo) (names : List Text) (name : Text)
    (fits : name.length ≤ cfgSectionNameSize) (apart : ∀ other ∈ names, toupper other ≠ toupper name) :
    IgnoresUuid name (Untouched file names) := by
  intro conf uuid untouched other member keyword
  rw [← untouched other member keyword]
  rw [keepUuid_cfg]
  cases conf.cfg with
  | none => rfl
  | some info => exact cfgSetItem_other info name _ none uuid other keyword fits (apart other member)

theorem packMqtt_keeps {I : Conf → Prop} (env : Env) (name : Text) : Keeps I (packMqtt env name) := by
  refine keeps_bind (keeps_gets _) fun broker => keeps_bind (keeps_gets _) fun topic =>
    keeps_bind (keeps_gets _) fun user => keeps_bind (keeps_gets _) fun pass => ?_
  split
  · exact keeps_pure none
  · cases env.mqtt broker name _ user pass with
    | none => exact keeps_giveUp
    | some session => exact keeps_pure (some session)

private theorem packAdd_registers (env : Env) (file : Option CfgInfo) (name : Text) (rest : List Text)
    (packs : List Pack) (fits : name.length ≤ cfgSectionNameSize)
    (apart : ∀ other ∈ rest, toupper other ≠ toupper name) :
    Triple (fun conf => Registered env conf ∧ conf.packs = packs ∧ Untouched file (name :: rest) conf)
      (packAdd env name {})
      (fun _ conf => Registered env conf ∧ Untouched file rest conf ∧ ∃ new, conf.packs = packs ++ new ∧
        List.Forall₂ (SetUp env file) (if sectionTransport file name = [] then [] else [name]) new)
      (fun conf => Registered env conf ∧ conf.packs = packs ∧ Untouched file rest conf) := by
  have fits' : name.length < 69 := by simp only [cfgSectionNameSize] at fits; omega
  have quiet : IgnoresModules fun conf => conf.packs = packs ∧ Untouched file rest conf :=
    fun conf modules inv => inv
  refine triple_bind (Q := fun _ conf => Registered env conf ∧ conf.packs = packs ∧
    Untouched file (name :: rest) conf) (triple_gets _ fun conf pre => pre) fun cfg => ?_
  dsimp only
  refine triple_bind (getTab_reads
    (J := fun conf => Registered env conf ∧ conf.packs = packs ∧ Untouched file rest conf)
    env file name "opts".toList _ fits' (fun conf pre => pre.2.2 name (by simp))
    (fun conf pre => ⟨pre.1,pre.2.1,fun other member => pre.2.2 other (by simp [member])⟩)
    (fun conf uuid inv => ⟨inv.1,inv.2.1,untouched_ignoresUuid file rest name fits apart conf uuid inv.2.2⟩))
    fun text => ?_
  simp only [packCapacity_text]
  rw [triple_and_left]
  intro reads
  have type : cstr text 69 (textSize - 69) = sectionType file name := cstr_congr _ _ _ _ reads
  have transport : cstr text 101 (textSize - 101) = sectionTransport file name :=
    cstr_congr _ _ _ _ fun i past => reads i (by omega)
  split
  · rename_i local'
    have silent : sectionTransport file name = [] := transport.symm.trans local'
    refine triple_pure _ fun conf pre => ⟨pre.1,pre.2.2,[],by simpa using pre.2.1,?_⟩
    simp [silent]
  · rename_i remote
    have named : sectionTransport file name ≠ [] := fun silent => remote (transport.trans silent)
    refine triple_bind (loadModule_registered env _ _ quiet) fun tp => ?_
    refine triple_bind (triple_weaken (loadModule_registered env _ _ quiet) fun conf pre => pre.2) fun mp => ?_
    rw [triple_and_left]
    intro symbol
    refine triple_bind (keeps_ofOption _) fun made => ?_
    obtain ⟨handle,cells⟩ := made
    refine triple_bind (packMqtt_keeps env _) fun session => ?_
    refine triple_modify _ fun conf pre => ?_
    refine ⟨pre.1,pre.2.2,[_],congrArg (· ++ [_]) pre.2.1,?_⟩
    rw [if_neg named]
    refine List.Forall₂.cons ⟨type,mp,?_,rfl⟩ List.Forall₂.nil
    rw [← type]
    exact symbol

theorem packSections_registers (env : Env) (file : Option CfgInfo) (names : List Text) (packs : List Pack)
    (fits : ∀ name ∈ names, name.length ≤ cfgSectionNameSize)
    (apart : names.Pairwise fun name other => toupper other ≠ toupper name) :
    Triple (fun conf => Registered env conf ∧ conf.packs = packs ∧ Untouched file names conf)
      (packSections env names)
      (fun _ conf => ∃ new, conf.packs = packs ++ new ∧ List.Forall₂ (SetUp env file) (sections file names) new)
      (fun conf => ∃ done new, done <+: sections file names ∧ conf.packs = packs ++ new ∧
        List.Forall₂ (SetUp env file) done new) := by
  induction names generalizing packs with
  | nil => exact triple_pure () fun conf pre => ⟨[],by simpa using pre.2.1,.nil⟩
  | cons name rest ih =>
    obtain ⟨first,others⟩ := List.pairwise_cons.mp apart
    refine triple_bind (Q := fun type conf => type = cfgGetItem file name "type".toList ∧
        Registered env conf ∧ conf.packs = packs ∧ Untouched file (name :: rest) conf)
      (triple_gets _ fun conf pre => ⟨pre.2.2 name (by simp) _,pre⟩) fun type => ?_
    rw [triple_and_left]
    intro known
    cases type with
    | none =>
      refine triple_pure () fun conf pre => ⟨[],by simpa using pre.2.1,?_⟩
      rw [sections,if_pos known.symm]
      exact .nil
    | some _ =>
      have typed : cfgGetItem file name "type".toList ≠ none := known ▸ Option.some_ne_none _
      have listed : sections file (name :: rest) =
          (if sectionTransport file name = [] then [] else [name]) ++ sections file rest := by
        rw [sections,if_neg typed]
        split <;> rfl
      rw [listed]
      dsimp only
      split
      · exact triple_giveUp fun conf pre => ⟨[],[],List.nil_prefix,by simpa using pre.2.1,.nil⟩
      · refine triple_bind (triple_consequence
          (packAdd_registers env file name rest packs (fits name (by simp)) first) (fun _ _ post => post)
          fun conf post => ⟨[],[],List.nil_prefix,by simpa using post.2.1,.nil⟩) fun _ => ?_
        intro conf ⟨registered,untouched,new,same,setUp⟩
        have later := ih (packs ++ new) (fun other member => fits other (by simp [member])) others
        refine triple_consequence later (fun _ after => ?_) (fun after => ?_) conf ⟨registered,same,untouched⟩
        · rintro ⟨more,same',setUp'⟩
          exact ⟨new ++ more,by rw [same',List.append_assoc],List.rel_append setUp setUp'⟩
        · rintro ⟨done,more,part,same',setUp'⟩
          exact ⟨_ ++ done,new ++ more,List.prefix_append_right_inj _ |>.mpr part,
            by rw [same',List.append_assoc],List.rel_append setUp setUp'⟩

theorem packNames_fit : ∀ name ∈ packNames, name.length ≤ cfgSectionNameSize := by decide +kernel

theorem packNames_apart : packNames.Pairwise fun name other => toupper other ≠ toupper name := by decide +kernel

/-- The packs that have been registered when `pack_init` ends are those of the
file's sections, or of the first of them when it fails. -/
theorem packInit_registers (env : Env) (file : Option CfgInfo) :
    Triple (fun conf => Registered env conf ∧ conf.packs = [] ∧ Untouched file packNames conf) (packInit env)
      (fun _ conf => List.Forall₂ (SetUp env file) (sections file packNames) conf.packs)
      (fun conf => ∃ done, done <+: sections file packNames ∧ List.Forall₂ (SetUp env file) done conf.packs) := by
  have first := triple_consequence (packSections_registers env file packNames [] packNames_fit packNames_apart)
    (S := fun _ conf => List.Forall₂ (SetUp env file) (sections file packNames) conf.packs)
    (F := fun conf => ∃ done, done <+: sections file packNames ∧ List.Forall₂ (SetUp env file) done conf.packs)
    (fun _ conf ⟨new,same,setUp⟩ => by rwa [same,List.nil_append])
    (fun conf ⟨done,new,part,same,setUp⟩ => ⟨done,part,by rwa [same,List.nil_append]⟩)
  refine triple_bind first fun _ => triple_consequence
    (E := fun conf => List.Forall₂ (SetUp env file) (sections file packNames) conf.packs)
    ?_ (fun _ conf post => post) fun conf setUp => ⟨_,List.prefix_rfl,setUp⟩
  refine keeps_bind (keeps_gets _) fun packs => ?_
  split
  · exact keeps_pure ()
  · refine keeps_bind (keeps_modify _ fun conf setUp => setUp) fun _ => ?_
    split
    · exact keeps_giveUp
    · exact keeps_modify _ fun conf setUp => setUp

def IgnoresPacks (I : Conf → Prop) : Prop := ∀ conf packs, I conf → I { conf with packs := packs }

theorem packAdd_keeps {I : Conf → Prop} (env : Env) (name : Text) (pp : Pack) (loads : Loads env I)
    (uuid : IgnoresUuid name I) (packs : IgnoresPacks I) : Keeps I (packAdd env name pp) := by
  refine keeps_bind (keeps_gets _) fun cfg => keeps_bind (getTab_keeps env _ _ _ uuid) fun text => ?_
  dsimp only
  split
  · exact keeps_pure ()
  · exact keeps_bind (loads _ _) fun tp =>
      keeps_bind (loads _ _) fun mp => keeps_bind (keeps_ofOption _) fun made =>
        keeps_bind (packMqtt_keeps env _) fun session => keeps_modify _ fun conf inv => packs conf _ inv

theorem packSections_keeps {I : Conf → Prop} (env : Env) (names : List Text) (loads : Loads env I)
    (uuid : ∀ name ∈ names, IgnoresUuid name I) (packs : IgnoresPacks I) : Keeps I (packSections env names) := by
  induction names with
  | nil => exact keeps_pure ()
  | cons name rest ih =>
    refine keeps_bind (keeps_gets _) fun type => ?_
    cases type with
    | none => exact keeps_pure ()
    | some _ =>
      dsimp only
      split
      · exact keeps_giveUp
      · exact keeps_bind (packAdd_keeps env name {} loads (uuid name (by simp)) packs) fun _ =>
          ih fun other member => uuid other (by simp [member])

/-- A failing `pack_init` grants nothing; a successful one adds what its packs have. -/
theorem packInit_grants {I : Conf → Prop} (env : Env) (capabilities : BitVec 16) (loads : Loads env I)
    (uuid : ∀ name ∈ packNames, IgnoresUuid name I) (packs : IgnoresPacks I)
    (pool : ∀ conf pool, I conf → I { conf with packPool := pool })
    (grants : ∀ conf capabilities, I conf → I { conf with capabilities := capabilities }) :
    Triple (fun conf => conf.capabilities = capabilities ∧ I conf) (packInit env)
      (fun _ conf => conf.capabilities = granted (conf.packs.map Pack.capabilities) capabilities ∧ I conf)
      (fun conf => conf.capabilities = capabilities ∧ I conf) := by
  refine triple_bind (packSections_keeps env packNames
    (loads_and (loads_ignores env fun conf ms same => same) loads)
    (fun name member conf v inv => ⟨inv.1,uuid name member conf v inv.2⟩) fun conf ps inv => ⟨inv.1,packs conf ps inv.2⟩)
    fun _ => ?_
  refine triple_bind (Q := fun listed conf => listed = conf.packs ∧ conf.capabilities = capabilities ∧ I conf)
    (triple_gets _ fun conf inv => ⟨rfl,inv⟩) fun listed => ?_
  split
  · rename_i empty
    refine triple_pure () fun conf pre => ⟨?_,pre.2.2⟩
    rw [← pre.1,empty]
    exact pre.2.1
  · rename_i some
    refine triple_bind (Q := fun _ conf => listed = conf.packs ∧ conf.capabilities = capabilities ∧ I conf)
      (triple_modify _ fun conf pre => ⟨pre.1,pre.2.1,pool conf _ pre.2.2⟩) fun _ => ?_
    split
    · exact triple_giveUp fun conf pre => pre.2
    · refine triple_modify _ fun conf pre => ⟨?_,grants conf _ pre.2.2⟩
      have any : conf.packs.map Pack.capabilities ≠ [] := fun none =>
        some (pre.1.trans (List.map_eq_nil_iff.mp none))
      rw [granted,if_neg any,← pre.1,← pre.2.1]

theorem packInit_keeps {I : Conf → Prop} (env : Env) (loads : Loads env I)
    (uuid : ∀ name ∈ packNames, IgnoresUuid name I) (packs : IgnoresPacks I)
    (pool : ∀ conf pool, I conf → I { conf with packPool := pool })
    (grants : ∀ conf capabilities, I conf → I { conf with capabilities := capabilities }) :
    Keeps I (packInit env) := by
  intro conf inv
  exact triple_consequence (packInit_grants env conf.capabilities loads uuid packs pool grants)
    (fun _ after post => post.2) (fun after post => post.2) conf ⟨rfl,inv⟩

structure PackReading where
  charging : Bool
  discharging : Bool
  balancing : Bool
  capacity : ℚ
  voltage : ℚ
  current : ℚ
  temps : List ℚ
  cellvolt : List ℚ

def put (s : BitVec 16) (v : PackState) (on : Bool) : BitVec 16 := if on then set s v else clear s v

def PackReading.store (r : PackReading) (pp : Pack) : Pack :=
  { pp with
    state := put (put (put pp.state .charging r.charging) .discharging r.discharging) .balancing r.balancing
    capacity := r.capacity
    voltage := r.voltage
    current := r.current
    temps := r.temps
    cellvolt := r.cellvolt }

/-- What the job of one pack comes to. A read that fails, or whose job is killed
before it returns, may have left some of its figures. -/
inductive PackReply where
  | closed
  | failed (r : PackReading)
  | read (r : PackReading)

def PackReply.answers : PackReply → Bool
  | .read _ => true
  | _ => false

structure Extent where
  min : ℚ
  max : ℚ
  total : ℚ

def Extent.add (e : Extent) (v : ℚ) : Extent where
  min := if v < e.min then v else e.min
  max := if v > e.max then v else e.max
  total := e.total + v

/-- `pack_update`, under the limit its configuration has at the time. -/
def packUpdate (cellCritHigh : ℚ) (reply : PackReply) (pp : Pack) : Pack :=
  match reply with
  | .closed => pp
  | .failed r => r.store pp
  | .read r =>
    let pp := r.store pp
    let pp := { pp with state := set pp.state PackState.updated }
    let extent := pp.cellvolt.foldl Extent.add ⟨cellCritHigh,0,0⟩
    { pp with
      cellMin := extent.min
      cellMax := extent.max
      cellDiff := extent.max - extent.min
      cellAvg := extent.total / pp.cellvolt.length
      voltage := if truncate pp.voltage = 0 then extent.total else pp.voltage }

/-- The limit `pack_update_all` puts in place of the configured one. -/
def updateCritHigh : ℚ := 9.9

/-- One round over the packs. Packs past the given replies do not open. -/
def updatePacks (pool : Option Nat) : List PackReply → List Pack → List Pack
  | _, [] => []
  | replies, pp :: rest =>
    let pp := { pp with state := clear pp.state PackState.updated }
    let pp := if pool.isSome then packUpdate updateCritHigh (replies.headD .closed) pp else pp
    pp :: updatePacks pool replies.tail rest

theorem packUpdate_updated (cellCritHigh : ℚ) (reply : PackReply) (pp : Pack)
    (cleared : check pp.state PackState.updated = false) :
    check (packUpdate cellCritHigh reply pp).state PackState.updated = reply.answers := by
  cases reply with
  | closed => exact cleared
  | failed r =>
    have kept (s : BitVec 16) (v : PackState) (on : Bool) (other : v ≠ .updated) :
        check (put s v on) PackState.updated = check s PackState.updated := by
      cases on <;> simp [put,other]
    simp only [packUpdate,PackReading.store,PackReply.answers]
    rw [kept _ _ _ (by decide),kept _ _ _ (by decide),kept _ _ _ (by decide),cleared]
  | read r => simp [packUpdate,PackReply.answers]

def packUpdateAll (replies : List PackReply) (conf : Conf) : Conf :=
  { conf with
    cellCritHigh := updateCritHigh
    packs := updatePacks conf.packPool replies conf.packs }

end Mybmm.Packs
