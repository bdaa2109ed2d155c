import Mybmm.ModuleRegistry
import Mybmm.FreshStart
import Mybmm.WorkerPool

/-! `pack_add` and `pack_init` from any state: which pack a section comes to, as a
function of the file and the program alone, and the pool the packs are given. -/
namespace Mybmm.PackLoading
open CString Cfg Config Flags Libc Modules Inverters Packs ModuleRegistry Attempt

/-! Loading from a list in which every module has been initialised. -/

def Initialised (env : Env) (conf : Conf) : Prop :=
  ∀ mp ∈ conf.modules, env.symbol mp.name = some mp ∧ env.init mp = 0

def loadable (env : Env) (name : Text) : Option Module := (env.symbol name).filter fun mp => env.init mp == 0

private theorem loadable_eq_some {env : Env} {name : Text} {mp : Module} :
    loadable env name = some mp ↔ env.symbol name = some mp ∧ env.init mp = 0 := by
  simp [loadable,Option.filter_eq_some_iff]

theorem loadModule_loadable {I : Conf → Prop} (env : Env) (name : Text) (type : ModType)
    (ignores : IgnoresModules I) :
    Triple (fun conf => Initialised env conf ∧ I conf) (loadModule env name type)
      (fun mp conf => loadable env name = some mp ∧ Initialised env conf ∧ I conf)
      (fun conf => loadable env name = none ∧ Initialised env conf ∧ I conf) := by
  intro conf ⟨initialised,inv⟩
  cases found : getModule conf name type with
  | some mp =>
    rw [loadModule_cached env name type conf mp found]
    obtain ⟨member,named,_⟩ := getModule_some found
    refine ⟨loadable_eq_some.mpr ?_,initialised,inv⟩
    rw [← named]
    exact initialised mp member
  | none =>
    rw [loadModule_absent env name type conf found]
    cases symbol : env.symbol name with
    | none => exact ⟨by simp [loadable,symbol],initialised,inv⟩
    | some mp =>
      by_cases failed : env.init mp ≠ 0
      · simp only [if_pos failed]
        exact ⟨by simp [loadable,symbol,Option.filter,failed],initialised,inv⟩
      · simp only [if_neg failed]
        have ready : env.init mp = 0 := not_not.mp failed
        refine ⟨loadable_eq_some.mpr ⟨symbol,ready⟩,?_,ignores conf _ inv⟩
        refine List.forall_mem_append.mpr ⟨initialised,List.forall_mem_singleton.mpr ⟨?_,ready⟩⟩
        rw [env.symbol_name name mp symbol]
        exact symbol

theorem loads_initialised {I : Conf → Prop} (env : Env) (ignores : IgnoresModules I) :
    Loads env fun conf => Initialised env conf ∧ I conf := fun name type =>
  triple_consequence (loadModule_loadable env name type ignores) (fun _ _ post => post.2) fun _ post => post.2

/-! The record and the entry of a section. -/

/-- The text memory `getTab` fills. -/
def tabText (env : Env) (cfg : Option CfgInfo) (name last : Text) (text : Memory) : Memory :=
  let text := named name (cfgGetTab cfg (textTab name last) text)
  if cstr text 32 (textSize - 32) ≠ [] then text else strcpy text 32 (env.uuid name)

private theorem getTab_text {I E : Conf → Prop} (env : Env) (cfg : Option CfgInfo) (name last : Text) (text : Memory)
    (ignores : IgnoresUuid name I) :
    Triple (fun conf => conf.cfg = cfg ∧ I conf) (getTab env name last text)
      (fun t conf => t = tabText env cfg name last text ∧ I conf) E := by
  refine triple_bind (Q := fun found conf => found = cfg ∧ I conf) (triple_gets _ fun conf pre => pre) fun found => ?_
  rw [triple_and_left]
  rintro rfl
  dsimp only [tabText]
  split
  · exact triple_pure _ fun conf inv => ⟨rfl,inv⟩
  · exact triple_bind (Q := fun _ => I) (triple_modify _ fun conf inv => ignores conf _ inv) fun _ =>
      triple_pure _ fun conf inv => ⟨rfl,inv⟩

/-- The record `pack_add` hands to the driver. -/
def packRecord (env : Env) (cfg : Option CfgInfo) (name : Text) (pp : Pack) : Pack :=
  { packCapacity cfg name pp with text := tabText env cfg name "opts".toList pp.text }

def packEntry (env : Env) (conf : Conf) (name : Text) (pp : Pack) : Option Pack :=
  let pp := packRecord env conf.cfg name pp
  if pp.transport = [] then none else do
  let tp ← loadable env pp.transport
  let mp ← loadable env pp.type
  let (handle,cells) ← env.pack pp mp tp
  let session ← (packMqtt env pp.name conf).1
  return { pp with handle := handle, cellvolt := cells, mqttHandle := session, capabilities := mp.capabilities }

theorem packMqtt_reads (env : Env) (name : Text) (conf other : Conf) (same : conf.mqtt = other.mqtt) :
    packMqtt env name conf = ((packMqtt env name other).1,conf) := by
  have broker : conf.mqttBroker = other.mqttBroker := by simp only [Conf.mqttBroker,same]
  have topic : conf.mqttTopic = other.mqttTopic := by simp only [Conf.mqttTopic,same]
  have user : conf.mqttUsername = other.mqttUsername := by simp only [Conf.mqttUsername,same]
  have pass : conf.mqttPassword = other.mqttPassword := by simp only [Conf.mqttPassword,same]
  simp only [packMqtt,gets,bind,broker,topic,user,pass]
  split
  · rfl
  · cases env.mqtt other.mqttBroker name _ other.mqttUsername other.mqttPassword <;> rfl

private theorem packMqtt_bind {β : Type} (env : Env) (name : Text) (conf other : Conf) (same : conf.mqtt = other.mqtt)
    (f : Option Nat → Attempt Conf β) :
    (packMqtt env name >>= f) conf = match (packMqtt env name other).1 with
      | none => (none,conf)
      | some session => f session conf := by
  have read := packMqtt_reads env name conf other same
  cases session : (packMqtt env name other).1 with
  | none => exact bind_gaveUp (session ▸ read)
  | some session => exact bind_done (session ▸ read)

/-- Whether `pack_add` finishes or gives up, it has added the entry of the section
if there is one. -/
private theorem packAdd_entry {I : Conf → Prop} (env : Env) (name : Text) (pp : Pack) (start : Conf)
    (modules : IgnoresModules I) (uuid : IgnoresUuid name I) (packs : IgnoresPacks I) :
    Triple (fun conf => conf = start ∧ Initialised env conf ∧ I conf) (packAdd env name pp)
      (fun _ conf => conf.packs = start.packs ++ (packEntry env start name pp).toList ∧ Initialised env conf ∧ I conf)
      (fun conf => packEntry env start name pp = none ∧ conf.packs = start.packs ∧ Initialised env conf ∧ I conf) := by
  have quiet : IgnoresModules fun conf => conf.packs = start.packs ∧ conf.mqtt = start.mqtt ∧ I conf :=
    fun conf ms inv => ⟨inv.1,inv.2.1,modules conf ms inv.2.2⟩
  refine triple_bind (Q := fun cfg conf => cfg = start.cfg ∧ conf.cfg = start.cfg ∧ Initialised env conf ∧
    conf.packs = start.packs ∧ conf.mqtt = start.mqtt ∧ I conf) (triple_gets _ ?_) fun cfg => ?_
  · rintro conf ⟨rfl,initialised,inv⟩
    exact ⟨rfl,rfl,initialised,rfl,rfl,inv⟩
  rw [triple_and_left]
  rintro rfl
  dsimp only
  refine triple_bind (getTab_text env start.cfg name "opts".toList _ fun conf v inv =>
    ⟨inv.1,inv.2.1,inv.2.2.1,uuid conf v inv.2.2.2⟩) fun text => ?_
  rw [triple_and_left]
  intro filled
  obtain rfl : text = (packRecord env start.cfg name pp).text := by
    rw [filled,packCapacity_text]
    rfl
  have record : { packCapacity start.cfg name pp with text := (packRecord env start.cfg name pp).text } =
      packRecord env start.cfg name pp := rfl
  rw [record]
  have entry := packEntry.eq_def env start name pp
  dsimp only at entry
  split
  · rename_i silent
    rw [if_pos silent] at entry
    exact triple_pure _ fun conf pre => ⟨by simpa [entry] using pre.2.1,pre.1,pre.2.2.2⟩
  · rename_i named
    rw [if_neg named] at entry
    refine triple_bind (triple_consequence (loadModule_loadable env _ _ quiet) (fun _ _ post => post) ?_) fun tp => ?_
    · rintro conf ⟨missing,initialised,inv⟩
      exact ⟨by simp [entry,missing],inv.1,initialised,inv.2.2⟩
    rw [triple_and_left]
    intro transport
    refine triple_bind (triple_consequence (loadModule_loadable env _ _ quiet) (fun _ _ post => post) ?_) fun mp => ?_
    · rintro conf ⟨missing,initialised,inv⟩
      exact ⟨by simp [entry,transport,missing],inv.1,initialised,inv.2.2⟩
    rw [triple_and_left]
    intro driver
    simp only [transport,driver,Option.bind_eq_bind,Option.bind_some] at entry
    refine triple_bind (Q := fun made conf => env.pack (packRecord env start.cfg name pp) mp tp = some made ∧
      Initialised env conf ∧ conf.packs = start.packs ∧ conf.mqtt = start.mqtt ∧ I conf) ?_ fun made => ?_
    · intro conf pre
      rw [ofOption]
      cases made : env.pack (packRecord env start.cfg name pp) mp tp with
      | none => exact ⟨by simp [entry,made],pre.2.1,pre.1,pre.2.2.2⟩
      | some made => exact ⟨rfl,pre⟩
    obtain ⟨handle,cells⟩ := made
    rw [triple_and_left]
    intro made
    simp only [made,Option.bind_some] at entry
    intro conf pre
    obtain ⟨initialised,same,mqtt,inv⟩ := pre
    rw [packMqtt_bind env _ conf start mqtt]
    cases session : (packMqtt env (packRecord env start.cfg name pp).name start).1 with
    | none => exact ⟨by simp [entry,session],same,initialised,inv⟩
    | some session' =>
      refine ⟨?_,initialised,packs conf _ inv⟩
      rw [entry,session]
      exact congrArg (· ++ [_]) same

theorem packAdd_after {I : Conf → Prop} (env : Env) (name : Text) (pp : Pack) (start : Conf)
    (modules : IgnoresModules I) (uuid : IgnoresUuid name I) (packs : IgnoresPacks I)
    (initialised : Initialised env start) (inv : I start) :
    (packAdd env name pp start).2.packs = start.packs ++ (packEntry env start name pp).toList ∧
      Initialised env (packAdd env name pp start).2 ∧ I (packAdd env name pp start).2 := by
  have triple := triple_consequence (packAdd_entry env name pp start modules uuid packs)
    (S := fun _ conf => conf.packs = start.packs ++ (packEntry env start name pp).toList ∧ Initialised env conf ∧ I conf)
    (F := fun conf => conf.packs = start.packs ++ (packEntry env start name pp).toList ∧ Initialised env conf ∧ I conf)
    (fun _ _ post => post) fun conf ⟨missing,same,rest⟩ => ⟨by simp [missing,same],rest⟩
  have ended := triple start ⟨rfl,initialised,inv⟩
  rcases result : packAdd env name pp start with ⟨ending,after⟩
  rw [result] at ended
  cases ending with
  | none => exact ended
  | some _ => exact ended

theorem packEntry_congr (env : Env) {a b : Conf} (name : Text) (pp : Pack)
    (items : ∀ keyword, cfgGetItem a.cfg name keyword = cfgGetItem b.cfg name keyword) (mqtt : a.mqtt = b.mqtt) :
    packEntry env a name pp = packEntry env b name pp := by
  have capacity : packCapacity a.cfg name pp = packCapacity b.cfg name pp := by
    simp only [packCapacity,cfgGetEntry,items]
  have tab (text : Memory) : cfgGetTab a.cfg (textTab name "opts".toList) text =
      cfgGetTab b.cfg (textTab name "opts".toList) text := by
    refine cfgGetTab_congr _ _ fun entry member => ?_
    rw [textTab_own name _ entry member]
    exact items _
  have record : packRecord env a.cfg name pp = packRecord env b.cfg name pp := by
    simp only [packRecord,tabText,capacity,tab]
  have session (owner : Text) : (packMqtt env owner a).1 = (packMqtt env owner b).1 := by
    rw [packMqtt_reads env owner a b mqtt]
  simp only [packEntry,record,session]

/-! What the UUIDs written to the configuration leave as the file has it. -/

def SameOptions (file : Option CfgInfo) (conf : Conf) : Prop :=
  ∀ name keyword, toupper keyword ≠ toupper "uuid".toList →
    cfgGetItem conf.cfg name keyword = cfgGetItem file name keyword

theorem sameOptions_ignoresUuid (file : Option CfgInfo) (name : Text) :
    IgnoresUuid name (SameOptions file) := by
  intro conf uuid same other keyword apart
  rw [← same other keyword apart]
  rw [keepUuid_cfg]
  cases conf.cfg with
  | none => rfl
  | some info => exact cfgSetItem_keyword info name _ none uuid other keyword (by decide) apart

/-- A table of texts reads alike past a point, from files that agree on it and
memories that agree past that point. -/
theorem cfgGetTab_past (a b : Option CfgInfo) (tab : List (Proctab Memory)) (k : Nat) (m n : Memory)
    (texts : ∀ entry ∈ tab, ∃ offset dlen, entry.dest = .string (fun f => f) offset dlen)
    (same : ∀ entry ∈ tab, cfgGetItem a entry.sectionName entry.keyword =
      cfgGetItem b entry.sectionName entry.keyword) (past : ∀ i, k ≤ i → m i = n i) :
    ∀ i, k ≤ i → cfgGetTab a tab m i = cfgGetTab b tab n i := by
  induction tab generalizing m n with
  | nil => exact past
  | cons entry tab ih =>
    rw [cfgGetTab_cons,cfgGetTab_cons]
    refine ih _ _ (fun e member => texts e (by simp [member])) (fun e member => same e (by simp [member])) ?_
    intro i bound
    obtain ⟨offset,dlen,text⟩ := texts entry (by simp)
    have written (src : Text) : convType entry.dest src m i = convType entry.dest src n i := by
      rw [text]
      exact strcpy_congr m n offset _ i (past i bound)
    simp only [cfgGetEntry,same entry (by simp)]
    cases cfgGetItem b entry.sectionName entry.keyword with
    | some p => exact written p
    | none =>
      cases entry.default with
      | some p => exact written p
      | none => exact past i bound

/-- What `worker_create_pool` meets: the allocator, and whether each thread starts. -/
structure Threads where
  mallocPool : Bool
  mallocWorkers : Bool
  create : Nat → Bool

/-- `worker_create_pool`, by the number of its workers: all that were asked for or
no pool. -/
def workerCreatePool (t : Threads) (count : Nat) : Option Nat :=
  if count < 1 then none
  else if t.mallocPool = false then none
  else if t.mallocWorkers = false then none
  else if (List.range count).all t.create = false then none
  else some (WorkerPool.createPool (δ := Unit) count fun _ => []).count

theorem workerCreatePool_some {t : Threads} {count workers : Nat} (made : workerCreatePool t count = some workers) :
    workers = count := by
  unfold workerCreatePool at made
  split at made
  · contradiction
  · split at made
    · contradiction
    · split at made
      · contradiction
      · split at made
        · contradiction
        · exact (Option.some.inj made).symm

def threaded (env : Env) (t : Threads) : Env := { env with pool := workerCreatePool t }

def poolWorkers (conf : Conf) : Nat := conf.packPool.getD 0

theorem packInit_eq (env : Env) (conf : Conf) :
    packInit env conf = match packSections env packNames conf with
      | (none,mid) => (none,mid)
      | (some _,mid) =>
        if mid.packs = [] then (some (),mid)
        else if env.pool mid.packs.length = none then (none,{ mid with packPool := env.pool mid.packs.length })
        else (some (),{ mid with
          packPool := env.pool mid.packs.length
          capabilities := grant (packControls (mid.packs.map Pack.capabilities)) mid.capabilities }) := by
  rcases read : packSections env packNames conf with ⟨ending,mid⟩
  cases ending with
  | none => exact bind_gaveUp read
  | some _ =>
    refine (bind_done read).trans ?_
    have listed : gets Conf.packs mid = (some mid.packs,mid) := rfl
    refine (bind_done listed).trans ?_
    dsimp only
    by_cases empty : mid.packs = []
    · rw [if_pos empty,if_pos empty]
      rfl
    · rw [if_neg empty,if_neg empty]
      have pooled : Attempt.modify (fun conf : Conf => { conf with packPool := env.pool mid.packs.length }) mid =
        (some (),{ mid with packPool := env.pool mid.packs.length }) := rfl
      refine (bind_done pooled).trans ?_
      by_cases missing : env.pool mid.packs.length = none
      · rw [if_pos missing,if_pos missing]
        rfl
      · rw [if_neg missing,if_neg missing]
        rfl

end Mybmm.PackLoading
