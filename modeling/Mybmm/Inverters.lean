import Mybmm.Modules

/-! inverter.c: setting an inverter up from its section, and reading it. What
names an inverter or a pack is read alike, so `pack_add` shares `getTab` here. -/
namespace Mybmm.Inverters
open CString Cfg Config Flags Modules Attempt

/-- The text options of a section, for the record whose text memory they fill.
The last one is `params` for an inverter and `opts` for a pack. -/
def textTab (name last : Text) : List (Proctab Memory) :=
  let string (keyword : Text) (offset dlen : Nat) : Proctab Memory :=
    ⟨name,keyword,.string (fun f => f) offset dlen,none⟩
  [string "name".toList 0 32,string "uuid".toList 32 37,string "type".toList 69 32,
    string "transport".toList 101 32,string "target".toList 133 32,string last 165 64]

theorem textTab_own (name last : Text) : ∀ entry ∈ textTab name last, entry.sectionName = name := by
  intro entry member
  simp only [textTab,List.mem_cons,List.not_mem_nil,or_false] at member
  rcases member with rfl | rfl | rfl | rfl | rfl | rfl <;> rfl

def named (name : Text) (text : Memory) : Memory :=
  if cstr text 0 textSize = [] then strcpy text 0 name else text

def keepUuid (name uuid : Text) (conf : Conf) : Conf :=
  setState { conf with cfg := conf.cfg.map fun info => cfgSetItem info name "uuid".toList none uuid }
    .configDirty

theorem keepUuid_cfg (name uuid : Text) (conf : Conf) :
    (keepUuid name uuid conf).cfg = conf.cfg.map fun info => cfgSetItem info name "uuid".toList none uuid := rfl

/-- `get_tab`, and the same part of `pack_add`: a record without a UUID gets one. -/
def getTab (env : Env) (name last : Text) (text : Memory) : Attempt Conf Memory := do
  let cfg ← gets Conf.cfg
  let text := named name (cfgGetTab cfg (textTab name last) text)
  if cstr text 32 (textSize - 32) ≠ [] then return text else
  let text := strcpy text 32 (env.uuid name)
  let uuid := cstr text 32 (textSize - 32)
  modify (keepUuid name uuid)
  return text

def inverterAdd (env : Env) (inv : Inverter) : Attempt Conf Unit := do
  let tp ← loadModule env inv.transport .transport
  let mp ← loadModule env inv.type .inverter
  let handle ← ofOption (env.inverter inv mp tp)
  modify fun conf =>
    { conf with inverter := some { inv with handle := handle, capabilities := mp.capabilities } }

def inverterSection : Text := "inverter".toList

/-- `inverter_init`: a file without an inverter's type sets none up, which is no
error. -/
def inverterInit (env : Env) : Attempt Conf Unit := do
  let type ← gets fun conf => cfgGetItem conf.cfg inverterSection "type".toList
  match type with
  | none => return ()
  | some _ =>
    if env.calloc inverterSection = false then giveUp else
    let text ← getTab env inverterSection "params".toList fun _ => nul
    inverterAdd env { text := text }

def IgnoresUuid (name : Text) (I : Conf → Prop) : Prop := ∀ conf uuid, I conf → I (keepUuid name uuid conf)

theorem getTab_keeps {I : Conf → Prop} (env : Env) (name last : Text) (text : Memory)
    (ignores : IgnoresUuid name I) : Keeps I (getTab env name last text) := by
  refine keeps_bind (keeps_gets _) fun cfg => ?_
  dsimp only
  split
  · exact keeps_pure _
  · exact keeps_bind (keeps_modify _ fun conf inv => ignores conf _ inv) fun _ => keeps_pure _

theorem getTab_reads {I J : Conf → Prop} (env : Env) (file : Option CfgInfo) (name last : Text) (text : Memory)
    (short : name.length < 69) (same : ∀ conf, I conf → ∀ keyword, cfgGetItem conf.cfg name keyword =
      cfgGetItem file name keyword) (weaker : ∀ conf, I conf → J conf) (ignores : IgnoresUuid name J) :
    Triple I (getTab env name last text)
      (fun t conf => (∀ i, 69 ≤ i → t i = cfgGetTab file (textTab name last) text i) ∧ J conf) J := by
  refine triple_bind
    (Q := fun cfg conf => cfgGetTab cfg (textTab name last) text = cfgGetTab file (textTab name last) text ∧ J conf)
    (triple_gets _ fun conf inv => ⟨?_,weaker conf inv⟩) fun cfg => ?_
  · refine cfgGetTab_congr _ _ fun entry member => ?_
    rw [textTab_own name last entry member]
    exact same conf inv _
  · have named_past (t : Memory) (i : Nat) (past : 69 ≤ i) : named name t i = t i := by
      unfold named
      split
      · exact strcpy_after t 0 name i (by omega)
      · rfl
    dsimp only
    split
    · refine triple_pure _ fun conf pre => ⟨fun i past => ?_,pre.2⟩
      rw [named_past _ i past,pre.1]
    · refine triple_bind (Q := fun _ conf =>
          cfgGetTab cfg (textTab name last) text = cfgGetTab file (textTab name last) text ∧ J conf)
        (triple_modify _ fun conf pre => ⟨pre.1,ignores conf _ pre.2⟩) fun _ =>
          triple_pure _ fun conf pre => ⟨fun i past => ?_,pre.2⟩
      have length := env.uuid_length name
      rw [strcpy_after _ _ _ i (by omega),named_past _ i past,pre.1]

theorem inverterAdd_installs {I : Conf → Prop} {Q : Conf → Prop} (env : Env) (inv : Inverter)
    (loads : Loads env I) (installs : ∀ conf inv, I conf → Q { conf with inverter := some inv }) :
    Triple I (inverterAdd env inv) (fun _ => Q) I :=
  triple_bind (loads _ _) fun _ =>
    triple_bind (loads _ _) fun _ =>
      triple_bind (keeps_ofOption _) fun _ => triple_modify _ fun conf kept => installs conf _ kept

theorem inverterInit_installs {P I : Conf → Prop} {Q : Conf → Prop} (env : Env) (loads : Loads env I)
    (uuid : IgnoresUuid inverterSection I) (starts : ∀ conf, P conf → I conf)
    (absent : ∀ conf, P conf → cfgGetItem conf.cfg inverterSection "type".toList = none → Q conf)
    (installs : ∀ conf inv, I conf → Q { conf with inverter := some inv }) :
    Triple P (inverterInit env) (fun _ => Q) I := by
  refine triple_bind (Q := fun type conf => type = cfgGetItem conf.cfg inverterSection "type".toList ∧ P conf)
    (triple_gets _ fun conf pre => ⟨rfl,pre⟩) fun type => ?_
  cases type with
  | none => exact triple_pure () fun conf ⟨missing,pre⟩ => absent conf pre missing.symm
  | some _ =>
    dsimp only
    split
    · exact triple_giveUp fun conf pre => starts conf pre.2
    · intro conf pre
      exact triple_bind (getTab_keeps env _ _ _ uuid)
        (fun text => inverterAdd_installs env { text := text } loads installs) conf (starts conf pre.2)

theorem inverterInit_keeps {I : Conf → Prop} (env : Env) (loads : Loads env I)
    (uuid : IgnoresUuid inverterSection I)
    (installs : ∀ conf inv, I conf → I { conf with inverter := some inv }) : Keeps I (inverterInit env) :=
  inverterInit_installs env loads uuid (fun _ inv => inv) (fun _ inv _ => inv) installs

theorem inverterInit_absent (env : Env) (conf : Conf)
    (absent : cfgGetItem conf.cfg inverterSection "type".toList = none) :
    inverterInit env conf = (some (),conf) := by
  have read : gets (fun conf => cfgGetItem conf.cfg inverterSection "type".toList) conf = (some none,conf) := by
    rw [gets,absent]
  exact bind_done read

/-- What opening and reading the inverter comes to. A read that fails may have
left some of its figures. -/
inductive InverterReply where
  | closed
  | read (result : Int) (frequency batteryVoltage batteryAmps batteryTemp : ℚ)

/-- `inverter_read`, with the frequency its driver keeps in the configuration. -/
def inverterRead (reply : InverterReply) (inv : Inverter) (frequency : ℚ) : Inverter × ℚ :=
  let inv := { inv with state := clear inv.state InverterState.updated }
  match reply with
  | .closed => (inv,frequency)
  | .read result frequency batteryVoltage batteryAmps batteryTemp =>
    let inv := { inv with
      batteryVoltage := batteryVoltage, batteryAmps := batteryAmps, batteryTemp := batteryTemp }
    if result = 0 then ({ inv with state := set inv.state InverterState.updated },frequency)
    else (inv,frequency)

def InverterReply.answers : InverterReply → Bool
  | .closed => false
  | .read result _ _ _ _ => result = 0

end Mybmm.Inverters
