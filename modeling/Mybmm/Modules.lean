import Mybmm.Config
import Mybmm.Support.Attempt

/-! module.c, and what the set-up functions meet outside the configuration: the
file, the symbols of the program, the drivers, the allocator and the broker. One
environment answers one reading of the configuration. -/
namespace Mybmm.Modules
open CString Cfg Config

/-- `inverter` and `pack` are the drivers' `new`: the handle, and for a pack the
cells the driver makes room for, unless it fails. -/
structure Env where
  cfgRead : Option CfgInfo
  symbol : Text → Option Module
  symbol_name : ∀ name mp, symbol name = some mp → mp.name = name
  init : Module → Int
  inverter : Inverter → Module → Module → Option Nat
  pack : Pack → Module → Module → Option (Nat × List ℚ)
  uuid : Text → Text
  uuid_length : ∀ name, (uuid name).length = 36
  calloc : Text → Bool
  pool : Nat → Option Nat
  mqtt : (broker clientid topic user pass : Text) → Option Nat

/-- `mybmm_load_module`: the module in the list with that name and type, or else
the symbol of that name, of whatever type, once its `init` has succeeded. -/
def loadModule (env : Env) (name : Text) (type : ModType) : Attempt Conf Module := do
  let modules ← Attempt.gets Conf.modules
  match modules.find? (fun mp => mp.name == name && mp.type == type) with
  | some mp => return mp
  | none =>
    let mp ← Attempt.ofOption (env.symbol name)
    if env.init mp ≠ 0 then Attempt.giveUp else
    Attempt.modify fun conf => { conf with modules := conf.modules ++ [mp] }
    return mp

open Attempt

def IgnoresModules (I : Conf → Prop) : Prop := ∀ conf modules, I conf → I { conf with modules := modules }

private theorem loadModule_keeps {I : Conf → Prop} (env : Env) (name : Text) (type : ModType)
    (ignores : IgnoresModules I) : Keeps I (loadModule env name type) := by
  refine keeps_bind (keeps_gets _) fun modules => ?_
  cases modules.find? _ with
  | some mp => exact keeps_pure mp
  | none =>
    refine keeps_bind (keeps_ofOption _) fun mp => ?_
    split
    · exact keeps_giveUp
    · exact keeps_bind (keeps_modify _ fun conf inv => ignores conf _ inv) fun _ => keeps_pure mp

def Registered (env : Env) (conf : Conf) : Prop := ∀ mp ∈ conf.modules, env.symbol mp.name = some mp

theorem loadModule_registered {I : Conf → Prop} (env : Env) (name : Text) (type : ModType)
    (ignores : IgnoresModules I) :
    Triple (fun conf => Registered env conf ∧ I conf) (loadModule env name type)
      (fun mp conf => env.symbol name = some mp ∧ Registered env conf ∧ I conf)
      (fun conf => Registered env conf ∧ I conf) := by
  refine triple_bind (Q := fun modules conf => modules = conf.modules ∧ Registered env conf ∧ I conf)
    (triple_gets _ fun conf pre => ⟨rfl,pre⟩) fun modules => ?_
  cases found : modules.find? (fun mp => mp.name == name && mp.type == type) with
  | some mp =>
    refine triple_pure mp fun conf ⟨listed,registered,inv⟩ => ⟨?_,registered,inv⟩
    have member : mp ∈ conf.modules := listed ▸ List.mem_of_find?_eq_some found
    have named : mp.name = name ∧ mp.type = type := by simpa using List.find?_some found
    rw [← named.1]
    exact registered mp member
  | none =>
    refine triple_bind (Q := fun mp conf => env.symbol name = some mp ∧ Registered env conf ∧ I conf)
      (triple_ofOption _ (fun mp conf symbol pre => ⟨symbol,pre.2⟩) fun conf pre => pre.2) fun mp => ?_
    split
    · exact triple_giveUp fun conf pre => pre.2
    · refine triple_bind (Q := fun _ conf => env.symbol name = some mp ∧ Registered env conf ∧ I conf)
        (triple_modify _ fun conf ⟨symbol,registered,inv⟩ => ⟨symbol,?_,ignores conf _ inv⟩)
        fun _ => triple_pure mp fun conf post => post
      refine List.forall_mem_append.mpr ⟨registered,List.forall_mem_singleton.mpr ?_⟩
      rw [env.symbol_name name mp symbol]
      exact symbol

def Loads (env : Env) (I : Conf → Prop) : Prop := ∀ name type, Keeps I (loadModule env name type)

theorem loads_ignores {I : Conf → Prop} (env : Env) (ignores : IgnoresModules I) : Loads env I :=
  fun name type => loadModule_keeps env name type ignores

theorem loads_registered {I : Conf → Prop} (env : Env) (ignores : IgnoresModules I) :
    Loads env fun conf => Registered env conf ∧ I conf := fun name type =>
  triple_consequence (loadModule_registered env name type ignores) (fun _ _ post => post.2) fun _ post => post

theorem loads_and {I J : Conf → Prop} {env : Env} (left : Loads env I) (right : Loads env J) :
    Loads env fun conf => I conf ∧ J conf := fun name type => triple_and (left name type) (right name type)

/-- Configurations that setting drivers up cannot tell apart. -/
structure Alike (a b : Conf) : Prop where
  modules : a.modules = b.modules
  packs : a.packs = b.packs
  cfg : a.cfg = b.cfg
  broker : a.mqttBroker = b.mqttBroker
  topic : a.mqttTopic = b.mqttTopic
  username : a.mqttUsername = b.mqttUsername
  password : a.mqttPassword = b.mqttPassword

end Mybmm.Modules
