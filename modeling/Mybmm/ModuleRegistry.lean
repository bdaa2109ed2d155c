import Mathlib.Data.List.Nodup
import Mybmm.Support.Progress
import Mybmm.Reconfig

/-! The module list over any sequence of loads: what the types asked for have to do
with what a load returns, lists and initialises. -/
namespace Mybmm.ModuleRegistry
open CString Config Modules Machine

/-- One call of `mybmm_load_module`, and what the module's `init` answers if the
call runs it. A module without `init` is as one that answers zero. -/
structure LoadCall where
  name : Text
  type : ModType
  init : Int
deriving DecidableEq, Repr

/-- `initialised` keeps the modules whose `init` has succeeded, once for each time. -/
structure Registry where
  conf : Conf
  initialised : List Module

def empty (conf : Conf) : Registry := ⟨{ conf with modules := [] },[]⟩

/-- `mybmm_get_module`. -/
def getModule (conf : Conf) (name : Text) (type : ModType) : Option Module :=
  conf.modules.find? fun mp => mp.name == name && mp.type == type

variable (env : Env)

def load (s : Registry) (c : LoadCall) : Option Module × Conf :=
  loadModule { env with init := fun _ => c.init } c.name c.type s.conf

def initialises (s : Registry) (c : LoadCall) : Option Module :=
  match getModule s.conf c.name c.type with
  | some _ => none
  | none => (env.symbol c.name).filter fun _ => c.init == 0

def loadAndNote (s : Registry) (c : LoadCall) : Registry :=
  ⟨(load env s c).2,s.initialised ++ (initialises env s c).toList⟩

def step (s : Registry) (c : LoadCall) : Option Registry := some (loadAndNote env s c)

structure Sound (s : Registry) (c : LoadCall) : Prop where
  answer : ∀ mp, (load env s c).1 = some mp → mp.name = c.name ∧ mp.type = c.type
  listed : (loadAndNote env s c).conf.modules.Nodup
  once : (loadAndNote env s c).initialised.Nodup

/-- The symbol of the name is of the type asked for, or is not there, or its `init`
fails. -/
def Typed (c : LoadCall) : Prop := ∀ mp, env.symbol c.name = some mp → c.init = 0 → mp.type = c.type

/-- Between calls each listed module is the symbol of its own name and has been
initialised once. -/
structure Inv (s : Registry) : Prop where
  registered : Registered env s.conf
  nodup : s.conf.modules.Nodup
  initialised : s.initialised = s.conf.modules

inductive Loading (s : Registry) (c : LoadCall) : Prop where
  | cached (mp : Module) (found : getModule s.conf c.name c.type = some mp)
      (answer : load env s c = (some mp,s.conf)) (after : loadAndNote env s c = s)
  | refused (answer : load env s c = (none,s.conf)) (after : loadAndNote env s c = s)
  | loaded (mp : Module) (absent : getModule s.conf c.name c.type = none)
      (symbol : env.symbol c.name = some mp) (ready : c.init = 0)
      (answer : load env s c = (some mp,{ s.conf with modules := s.conf.modules ++ [mp] }))
      (after : loadAndNote env s c =
        ⟨{ s.conf with modules := s.conf.modules ++ [mp] },s.initialised ++ [mp]⟩)

theorem loadModule_cached (name : Text) (type : ModType) (conf : Conf) (mp : Module)
    (found : getModule conf name type = some mp) : loadModule env name type conf = (some mp,conf) := by
  simp only [getModule] at found
  simp only [loadModule,Attempt.gets,bind,found]
  rfl

theorem loadModule_absent (name : Text) (type : ModType) (conf : Conf)
    (absent : getModule conf name type = none) :
    loadModule env name type conf = match env.symbol name with
      | none => (none,conf)
      | some mp =>
        if env.init mp ≠ 0 then (none,conf) else (some mp,{ conf with modules := conf.modules ++ [mp] }) := by
  simp only [getModule] at absent
  simp only [loadModule,Attempt.gets,bind,absent,Attempt.ofOption]
  cases env.symbol name with
  | none => rfl
  | some mp =>
    by_cases failed : env.init mp ≠ 0
    · simp only [if_pos failed]
      exact congrFun (if_pos failed) conf
    · simp only [if_neg failed]
      exact congrFun (if_neg failed) conf

private theorem load_cached (s : Registry) (c : LoadCall) (mp : Module)
    (found : getModule s.conf c.name c.type = some mp) : load env s c = (some mp,s.conf) :=
  loadModule_cached _ c.name c.type s.conf mp found

private theorem load_absent (s : Registry) (c : LoadCall) (absent : getModule s.conf c.name c.type = none) :
    load env s c = match env.symbol c.name with
      | none => (none,s.conf)
      | some mp =>
        if c.init ≠ 0 then (none,s.conf) else (some mp,{ s.conf with modules := s.conf.modules ++ [mp] }) :=
  loadModule_absent _ c.name c.type s.conf absent

private theorem loading (s : Registry) (c : LoadCall) : Loading env s c := by
  cases found : getModule s.conf c.name c.type with
  | some mp =>
    have answer := load_cached env s c mp found
    refine .cached mp found answer ?_
    simp [loadAndNote,answer,initialises,found]
  | none =>
    have answer := load_absent env s c found
    cases symbol : env.symbol c.name with
    | none =>
      rw [symbol] at answer
      refine .refused answer ?_
      simp [loadAndNote,answer,initialises,found,symbol]
    | some mp =>
      rw [symbol] at answer
      by_cases ready : c.init = 0
      · simp only [ready,ne_eq,not_true_eq_false,if_false] at answer
        refine .loaded mp found symbol ready answer ?_
        simp [loadAndNote,answer,initialises,found,symbol,ready,Option.filter]
      · simp only [ready,ne_eq,not_false_eq_true,if_true] at answer
        refine .refused answer ?_
        simp [loadAndNote,answer,initialises,found,symbol,ready,Option.filter]

variable {env}

theorem getModule_some {conf : Conf} {name : Text} {type : ModType} {mp : Module}
    (found : getModule conf name type = some mp) : mp ∈ conf.modules ∧ mp.name = name ∧ mp.type = type := by
  refine ⟨List.mem_of_find?_eq_some found,?_⟩
  simpa using List.find?_some found

private theorem getModule_none {conf : Conf} {name : Text} {type : ModType} (absent : getModule conf name type = none)
    {mp : Module} (listed : mp ∈ conf.modules) (named : mp.name = name) : mp.type ≠ type := by
  intro typed
  have other := List.find?_eq_none.mp absent mp listed
  simp [named,typed] at other

theorem loaded_fresh {s : Registry} {c : LoadCall} {mp : Module}
    (absent : getModule s.conf c.name c.type = none) (symbol : env.symbol c.name = some mp)
    (typed : mp.type = c.type) : mp ∉ s.conf.modules := by
  intro listed
  exact getModule_none absent listed (env.symbol_name _ _ symbol) typed

private theorem loadAndNote_inv {s : Registry} {c : LoadCall} (inv : Inv env s) (typed : Typed env c) :
    Inv env (loadAndNote env s c) := by
  cases loading env s c with
  | cached mp found answer after =>
    rw [after]
    exact inv
  | refused answer after =>
    rw [after]
    exact inv
  | loaded mp absent symbol ready answer after =>
    rw [after]
    have fresh := loaded_fresh absent symbol (typed mp symbol ready)
    refine ⟨?_,?_,?_⟩
    · refine List.forall_mem_append.mpr ⟨inv.registered,List.forall_mem_singleton.mpr ?_⟩
      rw [env.symbol_name c.name mp symbol]
      exact symbol
    · rw [← List.concat_eq_append]
      exact List.Nodup.concat fresh inv.nodup
    · exact congrArg (· ++ [mp]) inv.initialised

private theorem sound_typed {s : Registry} {c : LoadCall} (inv : Inv env s) (typed : Typed env c) :
    Sound env s c := by
  have next := loadAndNote_inv inv typed
  refine ⟨?_,next.nodup,next.initialised ▸ next.nodup⟩
  intro mp result
  cases loading env s c with
  | cached found listed answer after =>
    obtain rfl : found = mp := by simpa [answer] using result
    exact (getModule_some listed).2
  | refused answer after => simp [answer] at result
  | loaded found absent symbol ready answer after =>
    obtain rfl : found = mp := by simpa [answer] using result
    exact ⟨env.symbol_name _ _ symbol,typed found symbol ready⟩

private theorem typed_sound {s : Registry} {c : LoadCall} (inv : Inv env s) (sound : Sound env s c) :
    Typed env c := by
  intro mp symbol ready
  cases loading env s c with
  | cached found listed answer after =>
    obtain ⟨member,named,typed⟩ := getModule_some listed
    have own := inv.registered found member
    rw [named,symbol] at own
    exact Option.some.inj own ▸ typed
  | refused answer after =>
    cases listed : getModule s.conf c.name c.type with
    | some found => simp [load_cached env s c found listed] at answer
    | none => simp [load_absent env s c listed,symbol,ready] at answer
  | loaded found absent symbol' ready' answer after =>
    obtain rfl : mp = found := Option.some.inj (symbol.symm.trans symbol')
    exact (sound.answer mp (by rw [answer])).2

private theorem empty_inv (conf : Conf) : Inv env (empty conf) :=
  ⟨fun _ member => absurd member List.not_mem_nil,List.nodup_nil,rfl⟩

/-- Over every sequence of loads the registry is sound exactly when no call asks for
a loadable symbol under another type than its own. -/
theorem registry_iff (env : Env) (conf : Conf) (calls : List LoadCall) :
    (∀ visit ∈ visits (step env) (empty conf) calls, Sound env visit.1 visit.2) ↔
      ∀ c ∈ calls, Typed env c := by
  rw [visits_iff_while (step env) (Inv env) (Sound env) (fun _ => Typed env)
    (fun s c inv => ⟨typed_sound inv,sound_typed inv⟩)
    (fun s c next inv typed taken => Option.some.inj taken ▸ loadAndNote_inv inv typed) calls _ (empty_inv conf)]
  exact visits_total_iff (loadAndNote env) (Typed env) calls (empty conf)

def mistaken : List LoadCall := List.replicate 2 ⟨"jbd".toList,.transport,0⟩

theorem registry_mixed :
    ¬∀ visit ∈ visits (step (Reconfig.bench none)) (empty {}) mistaken, Sound (Reconfig.bench none) visit.1 visit.2 := by
  intro all
  let twice := loadAndNote (Reconfig.bench none) (empty {}) ⟨"jbd".toList,.transport,0⟩
  have second := all (twice,⟨"jbd".toList,.transport,0⟩) (by simp [visits,mistaken,List.replicate,step,twice])
  have listed : ¬(loadAndNote (Reconfig.bench none) twice ⟨"jbd".toList,.transport,0⟩).conf.modules.Nodup := by
    decide
  exact listed second.listed

end Mybmm.ModuleRegistry
