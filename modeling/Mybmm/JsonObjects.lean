import Mathlib.Data.Rat.Defs
import Mybmm.Json

/-! What an object holds after values were put into it, by name and by path. -/
namespace Mybmm.Json
open CString

variable {ν : Type}

private theorem names_overwrite (name : Text) (value : Value ν) (object : Members ν) :
    names (overwrite name value object) = names object := by
  induction object with
  | nil => rfl
  | cons m object ih =>
    rw [overwrite]
    split
    · rename_i same
      rw [names,names,List.map_cons,List.map_cons,same]
    · rw [names,List.map_cons]
      exact congrArg (m.1 :: ·) ih

private theorem getn_cons (m : Text × Value ν) (object : Members ν) (name : Text) :
    jsonObjectGetnValue (m :: object) name = if m.1 = name then some m.2 else jsonObjectGetnValue object name := by
  rw [jsonObjectGetnValue,List.find?_cons]
  split_ifs with same <;> simp [same,jsonObjectGetnValue]

private theorem getn_append (object object' : Members ν) (name : Text) :
    jsonObjectGetnValue (object ++ object') name = (jsonObjectGetnValue object name).or (jsonObjectGetnValue object' name) := by
  induction object with
  | nil => rfl
  | cons m object ih =>
    rw [List.cons_append,getn_cons,getn_cons,ih]
    split_ifs <;> rfl

private theorem getn_overwrite {object : Members ν} {name : Text} (held : name ∈ names object) (value : Value ν)
    (other : Text) :
    jsonObjectGetnValue (overwrite name value object) other =
      if other = name then some value else jsonObjectGetnValue object other := by
  induction object with
  | nil => cases held
  | cons m object ih =>
    rw [overwrite]
    split
    · rename_i same
      rw [getn_cons,getn_cons,same]
      simp only [eq_comm (a := name)]
      split_ifs <;> rfl
    · rename_i differ
      have inside : name ∈ names object := (List.mem_cons.mp held).resolve_left (Ne.symm differ)
      rw [getn_cons,getn_cons,ih inside]
      split_ifs with first second
      · exact absurd (first.trans second) differ
      · rfl
      · rfl
      · rfl

private theorem getn_none {object : Members ν} {name : Text} :
    jsonObjectGetnValue object name = none ↔ name ∉ names object := by
  rw [← getn_isSome,Option.not_isSome_iff_eq_none]

/-- What one setting does: the value is held under its name, and everything else as before. -/
structure Holds (object : Members ν) (name : Text) (value : Value ν) (object' : Members ν) : Prop where
  get : ∀ other, jsonObjectGetnValue object' other =
    if other = name then some value else jsonObjectGetnValue object other
  keys : names object' = if name ∈ names object then names object else names object ++ [name]

private theorem holds_overwrite {object : Members ν} {name : Text} (held : name ∈ names object) (value : Value ν) :
    Holds object name value (overwrite name value object) where
  get := getn_overwrite held value
  keys := by rw [names_overwrite,if_pos held]

private theorem holds_addn {object : Members ν} {name : Text} (new : name ∉ names object) (value : Value ν) :
    Holds object name value (object ++ [(name,value)]) where
  get other := by
    rw [getn_append,getn_cons]
    simp only [eq_comm (a := name)]
    split_ifs with same
    · rw [same,getn_none.mpr new]
      rfl
    · exact Option.or_none
  keys := by
    rw [names,List.map_append,if_neg new]
    rfl

theorem Holds.distinct {object object' : Members ν} {name : Text} {value : Value ν}
    (holds : Holds object name value object') (distinct : (names object).Nodup) : (names object').Nodup := by
  rw [holds.keys]
  split_ifs with held
  · exact distinct
  · rw [List.nodup_append]
    refine ⟨distinct,List.nodup_singleton name,?_⟩
    rintro k old k' new rfl
    rw [List.mem_singleton.mp new] at old
    exact held old

private theorem set_holds (object : Members ν) (name : Text) (value : Value ν) :
    ∃ object', jsonObjectSetValue object name (some value) = some object' ∧ Holds object name value object' := by
  by_cases held : name ∈ names object
  · refine ⟨_,?_,holds_overwrite held value⟩
    rw [jsonObjectSetValue,if_pos (getn_isSome.mpr held)]
  · refine ⟨_,?_,holds_addn held value⟩
    rw [jsonObjectSetValue,if_neg (mt getn_isSome.mp held),addn_new value held]

/-! Settings one after the other, none of which looks at the status. -/

abbrev Settings (ν : Type) := List (Text × Option (Value ν))

def setAll : Members ν → Settings ν → Members ν
  | object, [] => object
  | object, (name,value) :: settings => setAll ((jsonObjectSetValue object name value).getD object) settings

/-- The value of the last setting of a name that had one. -/
def lastSet (name : Text) : Settings ν → Option (Value ν)
  | [] => none
  | (name',value) :: settings => (lastSet name settings).or (if name = name' then value else none)

theorem setAll_holds (object : Members ν) (settings : Settings ν) (distinct : (names object).Nodup) :
    (names (setAll object settings)).Nodup ∧
      ∀ name, jsonObjectGetnValue (setAll object settings) name =
        (lastSet name settings).or (jsonObjectGetnValue object name) := by
  induction settings generalizing object with
  | nil => exact ⟨distinct,fun _ => rfl⟩
  | cons setting settings ih =>
    obtain ⟨name,value⟩ := setting
    cases value with
    | none =>
      obtain ⟨names,get⟩ := ih object distinct
      refine ⟨names,fun other => ?_⟩
      rw [lastSet,ite_self,Option.or_none]
      exact get other
    | some value =>
      obtain ⟨object',set,holds⟩ := set_holds object name value
      obtain ⟨names,get⟩ := ih object' (holds.distinct distinct)
      rw [setAll,set]
      refine ⟨names,fun other => ?_⟩
      rw [Option.getD_some,get,holds.get,lastSet,Option.or_assoc]
      split_ifs <;> rfl

private theorem mem_set {object object' : Members ν} {name : Text} {value : Value ν}
    (set : jsonObjectSetValue object name (some value) = some object') :
    ∀ m ∈ object', m = (name,value) ∨ m ∈ object := by
  have inside : ∀ object : Members ν, ∀ m ∈ overwrite name value object, m = (name,value) ∨ m ∈ object := by
    intro object
    induction object with
    | nil => exact fun m member => Or.inr member
    | cons first object ih =>
      intro m member
      rw [overwrite] at member
      split at member
      · rcases List.mem_cons.mp member with same | behind
        · exact Or.inl same
        · exact Or.inr (List.mem_cons_of_mem first behind)
      · rcases List.mem_cons.mp member with rfl | behind
        · exact Or.inr List.mem_cons_self
        · exact (ih m behind).imp_right (List.mem_cons_of_mem first)
  rw [jsonObjectSetValue] at set
  split at set
  · cases set
    exact inside object
  · rename_i absent
    rw [addn_new value (mt getn_isSome.mpr absent)] at set
    cases set
    intro m member
    rw [List.mem_append,List.mem_singleton] at member
    exact member.symm

theorem setAll_mem {P : Text × Value ν → Prop} {object : Members ν} {settings : Settings ν}
    (held : ∀ m ∈ object, P m) (each : ∀ s ∈ settings, ∀ v, s.2 = some v → P (s.1,v)) :
    ∀ m ∈ setAll object settings, P m := by
  induction settings generalizing object with
  | nil => exact held
  | cons setting settings ih =>
    obtain ⟨name,value⟩ := setting
    obtain ⟨first,rest⟩ := List.forall_mem_cons.mp each
    cases value with
    | none => exact ih held rest
    | some value =>
      obtain ⟨object',set,_⟩ := set_holds object name value
      rw [setAll,set]
      refine ih ?_ rest
      intro m member
      rcases mem_set set m member with rfl | before
      · exact first value rfl
      · exact held m before

/-! Paths. -/

/-- `json_object_dotset_value`, of a value that was made and the parts of the path. A new
object is put in only when its own setting succeeded. -/
def dotset (value : Value ν) : (name : Text) → (behind : List Text) → Members ν → Option (Members ν)
  | name, [], object => jsonObjectSetValue object name (some value)
  | name, next :: behind, object =>
    match jsonObjectGetnValue object name with
    | some (.object inner) => (dotset value next behind inner).map fun inner => overwrite name (.object inner) object
    | some _ => none
    | none => (dotset value next behind []).bind fun inner => jsonObjectAddn object name (.object inner)

def dotParts (name : Text) : List Text := name.splitOn '.'

def jsonObjectDotsetValue (object : Members ν) (name : Text) : Option (Value ν) → Option (Members ν)
  | none => none
  | some value =>
    match dotParts name with
    | [] => none
    | first :: behind => dotset value first behind object

/-- `json_object_dotget_value`. -/
def dotget : (name : Text) → (behind : List Text) → Members ν → Option (Value ν)
  | name, [], object => jsonObjectGetnValue object name
  | name, next :: behind, object =>
    match jsonObjectGetnValue object name with
    | some (.object inner) => dotget next behind inner
    | _ => none

private theorem dotget_congr {object object' : Members ν} {name : Text}
    (same : jsonObjectGetnValue object name = jsonObjectGetnValue object' name) (behind : List Text) :
    dotget name behind object = dotget name behind object' := by
  cases behind with
  | nil => exact same
  | cons next behind => rw [dotget,dotget,same]

private theorem dotget_nil (name : Text) (behind : List Text) : dotget name behind ([] : Members ν) = none := by
  cases behind <;> rfl

/-- A value that was put in by its path is found there, and what is found on any path that
neither begins nor goes on like it is what was found before. -/
theorem dotset_dotget {value : Value ν} {name : Text} {behind : List Text} {object object' : Members ν}
    (set : dotset value name behind object = some object') :
    dotget name behind object' = some value ∧
      ∀ name' behind', ¬ name :: behind <+: name' :: behind' → ¬ name' :: behind' <+: name :: behind →
        dotget name' behind' object' = dotget name' behind' object := by
  induction behind generalizing name object object' with
  | nil =>
    obtain ⟨object'',set',holds⟩ := set_holds object name value
    rw [dotset,set'] at set
    cases set
    refine ⟨by rw [dotget,holds.get,if_pos rfl],fun name' behind' apart _ => ?_⟩
    apply dotget_congr
    rw [holds.get,if_neg]
    rintro rfl
    exact apart ⟨behind',rfl⟩
  | cons next behind ih =>
    have held (inner inner' : Members ν) (holds : Holds object name (.object inner') object')
        (before : ∀ next behind, dotget name (next :: behind) object = dotget next behind inner)
        (found : dotset value next behind inner = some inner') :
        dotget name (next :: behind) object' = some value ∧
          ∀ name' behind', ¬ name :: next :: behind <+: name' :: behind' →
            ¬ name' :: behind' <+: name :: next :: behind → dotget name' behind' object' = dotget name' behind' object := by
      obtain ⟨get,others⟩ := ih found
      constructor
      · rw [dotget,holds.get,if_pos rfl]
        exact get
      · intro name' behind' longer shorter
        by_cases same : name' = name
        · subst same
          cases behind' with
          | nil => exact absurd ⟨next :: behind,rfl⟩ shorter
          | cons next' behind' =>
            rw [before,dotget,holds.get,if_pos rfl]
            simp only [List.cons_prefix_cons,true_and] at longer shorter
            exact others next' behind' (by simpa using longer) (by simpa using shorter)
        · apply dotget_congr
          rw [holds.get,if_neg same]
    rw [dotset] at set
    split at set
    · rename_i inner found
      obtain ⟨inner',later,same⟩ := Option.map_eq_some_iff.mp set
      have member : name ∈ names object := getn_isSome.mp (by rw [found]; rfl)
      exact held inner inner' (same ▸ holds_overwrite member _) (fun next behind => by rw [dotget,found]) later
    · cases set
    · rename_i missing
      obtain ⟨inner',later,added⟩ := Option.bind_eq_some_iff.mp set
      have new : name ∉ names object := getn_none.mp missing
      rw [addn_new _ new] at added
      refine held [] inner' (Option.some.inj added ▸ holds_addn new _) (fun next behind => ?_) later
      rw [dotget,missing,dotget_nil]

theorem dotset_dotget_sample :
    let object : Members ℚ := [("pack".toList,.object [("volts".toList,.number 12)])]
    let object' : Members ℚ := [("pack".toList,.object [("volts".toList,.number 12),("amps".toList,.number 3)])]
    dotget "pack".toList ["amps".toList] object' = some (.number 3) ∧
      ∀ name' behind', ¬ ["pack".toList,"amps".toList] <+: name' :: behind' →
        ¬ name' :: behind' <+: ["pack".toList,"amps".toList] →
        dotget name' behind' object' = dotget name' behind' object :=
  dotset_dotget rfl

/-- A name without a point is no path. -/
theorem dotset_plain {name : Text} (plain : '.' ∉ name) (object : Members ν) (value : Option (Value ν)) :
    jsonObjectDotsetValue object name value = jsonObjectSetValue object name value := by
  cases value with
  | none => rfl
  | some value =>
    have whole : dotParts name = [name] := by
      apply List.splitOnP_eq_singleton
      rintro c member
      exact beq_eq_false_iff_ne.mpr fun point => plain (point ▸ member)
    rw [jsonObjectDotsetValue,whole]
    rfl

end Mybmm.Json
