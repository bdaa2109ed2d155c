import Mathlib.Data.List.Nodup
import Mybmm.Support.Libc

/-! The values of parson.c and their objects. A text is its characters up to the
terminator, each of them one byte; the names and the values of an object are one list of
pairs. The pointer to what a value is part of is left out: every value that is put
somewhere here is new. -/
namespace Mybmm.Json
open CString Libc

inductive Value (ν : Type) where
  | null
  | boolean (b : Bool)
  | number (x : ν)
  | string (chars : Text)
  | array (items : List (Value ν))
  | object (members : List (Text × Value ν))

abbrev Members (ν : Type) := List (Text × Value ν)

variable {ν : Type}

theorem Value.induct {P : Value ν → Prop} (null : P .null) (boolean : ∀ b, P (.boolean b))
    (number : ∀ x, P (.number x)) (string : ∀ chars, P (.string chars))
    (array : ∀ items, (∀ v ∈ items, P v) → P (.array items))
    (object : ∀ members, (∀ m ∈ members, P m.2) → P (.object members)) : ∀ v, P v := by
  intro v
  apply Value.rec (motive_1 := P) (motive_2 := fun items => ∀ v ∈ items, P v)
    (motive_3 := fun members => ∀ m ∈ members, P m.2) (motive_4 := fun m => P m.2)
    null boolean number string array object
  · simp
  · exact fun _ _ first rest => List.forall_mem_cons.mpr ⟨first,rest⟩
  · simp
  · exact fun _ _ first rest => List.forall_mem_cons.mpr ⟨first,rest⟩
  · exact fun _ _ held => held

/-! What the library calls from the C library on numbers: `IS_NUMBER_INVALID`, `sprintf` with
`FLOAT_FORMAT`, and `strtod` with the number of characters it read and whether it set `errno`. -/

structure Numbers (ν : Type) where
  invalid : ν → Bool
  print : ν → Text
  strtod : Text → ν × Nat × Bool

/-! Objects. -/

def jsonObjectGetnValue (object : Members ν) (name : Text) : Option (Value ν) :=
  (object.find? fun m => m.1 = name).map Prod.snd

def jsonObjectAddn (object : Members ν) (name : Text) (value : Value ν) : Option (Members ν) :=
  if (jsonObjectGetnValue object name).isSome then none else some (object ++ [(name,value)])

/-- The loop that overwrites the first pair of a name. -/
def overwrite (name : Text) (value : Value ν) : Members ν → Members ν
  | [] => []
  | m :: ms => if m.1 = name then (name,value) :: ms else m :: overwrite name value ms

/-- `json_object_set_value`. A value that could not be made is not put anywhere. -/
def jsonObjectSetValue (object : Members ν) (name : Text) : Option (Value ν) → Option (Members ν)
  | none => none
  | some value =>
    if (jsonObjectGetnValue object name).isSome then some (overwrite name value object)
    else jsonObjectAddn object name value

def names (object : Members ν) : List Text := object.map Prod.fst

theorem getn_isSome {object : Members ν} {name : Text} :
    (jsonObjectGetnValue object name).isSome = true ↔ name ∈ names object := by
  rw [jsonObjectGetnValue,Option.isSome_map,List.find?_isSome]
  simp [names]

theorem addn_new {object : Members ν} {name : Text} (value : Value ν) (new : name ∉ names object) :
    jsonObjectAddn object name value = some (object ++ [(name,value)]) := by
  rw [jsonObjectAddn,if_neg]
  rwa [getn_isSome]

theorem addn_distinct {object object' : Members ν} {name : Text} {value : Value ν}
    (distinct : (names object).Nodup) (added : jsonObjectAddn object name value = some object') :
    name ∉ names object ∧ object' = object ++ [(name,value)] ∧ (names object').Nodup := by
  rw [jsonObjectAddn] at added
  split at added
  · cases added
  · rename_i absent
    rw [getn_isSome] at absent
    cases added
    refine ⟨absent,rfl,?_⟩
    rw [names,List.map_append,List.nodup_append]
    refine ⟨distinct,List.nodup_singleton name,?_⟩
    intro k old k' new same
    rw [same,List.mem_singleton.mp new] at old
    exact absent old

/-! A property of every part of a value: of its numbers, of its strings, and of the names of
each of its objects, together. -/

mutual

def Value.All (number : ν → Prop) (string : Text → Prop) (object : List Text → Prop) : Value ν → Prop
  | .null => True
  | .boolean _ => True
  | .number x => number x
  | .string chars => string chars
  | .array items => AllItems number string object items
  | .object members => object (members.map Prod.fst) ∧ AllMembers number string object members
termination_by structural v => v

def AllItems (number : ν → Prop) (string : Text → Prop) (object : List Text → Prop) : List (Value ν) → Prop
  | [] => True
  | v :: items => v.All number string object ∧ AllItems number string object items
termination_by structural items => items

def AllMembers (number : ν → Prop) (string : Text → Prop) (object : List Text → Prop) : Members ν → Prop
  | [] => True
  | (_,v) :: members => v.All number string object ∧ AllMembers number string object members
termination_by structural members => members

end

section All

variable {number : ν → Prop} {string : Text → Prop} {object : List Text → Prop}

private theorem allItems_iff {items : List (Value ν)} :
    AllItems number string object items ↔ ∀ v ∈ items, v.All number string object := by
  induction items with
  | nil => simp [AllItems]
  | cons item items ih => simp [AllItems,ih]

private theorem allMembers_iff {members : Members ν} :
    AllMembers number string object members ↔ ∀ m ∈ members, m.2.All number string object := by
  induction members with
  | nil => simp [AllMembers]
  | cons member members ih => simp [AllMembers,ih]

theorem all_array {items : List (Value ν)} :
    (Value.array items).All number string object ↔ ∀ v ∈ items, v.All number string object := by
  rw [Value.All,allItems_iff]

theorem all_object {members : Members ν} :
    (Value.object members).All number string object ↔
      object (names members) ∧ ∀ m ∈ members, m.2.All number string object := by
  rw [Value.All,allMembers_iff,names]

theorem All.mono {number' : ν → Prop} {string' : Text → Prop} {object' : List Text → Prop} {v : Value ν}
    (numbers : ∀ x, number x → number' x) (strings : ∀ s, string s → string' s)
    (objects : ∀ ks, object ks → object' ks) (held : v.All number string object) :
    v.All number' string' object' := by
  induction v using Value.induct with
  | null | boolean => trivial
  | number x => exact numbers x held
  | string chars => exact strings chars held
  | array items ih =>
    rw [all_array] at held ⊢
    exact fun v member => ih v member (held v member)
  | object members ih =>
    rw [all_object] at held ⊢
    exact ⟨objects _ held.1,fun m member => ih m member (held.2 m member)⟩

theorem All.and {number' : ν → Prop} {string' : Text → Prop} {object' : List Text → Prop} {v : Value ν}
    (held : v.All number string object) (held' : v.All number' string' object') :
    v.All (fun x => number x ∧ number' x) (fun s => string s ∧ string' s) (fun ks => object ks ∧ object' ks) := by
  induction v using Value.induct with
  | null | boolean => trivial
  | number x => exact ⟨held,held'⟩
  | string chars => exact ⟨held,held'⟩
  | array items ih =>
    rw [all_array] at held held' ⊢
    exact fun v member => ih v member (held v member) (held' v member)
  | object members ih =>
    rw [all_object] at held held' ⊢
    exact ⟨⟨held.1,held'.1⟩,fun m member => ih m member (held.2 m member) (held'.2 m member)⟩

end All

/-! How deep the values lie in one another: an empty array or object is no deeper than a
number. -/

mutual

def height : Value ν → Nat
  | .array items => heightItems items
  | .object members => heightMembers members
  | _ => 0
termination_by structural v => v

def heightItems : List (Value ν) → Nat
  | [] => 0
  | v :: items => max (height v + 1) (heightItems items)
termination_by structural items => items

def heightMembers : Members ν → Nat
  | [] => 0
  | (_,v) :: members => max (height v + 1) (heightMembers members)
termination_by structural members => members

end

theorem heightItems_le {items : List (Value ν)} {levels : Nat} :
    heightItems items ≤ levels ↔ ∀ v ∈ items, height v < levels := by
  induction items with
  | nil => simp [heightItems]
  | cons item items ih => rw [heightItems,max_le_iff,ih,List.forall_mem_cons,Nat.add_one_le_iff]

theorem heightMembers_le {members : Members ν} {levels : Nat} :
    heightMembers members ≤ levels ↔ ∀ m ∈ members, height m.2 < levels := by
  induction members with
  | nil => simp [heightMembers]
  | cons member members ih => rw [heightMembers,max_le_iff,ih,List.forall_mem_cons,Nat.add_one_le_iff]

end Mybmm.Json
