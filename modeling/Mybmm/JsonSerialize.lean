import Mybmm.Support.Output
import Mybmm.JsonText

/-! The serializer of parson.c. It goes over a value twice: without a buffer it counts the
characters, then it prints them into a buffer of that size. The count, an `int` there, has no
end here. `parson_escape_slashes` is as it starts out. -/
namespace Mybmm.Json
open CString Output

variable {ν : Type}

/-- The switch of `json_serialize_string`. -/
def serializeChar (c : Char) : Out → Out :=
  match shortEscape c with
  | some e => appendString ['\\',e]
  | none =>
    if c.toNat < 0x20 then appendString ['\\','u','0','0',hexDigit (c.toNat / 16),hexDigit (c.toNat % 16)]
    else appendChar c

def jsonSerializeString (string : Text) (out : Out) : Out :=
  let out := appendString ['"'] out
  let out := string.foldl (fun out c => serializeChar c out) out
  appendString ['"'] out

def appendIndent (level : Nat) (out : Out) : Out :=
  (List.range level).foldl (fun out _ => appendString "    ".toList out) out

def whenPretty (isPretty : Bool) (append : Out → Out) (out : Out) : Out := if isPretty then append out else out

/-- The loop over the elements of an array or an object. -/
def serializeElements (level : Nat) (isPretty : Bool) : List (Out → Out) → Out → Out
  | [], out => out
  | element :: elements, out =>
    let out := whenPretty isPretty (appendIndent (level + 1)) out
    let out := element out
    let out := if elements.isEmpty then out else appendString [','] out
    let out := whenPretty isPretty (appendString ['\n']) out
    serializeElements level isPretty elements out

def serializeEnclosed (opening closing : Char) (level : Nat) (isPretty : Bool) (elements : List (Out → Out))
    (out : Out) : Out :=
  let out := appendString [opening] out
  let out := whenPretty (!elements.isEmpty && isPretty) (appendString ['\n']) out
  let out := serializeElements level isPretty elements out
  let out := whenPretty (!elements.isEmpty && isPretty) (appendIndent level) out
  appendString [closing] out

/-- A pair of an object; `values` are the object's, each to be printed at the level of its
pairs, and the value is looked up by the name. -/
def serializeMember (isPretty : Bool) (values : List (Text × (Out → Out))) (key : Text) (out : Out) : Out :=
  let out := jsonSerializeString key out
  let out := appendString [':'] out
  let out := whenPretty isPretty (appendString [' ']) out
  match values.find? fun m => m.1 = key with
  | none => out
  | some (_,value) => value out

mutual

/-- `json_serialize_to_buffer_r`. -/
def serializeToBufferR (lib : Numbers ν) (isPretty : Bool) : Value ν → (level : Nat) → Out → Out
  | .null, _ => appendString "null".toList
  | .boolean b, _ => if b then appendString "true".toList else appendString "false".toList
  | .number x, _ => appendString (lib.print x)
  | .string chars, _ => jsonSerializeString chars
  | .array items, level => serializeEnclosed '[' ']' level isPretty (serializeItems lib isPretty items (level + 1))
  | .object members, level =>
    let values := serializeValues lib isPretty members (level + 1)
    serializeEnclosed '{' '}' level isPretty (values.map fun m => serializeMember isPretty values m.1)
termination_by structural v => v

def serializeItems (lib : Numbers ν) (isPretty : Bool) : List (Value ν) → (level : Nat) → List (Out → Out)
  | [], _ => []
  | v :: items, level => serializeToBufferR lib isPretty v level :: serializeItems lib isPretty items level
termination_by structural items => items

def serializeValues (lib : Numbers ν) (isPretty : Bool) : Members ν → (level : Nat) → List (Text × (Out → Out))
  | [], _ => []
  | (key,v) :: members, level =>
    (key,serializeToBufferR lib isPretty v level) :: serializeValues lib isPretty members level
termination_by structural members => members

end

/-- `json_serialization_size`, of the text and its terminator. -/
def jsonSerializationSize (lib : Numbers ν) (isPretty : Bool) (value : Value ν) : Nat :=
  (serializeToBufferR lib isPretty value 0 ⟨none,0⟩).written + 1

/-- `json_serialize_to_buffer`: what is in memory then, when the buffer is large enough. -/
def jsonSerializeToBuffer (lib : Numbers ν) (isPretty : Bool) (value : Value ν) (m : Memory) (buf bufSize : Nat) :
    Option Memory :=
  if bufSize < jsonSerializationSize lib isPretty value then none
  else (serializeToBufferR lib isPretty value 0 ⟨some (m,buf),0⟩).buf.map Prod.fst

/-- `json_serialize_to_string`: the text in the buffer that is allocated for it, whatever was
there before. -/
def jsonSerializeToString (lib : Numbers ν) (isPretty : Bool) (value : Value ν) (m : Memory) : Option Text :=
  let bufSize := jsonSerializationSize lib isPretty value
  (jsonSerializeToBuffer lib isPretty value m 0 bufSize).bind fun m => textFrom m 0 bufSize

/-! The layouts of the two forms. -/

def indent (level : Nat) : Text := (List.range level).flatMap fun _ => "    ".toList

private theorem isspace_indent (level : Nat) : ∀ c ∈ indent level, Libc.isspace c = true := by
  intro c member
  obtain ⟨_,_,blank⟩ := List.mem_flatMap.mp member
  have : c = ' ' := by simpa using blank
  rw [this]
  rfl

def compact : Layout where
  gap _ := []
  close _ := []
  colon := []
  blank_gap _ := List.forall_mem_nil _
  blank_close _ := List.forall_mem_nil _
  blank_colon := List.forall_mem_nil _

def pretty : Layout where
  gap level := '\n' :: indent (level + 1)
  close level := '\n' :: indent level
  colon := [' ']
  blank_gap level := List.forall_mem_cons.mpr ⟨rfl,isspace_indent (level + 1)⟩
  blank_close level := List.forall_mem_cons.mpr ⟨rfl,isspace_indent level⟩
  blank_colon := by simp [Libc.isspace]

def layoutOf (isPretty : Bool) : Layout := if isPretty then pretty else compact

/-! Each function prints its part of the text. -/

private theorem emits_serializeChar (c : Char) : Emits (serializeChar c) (escape c) := by
  unfold serializeChar escape
  cases shortEscape c with
  | some e => exact emits_string _
  | none =>
    simp only
    split
    · exact emits_string _
    · exact emits_char c

private theorem emits_serializeString (string : Text) : Emits (jsonSerializeString string) (quoted string) :=
  ((emits_string ['"']).comp ((emits_foldl emits_serializeChar string).comp (emits_string ['"']))).cast
    (by simp [quoted])

private theorem emits_indent (level : Nat) : Emits (appendIndent level) (indent level) :=
  emits_foldl (fun _ => emits_string "    ".toList) (List.range level)

private theorem emits_whenPretty {append : Out → Out} {s : Text} (isPretty : Bool) (emits : Emits append s) :
    Emits (whenPretty isPretty append) (if isPretty then s else []) := emits.ite isPretty emits_id

def breakOf (isPretty : Bool) : Text := if isPretty then ['\n'] else []

def indentOf (isPretty : Bool) (level : Nat) : Text := if isPretty then indent level else []

private theorem gap_layoutOf (isPretty : Bool) (level : Nat) :
    (layoutOf isPretty).gap level = breakOf isPretty ++ indentOf isPretty (level + 1) := by
  cases isPretty <;> rfl

private theorem close_layoutOf (isPretty : Bool) (level : Nat) :
    (layoutOf isPretty).close level = breakOf isPretty ++ indentOf isPretty level := by
  cases isPretty <;> rfl

private theorem colon_layoutOf (isPretty : Bool) : (layoutOf isPretty).colon = if isPretty then [' '] else [] := by
  cases isPretty <;> rfl

private theorem emits_elements {level : Nat} {isPretty : Bool} {element : Out → Out} {elements : List (Out → Out)}
    {part : Text} {parts : List Text} (first : Emits element part) (each : List.Forall₂ Emits elements parts) :
    Emits (serializeElements level isPretty (element :: elements))
      (indentOf isPretty (level + 1) ++ part ++
        parts.flatMap (fun part => ',' :: (layoutOf isPretty).gap level ++ part) ++ breakOf isPretty) := by
  have indented := emits_whenPretty isPretty (emits_indent (level + 1))
  have broken := emits_whenPretty isPretty (emits_string ['\n'])
  induction each generalizing element part with
  | nil =>
    exact (((indented.comp first).comp emits_id).comp broken).cast (by simp [indentOf,breakOf])
  | cons second each ih =>
    have rest := ih second
    exact ((((indented.comp first).comp (emits_string [','])).comp broken).comp rest).cast
      (by simp [indentOf,breakOf,gap_layoutOf])

private theorem emits_enclosed {opening closing : Char} {level : Nat} {isPretty : Bool} {elements : List (Out → Out)}
    {parts : List Text} (each : List.Forall₂ Emits elements parts) :
    Emits (serializeEnclosed opening closing level isPretty elements)
      (enclosed opening closing ((layoutOf isPretty).gap level) ((layoutOf isPretty).close level) parts) := by
  cases each with
  | nil =>
    exact ((emits_string [opening]).comp (emits_string [closing])).cast rfl
  | cons first each =>
    have broken := emits_whenPretty isPretty (emits_string ['\n'])
    have indented := emits_whenPretty isPretty (emits_indent level)
    exact ((((emits_string [opening]).comp broken).comp (emits_elements first each)).comp indented |>.comp
      (emits_string [closing])).cast (by simp [enclosed,indentOf,breakOf,gap_layoutOf,close_layoutOf])

private theorem emits_member {isPretty : Bool} {values : List (Text × (Out → Out))} {key part : Text} {value : Out → Out}
    (found : values.find? (fun m => m.1 = key) = some (key,value)) (emits : Emits value part) :
    Emits (serializeMember isPretty values key) (quoted key ++ ':' :: (layoutOf isPretty).colon ++ part) := by
  have spaced := emits_whenPretty isPretty (emits_string [' '])
  have all := (((emits_serializeString key).comp (emits_string [':'])).comp spaced).comp emits
  unfold serializeMember
  simp only [found]
  exact all.cast (by simp [colon_layoutOf])

private theorem find_values {lib : Numbers ν} {isPretty : Bool} {members : Members ν} {level : Nat}
    (distinct : (names members).Nodup) {m : Text × Value ν} (member : m ∈ members) :
    (serializeValues lib isPretty members level).find? (fun w => w.1 = m.1) =
      some (m.1,serializeToBufferR lib isPretty m.2 level) := by
  induction members with
  | nil => simp at member
  | cons first members ih =>
    obtain ⟨key,v⟩ := first
    rw [names,List.map_cons,List.nodup_cons] at distinct
    rw [serializeValues,List.find?_cons]
    rcases List.mem_cons.mp member with rfl | behind
    · simp
    · have other : key ≠ m.1 := by
        intro same
        apply distinct.1
        change key ∈ names members
        rw [same]
        exact List.mem_map_of_mem behind
      simp only [other,decide_false]
      exact ih distinct.2 behind

private theorem map_serializeValues {α : Type} (lib : Numbers ν) (isPretty : Bool) (members : Members ν) (level : Nat)
    (f : Text → α) : (serializeValues lib isPretty members level).map (fun w => f w.1) = members.map fun m => f m.1 := by
  induction members with
  | nil => rfl
  | cons m members ih =>
    rw [serializeValues,List.map_cons,List.map_cons,ih]

theorem map_textItems (lib : Numbers ν) (layout : Layout) (level : Nat) (items : List (Value ν)) :
    textItems lib layout level items = items.map (text lib layout (level + 1)) := by
  induction items with
  | nil => rfl
  | cons v items ih => rw [textItems,List.map_cons,ih]

theorem map_textMembers (lib : Numbers ν) (layout : Layout) (level : Nat) (members : Members ν) :
    textMembers lib layout level members =
      members.map fun m => quoted m.1 ++ ':' :: layout.colon ++ text lib layout (level + 1) m.2 := by
  induction members with
  | nil => rfl
  | cons m members ih => rw [textMembers,List.map_cons,ih]

theorem emits_value (lib : Numbers ν) (isPretty : Bool) {v : Value ν} {number : ν → Prop} {string : Text → Prop}
    (sound : v.All number string Named) (level : Nat) :
    Emits (serializeToBufferR lib isPretty v level) (text lib (layoutOf isPretty) level v) := by
  induction v using Value.induct generalizing level with
  | null => exact emits_string _
  | boolean b => cases b <;> exact emits_string _
  | number x => exact emits_string _
  | string chars => exact emits_serializeString chars
  | array items ih =>
    have inner := all_array.mp sound
    apply emits_enclosed
    rw [map_textItems]
    clear sound
    induction items with
    | nil => exact .nil
    | cons v items rest =>
      rw [List.forall_mem_cons] at ih inner
      exact .cons (ih.1 inner.1 (level + 1)) (rest ih.2 inner.2)
  | object members ih =>
    obtain ⟨named,inner⟩ := all_object.mp sound
    apply emits_enclosed
    rw [map_serializeValues lib isPretty members (level + 1) (serializeMember isPretty _),map_textMembers,
      List.forall₂_map_left_iff,List.forall₂_map_right_iff]
    apply List.forall₂_same.mpr
    intro m member
    exact emits_member (find_values named.1 member) (ih m member (inner m member) (level + 1))

end Mybmm.Json
