import Mybmm.JsonRoundTrip

/-! What the parser accepts, and how deep it goes. -/
namespace Mybmm.Json
open CString Libc

variable {ν : Type}

/-! The loop over the elements. -/

section Elements

variable {α : Type} {element element' : α → Text → Option (α × Text)} {closing : Char} {value : α → Value ν}

private theorem parseClose_keeps {Q : Text → Prop} (blank : ∀ s, Q s → Q (skipWhitespaces s))
    (delimiter : ∀ c t, c = ',' ∨ c = closing → Q (c :: t) → Q t) {v v' : Value ν} {s rest : Text} (held : Q s)
    (parsed : parseClose closing v s = some (v',rest)) : v' = v ∧ Q rest := by
  rw [parseClose] at parsed
  split at parsed
  · cases parsed
  · rename_i c t skipped
    split at parsed
    · rename_i same
      cases parsed
      exact ⟨rfl,delimiter c _ (Or.inr same) (skipped ▸ blank s held)⟩
    · cases parsed

private theorem parseComma_keeps {Q : Text → Prop} (blank : ∀ s, Q s → Q (skipWhitespaces s))
    (delimiter : ∀ c t, c = ',' ∨ c = closing → Q (c :: t) → Q t) {s t : Text} (held : Q s)
    (found : parseComma s = some t) : Q t := by
  rw [parseComma] at found
  split at found
  · rename_i u skipped
    cases found
    exact blank u (delimiter ',' u (Or.inl rfl) (skipped ▸ blank s held))
  · cases found

/-- What every element keeps, of what is read and of what is left, holds of all of them
together. -/
theorem parseElements_keeps {P : α → Prop} {Q : Text → Prop} (blank : ∀ s, Q s → Q (skipWhitespaces s))
    (delimiter : ∀ c t, c = ',' ∨ c = closing → Q (c :: t) → Q t)
    (keeps : ∀ a s b t, P a → Q s → element a s = some (b,t) → P b ∧ Q t) {turns : Nat} {read : α} {s rest : Text}
    {v : Value ν} (held : P read) (left : Q s)
    (parsed : parseElements element closing value turns read s = some (v,rest)) :
    ∃ last, P last ∧ v = value last ∧ Q rest := by
  induction turns generalizing read s with
  | zero => exact ⟨read,held,parseClose_keeps blank delimiter left parsed⟩
  | succ turns ih =>
    rw [parseElements] at parsed
    split at parsed
    · exact ⟨read,held,parseClose_keeps blank delimiter left parsed⟩
    split at parsed
    · cases parsed
    · rename_i next t found
      obtain ⟨held',left'⟩ := keeps read s next t held left found
      split at parsed
      · rename_i comma
        exact ih held' (parseComma_keeps blank delimiter left' comma) parsed
      · exact ⟨next,held',parseClose_keeps blank delimiter left' parsed⟩

private theorem parseElements_mono (more : ∀ a s r, element a s = some r → element' a s = some r) {turns : Nat} {read : α}
    {s : Text} {r : Value ν × Text} (parsed : parseElements element closing value turns read s = some r) :
    parseElements element' closing value turns read s = some r := by
  induction turns generalizing read s with
  | zero => exact parsed
  | succ turns ih =>
    rw [parseElements] at parsed ⊢
    split at parsed
    · rename_i ended
      rwa [if_pos ended]
    · rename_i going
      rw [if_neg going]
      split at parsed
      · cases parsed
      · rename_i next t found
        rw [more _ _ _ found]
        simp only
        split at parsed
        · exact ih parsed
        · exact parsed

end Elements

variable {parse parse' : Text → Option (Value ν × Text)}

theorem parseItem_some {array array' : List (Value ν)} {s rest : Text}
    (parsed : parseItem parse array s = some (array',rest)) :
    ∃ v, parse s = some (v,rest) ∧ array' = array ++ [v] := by
  simp only [parseItem,Option.bind_eq_bind,Option.bind_eq_some_iff] at parsed
  obtain ⟨⟨v,t⟩,found,same⟩ := parsed
  cases same
  exact ⟨v,found,rfl⟩

theorem parseMember_some {object object' : Members ν} {s rest : Text}
    (parsed : parseMember parse object s = some (object',rest)) :
    ∃ name v t u, getQuotedString s = some (name,t) ∧ nul ∉ name ∧ skipWhitespaces t = ':' :: u ∧
      parse u = some (v,rest) ∧ jsonObjectAddn object name v = some object' := by
  simp only [parseMember,Option.bind_eq_bind,Option.bind_eq_some_iff] at parsed
  obtain ⟨⟨name,t⟩,found,parsed⟩ := parsed
  simp only at parsed
  split at parsed
  · cases parsed
  · rename_i terminated
    split at parsed
    · rename_i u colon
      simp only [Option.bind_eq_some_iff] at parsed
      obtain ⟨⟨v,w⟩,read,object'',added,same⟩ := parsed
      cases same
      exact ⟨name,v,t,u,found,terminated,colon,read,added⟩
    · cases parsed

private theorem parseItem_mono (more : ∀ s r, parse s = some r → parse' s = some r) {array : List (Value ν)} {s : Text}
    {r : List (Value ν) × Text} (parsed : parseItem parse array s = some r) : parseItem parse' array s = some r := by
  obtain ⟨array',rest⟩ := r
  obtain ⟨v,read,rfl⟩ := parseItem_some parsed
  rw [parseItem,more _ _ read]
  rfl

private theorem parseMember_mono (more : ∀ s r, parse s = some r → parse' s = some r) {object : Members ν} {s : Text}
    {r : Members ν × Text} (parsed : parseMember parse object s = some r) : parseMember parse' object s = some r := by
  obtain ⟨object',rest⟩ := r
  obtain ⟨name,v,t,u,found,terminated,colon,read,added⟩ := parseMember_some parsed
  simp only [parseMember,found,Option.bind_eq_bind,Option.bind_some]
  rw [if_neg terminated]
  simp only [colon,more _ _ read,added,Option.bind_some]
  rfl

/-- Which part of the parser read a value that is no array and no object. -/
inductive ReadAsScalar (lib : Numbers ν) (s : Text) (r : Value ν × Text) : Prop
  | string (read : parseStringValue s = some r)
  | boolean (read : parseBooleanValue s = some r)
  | number (read : parseNumberValue lib s = some r)
  | null (read : parseNullValue s = some r)

theorem parseValue_cases {lib : Numbers ν} {levels : Nat} {s : Text} {r : Value ν × Text}
    (parsed : parseValue lib (levels + 1) s = some r) :
    ∃ c t, skipWhitespaces s = c :: t ∧
      (c = '{' ∧ parseObjectValue (parseValue lib levels) t = some r ∨
        c = '[' ∧ parseArrayValue (parseValue lib levels) t = some r ∨
        ReadAsScalar lib (c :: t) r ∧ ∀ levels', parseValue lib (levels' + 1) s = some r) := by
  rw [parseValue] at parsed
  split at parsed
  · cases parsed
  · rename_i c t skipped
    refine ⟨c,t,skipped,?_⟩
    split at parsed
    · rename_i same
      exact Or.inl ⟨same,parsed⟩
    split at parsed
    · rename_i same
      exact Or.inr (Or.inl ⟨same,parsed⟩)
    rename_i brace bracket
    refine Or.inr (Or.inr ⟨?_,?_⟩)
    · split at parsed
      · exact .string parsed
      split at parsed
      · exact .boolean parsed
      split at parsed
      · exact .number parsed
      split at parsed
      · exact .null parsed
      · cases parsed
    · intro levels'
      rw [parseValue,skipped]
      simp only
      rwa [if_neg brace,if_neg bracket]

theorem parseObjectValue_cases {s : Text} {r : Value ν × Text} (parsed : parseObjectValue parse s = some r) :
    (∃ t, skipWhitespaces s = '}' :: t ∧ r = (.object [],t)) ∨
      (∀ t, skipWhitespaces s ≠ '}' :: t) ∧
        parseElements (parseMember parse) '}' .object (skipWhitespaces s).length [] (skipWhitespaces s) = some r := by
  rw [parseObjectValue] at parsed
  split at parsed
  · rename_i t closed
    cases parsed
    exact Or.inl ⟨t,closed,rfl⟩
  · rename_i going
    exact Or.inr ⟨fun t closed => going t closed,parsed⟩

theorem parseArrayValue_cases {s : Text} {r : Value ν × Text} (parsed : parseArrayValue parse s = some r) :
    (∃ t, skipWhitespaces s = ']' :: t ∧ r = (.array [],t)) ∨
      (∀ t, skipWhitespaces s ≠ ']' :: t) ∧
        parseElements (parseItem parse) ']' .array (skipWhitespaces s).length [] (skipWhitespaces s) = some r := by
  rw [parseArrayValue] at parsed
  split at parsed
  · rename_i t closed
    cases parsed
    exact Or.inl ⟨t,closed,rfl⟩
  · rename_i going
    exact Or.inr ⟨fun t closed => going t closed,parsed⟩

/-- What is read with fewer levels is read with more. -/
theorem parseValue_mono (lib : Numbers ν) {levels levels' : Nat} (more : levels ≤ levels') {s : Text}
    {r : Value ν × Text} (parsed : parseValue lib levels s = some r) : parseValue lib levels' s = some r := by
  induction levels generalizing levels' s r with
  | zero => cases parsed
  | succ levels ih =>
    obtain ⟨levels',rfl⟩ : ∃ n, levels' = n + 1 := ⟨levels' - 1,by omega⟩
    have inner : ∀ s r, parseValue lib levels s = some r → parseValue lib levels' s = some r :=
      fun s r parsed => ih (by omega) parsed
    obtain ⟨c,t,skipped,⟨rfl,read⟩ | ⟨rfl,read⟩ | ⟨_,read⟩⟩ := parseValue_cases parsed
    · rw [parseValue,skipped]
      change parseObjectValue (parseValue lib levels') t = some r
      rcases parseObjectValue_cases read with ⟨u,closed,rfl⟩ | ⟨going,read⟩
      · simp only [parseObjectValue,closed]
      · rw [parseObjectValue]
        split
        · rename_i closed
          exact absurd closed (going _)
        · apply parseElements_mono _ read
          exact fun object s r read => parseMember_mono inner read
    · rw [parseValue,skipped]
      change parseArrayValue (parseValue lib levels') t = some r
      rcases parseArrayValue_cases read with ⟨u,closed,rfl⟩ | ⟨going,read⟩
      · simp only [parseArrayValue,closed]
      · rw [parseArrayValue]
        split
        · rename_i closed
          exact absurd closed (going _)
        · apply parseElements_mono _ read
          exact fun array s r read => parseItem_mono inner read
    · exact read levels'

private theorem scalar_height {lib : Numbers ν} {s rest : Text} {v : Value ν} (read : ReadAsScalar lib s (v,rest)) :
    height v = 0 ∧ v.All (fun x => lib.invalid x = false) (fun _ => True) Named := by
  cases read with
  | string read =>
    simp only [parseStringValue,Option.map_eq_some_iff] at read
    obtain ⟨⟨chars,t⟩,_,same⟩ := read
    cases same
    exact ⟨rfl,trivial⟩
  | boolean read =>
    rw [parseBooleanValue] at read
    split at read
    · cases read
      exact ⟨rfl,trivial⟩
    split at read
    · cases read
      exact ⟨rfl,trivial⟩
    · cases read
  | number read =>
    simp only [parseNumberValue] at read
    split at read
    · cases read
    · simp only [Option.map_eq_some_iff,jsonValueInitNumber] at read
      obtain ⟨v',made,same⟩ := read
      cases same
      split at made
      · cases made
      · rename_i valid
        cases made
        exact ⟨rfl,by simpa [Value.All] using valid⟩
  | null read =>
    rw [parseNullValue] at read
    split at read
    · cases read
      exact ⟨rfl,trivial⟩
    · cases read

/-- What the parser makes of a text when it may go so many levels deep. -/
structure Accepted (lib : Numbers ν) (levels : Nat) (v : Value ν) : Prop where
  low : height v < levels
  sound : v.All (fun x => lib.invalid x = false) (fun _ => True) Named

private theorem accepted_array {lib : Numbers ν} {levels : Nat} {items : List (Value ν)} :
    Accepted lib (levels + 1) (.array items) ↔ ∀ v ∈ items, Accepted lib levels v := by
  constructor
  · rintro ⟨low,sound⟩ v member
    exact ⟨heightItems_le.mp (Nat.lt_succ_iff.mp low) v member,all_array.mp sound v member⟩
  · intro inner
    exact ⟨Nat.lt_succ_iff.mpr (heightItems_le.mpr fun v member => (inner v member).low),
      all_array.mpr fun v member => (inner v member).sound⟩

private theorem accepted_object {lib : Numbers ν} {levels : Nat} {members : Members ν} :
    Accepted lib (levels + 1) (.object members) ↔
      Named (names members) ∧ ∀ m ∈ members, Accepted lib levels m.2 := by
  constructor
  · rintro ⟨low,sound⟩
    refine ⟨(all_object.mp sound).1,fun m member => ?_⟩
    exact ⟨heightMembers_le.mp (Nat.lt_succ_iff.mp low) m member,(all_object.mp sound).2 m member⟩
  · rintro ⟨named,inner⟩
    exact ⟨Nat.lt_succ_iff.mpr (heightMembers_le.mpr fun m member => (inner m member).low),
      all_object.mpr ⟨named,fun m member => (inner m member).sound⟩⟩

private theorem accepted_object_nil {lib : Numbers ν} {levels : Nat} : Accepted lib (levels + 1) (.object []) :=
  accepted_object.mpr ⟨⟨List.nodup_nil,List.forall_mem_nil _⟩,List.forall_mem_nil _⟩

private theorem named_add {object : Members ν} {name : Text} {v : Value ν} {object' : Members ν}
    (named : Named (names object)) (terminated : nul ∉ name) (added : jsonObjectAddn object name v = some object') :
    object' = object ++ [(name,v)] ∧ Named (names object') := by
  obtain ⟨new,rfl,distinct⟩ := addn_distinct named.1 added
  refine ⟨rfl,distinct,?_⟩
  rw [names,List.map_append]
  exact List.forall_mem_append.mpr ⟨named.2,by simpa using terminated⟩

theorem parseValue_accepts {lib : Numbers ν} {levels : Nat} {s rest : Text} {v : Value ν}
    (parsed : parseValue lib levels s = some (v,rest)) : Accepted lib levels v := by
  induction levels generalizing s v rest with
  | zero => cases parsed
  | succ levels ih =>
    obtain ⟨c,t,skipped,⟨rfl,read⟩ | ⟨rfl,read⟩ | ⟨read,_⟩⟩ := parseValue_cases parsed
    · rcases parseObjectValue_cases read with ⟨u,closed,same⟩ | ⟨going,read⟩
      · cases same
        exact accepted_object_nil
      · have keeps : ∀ object s object' t, Accepted lib (levels + 1) (.object object) → True →
            parseMember (parseValue lib levels) object s = some (object',t) →
            Accepted lib (levels + 1) (.object object') ∧ True := by
          intro object s object' t accepted _ read
          obtain ⟨named,inner⟩ := accepted_object.mp accepted
          obtain ⟨name,v,t,u,found,terminated,colon,value,added⟩ := parseMember_some read
          obtain ⟨rfl,named'⟩ := named_add named terminated added
          exact ⟨accepted_object.mpr ⟨named',List.forall_mem_append.mpr ⟨inner,by simpa using ih value⟩⟩,trivial⟩
        have empty : Accepted lib (levels + 1) (.object []) := accepted_object_nil
        obtain ⟨object,accepted,rfl,_⟩ :=
          parseElements_keeps (fun _ => id) (fun _ _ _ => id) keeps empty trivial read
        exact accepted
    · rcases parseArrayValue_cases read with ⟨u,closed,same⟩ | ⟨going,read⟩
      · cases same
        exact accepted_array.mpr (by simp)
      · have keeps : ∀ array s array' t, Accepted lib (levels + 1) (.array array) → True →
            parseItem (parseValue lib levels) array s = some (array',t) →
            Accepted lib (levels + 1) (.array array') ∧ True := by
          intro array s array' t accepted _ read
          obtain ⟨v,item,rfl⟩ := parseItem_some read
          have inner : ∀ w ∈ array ++ [v], Accepted lib levels w :=
            List.forall_mem_append.mpr ⟨accepted_array.mp accepted,by simpa using ih item⟩
          exact ⟨accepted_array.mpr inner,trivial⟩
        have empty : Accepted lib (levels + 1) (.array []) := accepted_array.mpr (by simp)
        obtain ⟨array,accepted,rfl,_⟩ :=
          parseElements_keeps (fun _ => id) (fun _ _ _ => id) keeps empty trivial read
        exact accepted
    · obtain ⟨low,sound⟩ := scalar_height read
      exact ⟨by omega,sound⟩

end Mybmm.Json
