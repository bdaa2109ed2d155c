import Mybmm.JsonText

/-! The parser reads every text of a value back, as deep as it allows. -/
namespace Mybmm.Json
open CString Libc

variable {ν : Type}

theorem parseArrayValue_starts (parse : Text → Option (Value ν × Text)) {gap s : Text}
    (blank : ∀ c ∈ gap, isspace c = true) (starts : Starts s) :
    parseArrayValue parse (gap ++ s) = parseElements (parseItem parse) ']' .array s.length [] s := by
  rw [parseArrayValue,skipWhitespaces_blank blank,starts.skip]
  obtain ⟨c,t,rfl,_,bracket,_⟩ := starts
  split
  · rename_i same
    cases same
    exact absurd rfl bracket
  · rfl

private theorem parseObjectValue_starts (parse : Text → Option (Value ν × Text)) {gap s : Text}
    (blank : ∀ c ∈ gap, isspace c = true) (starts : Starts s) :
    parseObjectValue parse (gap ++ s) = parseElements (parseMember parse) '}' .object s.length [] s := by
  rw [parseObjectValue,skipWhitespaces_blank blank,starts.skip]
  obtain ⟨c,t,rfl,_,_,brace,_⟩ := starts
  split
  · rename_i same
    cases same
    exact absurd rfl brace
  · rfl

/-- What reads each value's text reads it whatever ends it. -/
def ReadsBack (parse : Text → Option (Value ν × Text)) (s : Text) (v : Value ν) : Prop :=
  Starts s ∧ ∀ rest, Ends rest → parse (s ++ rest) = some (v,rest)

private theorem turns_items {lib : Numbers ν} {layout : Layout} {level : Nat} {parse : Text → Option (Value ν × Text)}
    {items : List (Value ν)} (reads : ∀ v ∈ items, ReadsBack parse (text lib layout (level + 1) v) v)
    (array : List (Value ν)) :
    Turns (parseItem parse) array (textItems lib layout level items) (array ++ items) := by
  induction items generalizing array with
  | nil =>
    rw [List.append_nil]
    exact .done array
  | cons v items ih =>
    obtain ⟨starts,read⟩ := reads v List.mem_cons_self
    have later := ih (fun v member => reads v (List.mem_cons_of_mem _ member)) (array ++ [v])
    rw [List.append_assoc] at later
    refine .turn starts ?_ later
    intro rest ends
    rw [parseItem,read rest ends]
    rfl

private theorem parseMember_text {parse : Text → Option (Value ν × Text)} {object : Members ν} {name colon s : Text}
    {v : Value ν} (terminated : nul ∉ name) (new : name ∉ names object) (blank : ∀ c ∈ colon, isspace c = true)
    (skips : ∀ gap s, (∀ c ∈ gap, isspace c = true) → parse (gap ++ s) = parse s)
    (reads : ReadsBack parse s v) {rest : Text} (ends : Ends rest) :
    parseMember parse object ((quoted name ++ ':' :: colon ++ s) ++ rest) = some (object ++ [(name,v)],rest) := by
  have read : parse (colon ++ (s ++ rest)) = some (v,rest) := by rw [skips _ _ blank,reads.2 rest ends]
  simp only [List.append_assoc]
  rw [parseMember,getQuotedString_quoted]
  simp only [Option.bind_eq_bind,Option.bind_some]
  rw [if_neg terminated,List.cons_append,skipWhitespaces_solid (by decide)]
  simp only [read,Option.bind_some]
  rw [addn_new v new]
  rfl

private theorem turns_members {lib : Numbers ν} {layout : Layout} {level : Nat} {parse : Text → Option (Value ν × Text)}
    {members : Members ν} (reads : ∀ m ∈ members, ReadsBack parse (text lib layout (level + 1) m.2) m.2)
    (skips : ∀ gap s, (∀ c ∈ gap, isspace c = true) → parse (gap ++ s) = parse s)
    {object : Members ν} (named : Named (names (object ++ members))) :
    Turns (parseMember parse) object (textMembers lib layout level members) (object ++ members) := by
  induction members generalizing object with
  | nil =>
    rw [List.append_nil]
    exact .done object
  | cons m members ih =>
    obtain ⟨name,v⟩ := m
    have named' : Named (names ((object ++ [(name,v)]) ++ members)) := by rwa [List.append_assoc]
    have later := ih (fun m member => reads m (List.mem_cons_of_mem _ member)) named'
    rw [List.append_assoc] at later
    refine .turn ((starts_quoted name).append _ |>.append _) ?_ later
    intro rest ends
    have new : name ∉ names object := by
      have distinct := named.1
      rw [names,List.map_append,List.nodup_append] at distinct
      intro old
      exact distinct.2.2 name old name (by simp) rfl
    have terminated : nul ∉ name := named.2 name (by simp [names])
    exact parseMember_text terminated new layout.blank_colon skips (reads _ List.mem_cons_self) ends

private theorem parseValue_skips (lib : Numbers ν) (levels : Nat) (gap s : Text) (blank : ∀ c ∈ gap, isspace c = true) :
    parseValue lib levels (gap ++ s) = parseValue lib levels s := by
  cases levels with
  | zero => rfl
  | succ levels => rw [parseValue,parseValue,skipWhitespaces_blank blank]

theorem parseNumberValue_reads {lib : Numbers ν} {s : Text} {x : ν} (reads : Reads lib s x) {rest : Text}
    (ends : Ends rest) : parseNumberValue lib (s ++ rest) = some (.number x,rest) := by
  rw [parseNumberValue,reads.read rest ends]
  simp [reads.decimal,jsonValueInitNumber,reads.valid]

theorem parseValue_number {lib : Numbers ν} {s : Text} (number : s.head?.any numeric = true) (levels : Nat)
    (rest : Text) : parseValue lib (levels + 1) (s ++ rest) = parseNumberValue lib (s ++ rest) := by
  have starts := (starts_number number).append rest
  rw [parseValue,starts.skip]
  cases s with
  | nil => cases number
  | cons c s =>
    have number : numeric c = true := number
    obtain ⟨_,_,_,_,brace,bracket,quote,f,t⟩ := numeric_plain number
    simp only [numeric] at number
    simp [brace,bracket,quote,f,t,number]

private theorem enclosed_append (opening closing : Char) (gap close part : Text) (parts : List Text) (rest : Text) :
    enclosed opening closing gap close (part :: parts) ++ rest =
      opening :: (gap ++ (part ++ (parts.flatMap (fun part => ',' :: gap ++ part) ++ (close ++ closing :: rest)))) := by
  simp [enclosed]

private theorem flatMap_length (gap : Text) (parts : List Text) :
    parts.length ≤ (parts.flatMap fun part => ',' :: gap ++ part).length := by
  induction parts with
  | nil => exact Nat.le_refl 0
  | cons part parts ih =>
    rw [List.flatMap_cons,List.length_append,List.length_cons,List.length_append,List.length_cons]
    omega

theorem parseElements_enclosed {α : Type} {element : α → Text → Option (α × Text)} {closing : Char} {value : α → Value ν}
    {gap close part : Text} {parts : List Text} {read last : α}
    (blank : ∀ c ∈ gap, isspace c = true) (blank' : ∀ c ∈ close, isspace c = true)
    (ending : closing = ']' ∨ closing = '}') (reads : Turns element read (part :: parts) last) (rest : Text) :
    let s := part ++ (parts.flatMap (fun part => ',' :: gap ++ part) ++ (close ++ closing :: rest))
    parseElements element closing value s.length read s = some (value last,rest) := by
  apply parseElements_parts blank blank' ending reads
  have fewer := flatMap_length gap parts
  simp only [List.length_append,List.length_cons]
  omega

theorem parse_text {lib : Numbers ν} (layout : Layout) {v : Value ν} (readable : Readable lib v) (level : Nat)
    {levels : Nat} (fits : height v < levels) {rest : Text} (ends : Ends rest) :
    parseValue lib levels (text lib layout level v ++ rest) = some (v,rest) := by
  induction v using Value.induct generalizing level levels rest with
  | null =>
    obtain ⟨levels,rfl⟩ := Nat.exists_eq_add_of_lt fits
    rfl
  | boolean b =>
    obtain ⟨levels,rfl⟩ := Nat.exists_eq_add_of_lt fits
    cases b <;> rfl
  | number x =>
    obtain ⟨levels,rfl⟩ := Nat.exists_eq_add_of_lt fits
    have reads : Reads lib (lib.print x) x := readable
    rw [text,parseValue_number reads.head]
    exact parseNumberValue_reads reads ends
  | string chars =>
    obtain ⟨levels,rfl⟩ := Nat.exists_eq_add_of_lt fits
    rw [text,parseValue,((starts_quoted chars).append rest).skip]
    change parseStringValue (quoted chars ++ rest) = _
    rw [parseStringValue,getQuotedString_quoted]
    rfl
  | array items ih =>
    obtain ⟨levels,rfl⟩ : ∃ n, levels = n + 1 := ⟨levels - 1,by omega⟩
    have inner := all_array.mp readable
    have lower := heightItems_le.mp (Nat.lt_succ_iff.mp fits)
    have reads : ∀ v ∈ items, ReadsBack (parseValue lib levels) (text lib layout (level + 1) v) v := by
      intro v member
      exact ⟨starts_text layout _ (inner v member),fun rest ends => ih v member (inner v member) _ (lower v member) ends⟩
    have turns := turns_items reads []
    cases items with
    | nil => rfl
    | cons v items =>
      rw [text,textItems,enclosed_append]
      change parseArrayValue (parseValue lib levels) _ = _
      rw [parseArrayValue_starts _ (layout.blank_gap level) ((reads v List.mem_cons_self).1.append _)]
      exact parseElements_enclosed (layout.blank_gap level) (layout.blank_close level) (Or.inl rfl) turns rest
  | object members ih =>
    obtain ⟨levels,rfl⟩ : ∃ n, levels = n + 1 := ⟨levels - 1,by omega⟩
    obtain ⟨named,inner⟩ := all_object.mp readable
    have lower := heightMembers_le.mp (Nat.lt_succ_iff.mp fits)
    have reads : ∀ m ∈ members, ReadsBack (parseValue lib levels) (text lib layout (level + 1) m.2) m.2 := by
      intro m member
      exact ⟨starts_text layout _ (inner m member),fun rest ends => ih m member (inner m member) _ (lower m member) ends⟩
    have turns := turns_members reads (parseValue_skips lib levels) (show Named (names ([] ++ members)) from named)
    cases members with
    | nil => rfl
    | cons m members =>
      rw [text,textMembers,enclosed_append]
      change parseObjectValue (parseValue lib levels) _ = _
      have starts : Starts (quoted m.1 ++ ':' :: layout.colon ++ text lib layout (level + 1) m.2) :=
        ((starts_quoted m.1).append _).append _
      rw [parseObjectValue_starts _ (layout.blank_gap level) (starts.append _)]
      exact parseElements_enclosed (layout.blank_gap level) (layout.blank_close level) (Or.inr rfl) turns rest

end Mybmm.Json
