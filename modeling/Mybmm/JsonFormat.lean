import Mathlib.Data.List.TakeWhile
import Mybmm.JsonAccepts
import Mybmm.JsonSerialize

/-! What is serialized is parsed again. -/
namespace Mybmm.Json
open CString Libc Output

variable {ν : Type}

/-! The characters of a text: none is a control character but for the white space of the
layout. -/

private theorem hexDigit_printable : ∀ n < 16, 0x20 ≤ (hexDigit n).toNat := by decide

private theorem shortEscape_printable {c e : Char} (short : shortEscape c = some e) : 0x20 ≤ e.toNat := by
  simp only [shortEscape,Bool.or_eq_true,decide_eq_true_eq] at short
  split at short
  · rename_i same
    cases short
    rcases same with (rfl | rfl) | rfl <;> decide
  split at short
  · cases short; decide
  split at short
  · cases short; decide
  split at short
  · cases short; decide
  split at short
  · cases short; decide
  split at short
  · cases short; decide
  · cases short

private theorem escape_printable {c d : Char} (member : d ∈ escape c) : 0x20 ≤ d.toNat := by
  unfold escape at member
  split at member
  · rename_i e short
    rcases List.mem_pair.mp member with rfl | rfl
    · decide
    · exact shortEscape_printable short
  split at member
  · simp only [List.mem_cons,List.not_mem_nil,or_false] at member
    rcases member with rfl | rfl | rfl | rfl | rfl | rfl
    · decide
    · decide
    · decide
    · decide
    · exact hexDigit_printable _ (by omega)
    · exact hexDigit_printable _ (by omega)
  · rename_i plain
    rw [List.mem_singleton.mp member]
    exact Nat.le_of_not_lt plain

private theorem quoted_printable {s : Text} {c : Char} (member : c ∈ quoted s) : 0x20 ≤ c.toNat := by
  simp only [quoted,List.cons_append,List.mem_cons,List.mem_append,List.mem_flatMap,List.not_mem_nil,or_false] at member
  rcases member with rfl | ⟨d,_,inside⟩ | rfl
  · decide
  · exact escape_printable inside
  · decide

private theorem mem_enclosed {opening closing c : Char} {gap close : Text} {parts : List Text}
    (member : c ∈ enclosed opening closing gap close parts) :
    c = opening ∨ c = closing ∨ c = ',' ∨ c ∈ gap ∨ c ∈ close ∨ ∃ part ∈ parts, c ∈ part := by
  cases parts with
  | nil =>
    rcases List.mem_pair.mp member with same | same
    · exact Or.inl same
    · exact Or.inr (Or.inl same)
  | cons part parts =>
    simp only [enclosed,List.cons_append,List.mem_cons,List.mem_append,List.mem_flatMap,List.not_mem_nil,or_false,
      or_assoc] at member
    rcases member with same | inside | inside | ⟨p,among,same | inside | inside⟩ | inside | same
    · exact Or.inl same
    · simp [inside]
    · simp [inside]
    · simp [same]
    · simp [inside]
    · exact Or.inr (Or.inr (Or.inr (Or.inr (Or.inr ⟨p,List.mem_cons_of_mem part among,inside⟩))))
    · simp [inside]
    · simp [same]

private theorem text_printable {lib : Numbers ν} {layout : Layout} {P : Char → Prop} (printable : ∀ c, 0x20 ≤ c.toNat → P c)
    (blank : ∀ c, isspace c = true → c ∈ layout.colon ∨ (∃ level, c ∈ layout.gap level ∨ c ∈ layout.close level) → P c)
    {v : Value ν} (readable : Readable lib v) (level : Nat) : ∀ c ∈ text lib layout level v, P c := by
  have gap : ∀ level, ∀ c ∈ layout.gap level, P c :=
    fun level c member => blank c (layout.blank_gap level c member) (Or.inr ⟨level,Or.inl member⟩)
  have close : ∀ level, ∀ c ∈ layout.close level, P c :=
    fun level c member => blank c (layout.blank_close level c member) (Or.inr ⟨level,Or.inr member⟩)
  have colon : ∀ c ∈ layout.colon, P c := fun c member => blank c (layout.blank_colon c member) (Or.inl member)
  induction v using Value.induct generalizing level with
  | null =>
    intro c member
    apply printable
    simp only [text,String.reduceToList,List.mem_cons,List.not_mem_nil,or_false] at member
    rcases member with rfl | rfl | rfl | rfl <;> decide
  | boolean b =>
    intro c member
    apply printable
    cases b with
    | false =>
      simp only [text,Bool.false_eq_true,if_false,String.reduceToList,List.mem_cons,List.not_mem_nil,or_false] at member
      rcases member with rfl | rfl | rfl | rfl | rfl <;> decide
    | true =>
      simp only [text,if_true,String.reduceToList,List.mem_cons,List.not_mem_nil,or_false] at member
      rcases member with rfl | rfl | rfl | rfl <;> decide
  | number x =>
    have reads : Reads lib (lib.print x) x := readable
    exact fun c member => printable c (reads.printable c member).1
  | string chars => exact fun c member => printable c (quoted_printable member)
  | array items ih =>
    intro c member
    rw [text,map_textItems] at member
    rcases mem_enclosed member with rfl | rfl | rfl | inside | inside | ⟨part,among,inside⟩
    · exact printable _ (by decide)
    · exact printable _ (by decide)
    · exact printable _ (by decide)
    · exact gap level c inside
    · exact close level c inside
    · obtain ⟨v,held,rfl⟩ := List.mem_map.mp among
      exact ih v held (all_array.mp readable v held) (level + 1) c inside
  | object members ih =>
    intro c member
    rw [text,map_textMembers] at member
    rcases mem_enclosed member with rfl | rfl | rfl | inside | inside | ⟨part,among,inside⟩
    · exact printable _ (by decide)
    · exact printable _ (by decide)
    · exact printable _ (by decide)
    · exact gap level c inside
    · exact close level c inside
    · obtain ⟨m,held,rfl⟩ := List.mem_map.mp among
      simp only [List.append_assoc,List.cons_append,List.mem_append,List.mem_cons] at inside
      rcases inside with inside | rfl | inside | inside
      · exact printable c (quoted_printable inside)
      · exact printable _ (by decide)
      · exact colon c inside
      · exact ih m held ((all_object.mp readable).2 m held) (level + 1) c inside

theorem text_compact {lib : Numbers ν} {v : Value ν} (readable : Readable lib v) (level : Nat) :
    ∀ c ∈ text lib compact level v, 0x20 ≤ c.toNat := by
  apply text_printable (fun _ printable => printable) _ readable
  rintro c _ (inside | ⟨_,inside | inside⟩) <;> cases inside

private theorem text_terminated {lib : Numbers ν} (isPretty : Bool) {v : Value ν} (readable : Readable lib v) (level : Nat) :
    nul ∉ text lib (layoutOf isPretty) level v := by
  intro member
  have other : ∀ c ∈ text lib (layoutOf isPretty) level v, c ≠ nul := text_printable
    (by rintro c printable rfl; exact absurd printable (by decide))
    (by rintro c blank _ rfl; exact absurd blank (by decide)) readable level
  exact other nul member rfl

/-! The buffers. -/

private theorem terminates_value (lib : Numbers ν) (isPretty : Bool) (v : Value ν) (level : Nat) :
    Terminates (serializeToBufferR lib isPretty v level) := by
  cases v with
  | null => exact terminates_string _
  | boolean b => cases b <;> exact terminates_string _
  | number x => exact terminates_string _
  | string chars => exact (terminates_string ['"']).comp
  | array items => exact (terminates_string [']']).comp
  | object members => exact (terminates_string ['}']).comp

private theorem size_text (lib : Numbers ν) (isPretty : Bool) {v : Value ν} {number : ν → Prop} {string : Text → Prop}
    (sound : v.All number string Named) :
    jsonSerializationSize lib isPretty v = (text lib (layoutOf isPretty) 0 v).length + 1 := by
  rw [jsonSerializationSize,(emits_value lib isPretty sound 0).counts]

private theorem serializeToBuffer_prints (lib : Numbers ν) (isPretty : Bool) {v : Value ν} {number : ν → Prop}
    {string : Text → Prop} (sound : v.All number string Named) (m : Memory) (buf : Nat) {bufSize : Nat}
    (fits : jsonSerializationSize lib isPretty v ≤ bufSize) :
    ∃ m', jsonSerializeToBuffer lib isPretty v m buf bufSize = some m' ∧
      Lies m' buf (text lib (layoutOf isPretty) 0 v ++ [nul]) ∧
      ∀ i, i < buf ∨ buf + (text lib (layoutOf isPretty) 0 v).length < i → m' i = m i := by
  obtain ⟨m',found,printed⟩ := (emits_value lib isPretty sound 0).prints (terminates_value lib isPretty v 0) m buf
  refine ⟨m',?_,printed⟩
  rw [jsonSerializeToBuffer,if_neg (Nat.not_lt.mpr fits),found,Option.map_some]

/-- The text as a string of C, which ends at the first terminator. -/
private theorem serializeToString_held (lib : Numbers ν) (isPretty : Bool) {v : Value ν} {number : ν → Prop}
    {string : Text → Prop} (sound : v.All number string Named) (m : Memory) :
    jsonSerializeToString lib isPretty v m = some ((text lib (layoutOf isPretty) 0 v).takeWhile (· ≠ nul)) := by
  obtain ⟨m',found,lies,_⟩ := serializeToBuffer_prints lib isPretty sound m 0 le_rfl
  rw [jsonSerializeToString,found,Option.bind_some,size_text lib isPretty sound]
  exact textFrom_lies lies

theorem serializeToString_text {lib : Numbers ν} {isPretty : Bool} {v : Value ν} (readable : Readable lib v)
    (m : Memory) : jsonSerializeToString lib isPretty v m = some (text lib (layoutOf isPretty) 0 v) := by
  rw [serializeToString_held lib isPretty readable,Option.some.injEq,List.takeWhile_eq_self_iff]
  intro c member
  have other : c ≠ nul := fun same => text_terminated isPretty readable 0 (same ▸ member)
  exact decide_eq_true other

/-- What a buffer that is large enough holds then: the text, as `json_serialize_to_string` gives
it, in the bytes that were counted. Nothing outside of those is changed. -/
structure Serialized (lib : Numbers ν) (isPretty : Bool) (v : Value ν) (m : Memory) (buf : Nat) (m' : Memory) :
    Prop where
  text : Lies m' buf (text lib (layoutOf isPretty) 0 v ++ [nul])
  frame : ∀ i, i < buf ∨ buf + jsonSerializationSize lib isPretty v ≤ i → m' i = m i
  string : ∀ k, textFrom m' buf (jsonSerializationSize lib isPretty v) = jsonSerializeToString lib isPretty v k

private theorem serializeToBuffer_fits (lib : Numbers ν) (isPretty : Bool) {v : Value ν} {number : ν → Prop}
    {string : Text → Prop} (sound : v.All number string Named) (m : Memory) (buf : Nat) {bufSize : Nat}
    (fits : jsonSerializationSize lib isPretty v ≤ bufSize) :
    ∃ m', jsonSerializeToBuffer lib isPretty v m buf bufSize = some m' ∧ Serialized lib isPretty v m buf m' := by
  obtain ⟨m',found,lies,frame⟩ := serializeToBuffer_prints lib isPretty sound m buf fits
  have size := size_text lib isPretty sound
  refine ⟨m',found,lies,fun i outside => frame i (by omega),fun k => ?_⟩
  rw [serializeToString_held lib isPretty sound,size]
  exact textFrom_lies lies

/-- A buffer is filled exactly when it is as large as the size that was counted, with the text
and its terminator and no further. -/
theorem serialize_within (lib : Numbers ν) (isPretty : Bool) {v : Value ν}
    (named : v.All (fun _ => True) (fun _ => True) Named) (m : Memory) (buf bufSize : Nat) :
    (jsonSerializeToBuffer lib isPretty v m buf bufSize = none ↔ bufSize < jsonSerializationSize lib isPretty v) ∧
      ∀ m', jsonSerializeToBuffer lib isPretty v m buf bufSize = some m' →
        Serialized lib isPretty v m buf m' := by
  by_cases small : bufSize < jsonSerializationSize lib isPretty v
  · have refused : jsonSerializeToBuffer lib isPretty v m buf bufSize = none := by
      rw [jsonSerializeToBuffer,if_pos small]
    simp [refused,small]
  · obtain ⟨m',found,serialized⟩ := serializeToBuffer_fits lib isPretty named m buf (Nat.not_lt.mp small)
    simp [found,small,serialized]

def bankSample : Value ℚ :=
  .object [("volts".toList,.array [.number 12,.number 0]),("line".toList,.string ['"',byte 0,'\n']),
    ("ready".toList,.boolean true)]

theorem serialize_within_sample :
    (jsonSerializeToBuffer decimals true bankSample (fun _ => nul) 4 100 = none ↔
        100 < jsonSerializationSize decimals true bankSample) ∧
      ∀ m', jsonSerializeToBuffer decimals true bankSample (fun _ => nul) 4 100 = some m' →
        Serialized decimals true bankSample (fun _ => nul) 4 m' := by
  apply serialize_within
  rw [bankSample,all_object]
  exact ⟨⟨by decide,by decide⟩,by simp [Value.All,AllItems]⟩

/-! Round trips. -/

private theorem not_byteOrderMark {s : Text} (starts : Starts s) : byteOrderMark.isPrefixOf s = false := by
  obtain ⟨c,t,rfl,_,_,_,ascii⟩ := starts
  have other : byte 0xEF ≠ c := by
    rintro rfl
    exact absurd ascii (by decide)
  simp [byteOrderMark,List.isPrefixOf,other]

private theorem parse_deep {lib : Numbers ν} (layout : Layout) {v : Value ν} (readable : Readable lib v) {levels : Nat}
    (deep : levels ≤ height v) : parseValue lib levels (text lib layout 0 v) = none := by
  rw [Option.eq_none_iff_forall_ne_some]
  rintro ⟨w,rest⟩ parsed
  have low := (parseValue_accepts parsed).low
  have whole := parse_text layout readable 0 (Nat.lt_succ_self (height v)) ends_nil
  rw [List.append_nil,parseValue_mono lib (Nat.le_succ_of_le deep) parsed] at whole
  cases whole
  exact absurd low (Nat.not_lt.mpr deep)

theorem parseString_text {lib : Numbers ν} (layout : Layout) {v : Value ν} (readable : Readable lib v) :
    jsonParseString lib (text lib layout 0 v) = if height v ≤ maxNesting then some v else none := by
  rw [jsonParseString,not_byteOrderMark (starts_text layout 0 readable)]
  simp only [Bool.false_eq_true,if_false]
  split_ifs with fits
  · have whole := parse_text layout readable 0 (Nat.lt_succ_of_le fits) ends_nil
    rw [List.append_nil] at whole
    rw [whole,Option.map_some]
  · rw [parse_deep layout readable (by omega),Option.map_none]

/-- What is serialized is parsed again, unless it lies deeper than the parser goes. -/
theorem serialize_parse {lib : Numbers ν} {v : Value ν} (readable : Readable lib v) (isPretty : Bool) (m : Memory) :
    ∃ s, jsonSerializeToString lib isPretty v m = some s ∧
      jsonParseString lib s = if height v ≤ maxNesting then some v else none :=
  ⟨_,serializeToString_text readable m,parseString_text _ readable⟩

theorem bankSample_readable : Readable decimals bankSample := by
  have zero : Reads decimals (decimals.print 0) 0 := reads_decimals rfl rfl rfl (by decide +kernel)
  have twelve : Reads decimals (decimals.print 12) 12 := reads_decimals rfl rfl rfl (by decide +kernel)
  rw [Readable,bankSample,all_object]
  refine ⟨⟨by decide,by decide⟩,?_⟩
  simp only [List.forall_mem_cons,all_array]
  exact ⟨⟨twelve,zero,List.forall_mem_nil _⟩,trivial,trivial,List.forall_mem_nil _⟩

theorem serialize_parse_sample : ∃ s, jsonSerializeToString decimals true bankSample (fun _ => nul) = some s ∧
    jsonParseString decimals s = if height bankSample ≤ maxNesting then some bankSample else none :=
  serialize_parse bankSample_readable true _

private theorem parseString_accepts {lib : Numbers ν} {s : Text} {v : Value ν} (parsed : jsonParseString lib s = some v) :
    Accepted lib (maxNesting + 1) v := by
  simp only [jsonParseString,Option.map_eq_some_iff] at parsed
  obtain ⟨⟨v,rest⟩,read,same⟩ := parsed
  cases same
  exact parseValue_accepts read

/-- What the parser accepts is well formed, and is parsed again from either form of its text. -/
theorem parse_serialize_parse {lib : Numbers ν} {s : Text} {v : Value ν} (parsed : jsonParseString lib s = some v)
    (numbers : v.All (fun x => Reads lib (lib.print x) x) (fun _ => True) (fun _ => True)) (isPretty : Bool)
    (m : Memory) :
    v.All (fun x => lib.invalid x = false) (fun _ => True) Named ∧ height v ≤ maxNesting ∧
      ∃ s', jsonSerializeToString lib isPretty v m = some s' ∧ jsonParseString lib s' = some v := by
  obtain ⟨low,sound⟩ := parseString_accepts parsed
  have fits : height v ≤ maxNesting := Nat.lt_succ_iff.mp low
  have readable : Readable lib v :=
    All.mono (fun _ both => both.2) (fun _ _ => trivial) (fun _ both => both.1) (All.and sound numbers)
  refine ⟨sound,fits,_,serializeToString_text readable m,?_⟩
  rw [parseString_text _ readable,if_pos fits]

theorem parse_serialize_parse_sample :
    bankSample.All (fun x => decimals.invalid x = false) (fun _ => True) Named ∧ height bankSample ≤ maxNesting ∧
      ∃ s, jsonSerializeToString decimals false bankSample (fun _ => nul) = some s ∧
        jsonParseString decimals s = some bankSample := by
  have parsed := parseString_text pretty bankSample_readable
  rw [if_pos (by decide)] at parsed
  apply parse_serialize_parse parsed
  exact All.mono (fun _ held => held) (fun _ _ => trivial) (fun _ _ => trivial) bankSample_readable

end Mybmm.Json
