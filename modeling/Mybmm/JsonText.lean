import Mybmm.JsonParse

/-! The text of a value, with any white space between its tokens, and that the parser reads
it back. -/
namespace Mybmm.Json
open CString Libc

variable {ν : Type}

/-- The white space of a text: before each element of an array or an object of a level, before
the bracket that closes it, and behind the colons. -/
structure Layout where
  gap : Nat → Text
  close : Nat → Text
  colon : Text
  blank_gap : ∀ level, ∀ c ∈ gap level, isspace c = true
  blank_close : ∀ level, ∀ c ∈ close level, isspace c = true
  blank_colon : ∀ c ∈ colon, isspace c = true

def hexDigit (n : Nat) : Char := if n < 10 then Char.ofNat (48 + n) else Char.ofNat (87 + n)

/-- The characters that a backslash and one more stand for. -/
def shortEscape (c : Char) : Option Char :=
  if c = '"' || c = '\\' || c = '/' then some c
  else if c = byte 8 then some 'b'
  else if c = byte 12 then some 'f'
  else if c = '\n' then some 'n'
  else if c = '\r' then some 'r'
  else if c = '\t' then some 't'
  else none

def escape (c : Char) : Text :=
  match shortEscape c with
  | some e => ['\\',e]
  | none => if c.toNat < 0x20 then ['\\','u','0','0',hexDigit (c.toNat / 16),hexDigit (c.toNat % 16)] else [c]

def quoted (s : Text) : Text := '"' :: s.flatMap escape ++ ['"']

def enclosed (opening closing : Char) (gap close : Text) : List Text → Text
  | [] => [opening,closing]
  | part :: parts => opening :: gap ++ part ++ parts.flatMap (fun part => ',' :: gap ++ part) ++ close ++ [closing]

mutual

def text (lib : Numbers ν) (layout : Layout) (level : Nat) : Value ν → Text
  | .null => "null".toList
  | .boolean b => if b then "true".toList else "false".toList
  | .number x => lib.print x
  | .string chars => quoted chars
  | .array items => enclosed '[' ']' (layout.gap level) (layout.close level) (textItems lib layout level items)
  | .object members => enclosed '{' '}' (layout.gap level) (layout.close level) (textMembers lib layout level members)
termination_by structural v => v

def textItems (lib : Numbers ν) (layout : Layout) (level : Nat) : List (Value ν) → List Text
  | [] => []
  | v :: items => text lib layout (level + 1) v :: textItems lib layout level items
termination_by structural items => items

def textMembers (lib : Numbers ν) (layout : Layout) (level : Nat) : Members ν → List Text
  | [] => []
  | (name,v) :: members =>
    (quoted name ++ ':' :: layout.colon ++ text lib layout (level + 1) v) :: textMembers lib layout level members
termination_by structural members => members

end

/-! What may follow a value inside a text, and when a text is read as a number whatever
follows. -/

def Ends (rest : Text) : Prop := ∀ c ∈ rest.head?, c = ',' ∨ c = ']' ∨ c = '}' ∨ isspace c = true

theorem ends_nil : Ends [] := fun _ member => absurd member (Option.not_mem_none _)

def numeric (c : Char) : Bool := c = '-' || isdigit c

structure Reads (lib : Numbers ν) (s : Text) (x : ν) : Prop where
  printable : ∀ c ∈ s, 0x20 ≤ c.toNat ∧ c.toNat < 0x80
  head : s.head?.any numeric = true
  valid : lib.invalid x = false
  decimal : isDecimal s = true
  read : ∀ rest, Ends rest → lib.strtod (s ++ rest) = (x,s.length,false)

def Named (names : List Text) : Prop := names.Nodup ∧ ∀ name ∈ names, nul ∉ name

/-- What a value has to be for its text to be read back, but for its height. -/
def Readable (lib : Numbers ν) (v : Value ν) : Prop :=
  v.All (fun x => Reads lib (lib.print x) x) (fun _ => True) Named

/-! Strings. -/

private theorem parseUtf16Hex_control : ∀ n < 32,
    parseUtf16Hex ['0','0',hexDigit (n / 16),hexDigit (n % 16)] = some n := by decide

private theorem hexDigit_plain : ∀ n < 16, hexDigit n ≠ '"' ∧ hexDigit n ≠ '\\' := by decide

private theorem unescape_short {c e : Char} (short : shortEscape c = some e) (s : Text) :
    unescape (e :: s) = some ([c],1) := by
  simp only [shortEscape,Bool.or_eq_true,decide_eq_true_eq] at short
  split at short
  · rename_i same
    cases short
    rcases same with (rfl | rfl) | rfl <;> rfl
  split at short
  · subst c; cases short; rfl
  split at short
  · subst c; cases short; rfl
  split at short
  · subst c; cases short; rfl
  split at short
  · subst c; cases short; rfl
  split at short
  · subst c; cases short; rfl
  · cases short

private theorem shortEscape_none {c : Char} (plain : shortEscape c = none) : c ≠ '"' ∧ c ≠ '\\' := by
  constructor <;> rintro rfl <;> cases plain

private theorem unescape_control {n : Nat} (control : n < 32) (s : Text) :
    unescape ('u' :: '0' :: '0' :: hexDigit (n / 16) :: hexDigit (n % 16) :: s) = some ([byte n],5) := by
  have read : parseUtf16Hex ('0' :: '0' :: hexDigit (n / 16) :: hexDigit (n % 16) :: s) = some n :=
    parseUtf16Hex_control n control
  have small : n < 0x80 := by omega
  simp [unescape,parseUtf16,read,small]

private theorem processLoop_escape (c : Char) (s : Text) :
    processLoop 0 (escape c ++ s) = (processLoop 0 s).map (c :: ·) := by
  unfold escape
  split
  · rename_i e short
    simp [processLoop,unescape_short short]
  · rename_i plain
    split
    · rename_i control
      have same : byte c.toNat = c := Char.ofNat_toNat c
      have read := unescape_control control s
      rw [same] at read
      simp [processLoop,read]
    · rename_i control
      simp [processLoop,(shortEscape_none plain).2,control]

private theorem skipLoop_escaped_char (e : Char) (s : Text) : skipLoop ('\\' :: e :: s) = skipLoop s := rfl

private theorem skipLoop_plain {c : Char} (quote : c ≠ '"') (backslash : c ≠ '\\') (s : Text) :
    skipLoop (c :: s) = skipLoop s := by
  cases s <;> simp [skipLoop,quote,backslash]

private theorem skipLoop_escape (c : Char) (s : Text) : skipLoop (escape c ++ s) = skipLoop s := by
  unfold escape
  split
  · rfl
  · rename_i plain
    split
    · obtain ⟨quote,backslash⟩ := hexDigit_plain (c.toNat / 16) (by omega)
      obtain ⟨quote',backslash'⟩ := hexDigit_plain (c.toNat % 16) (by omega)
      simp only [List.cons_append,List.nil_append]
      rw [skipLoop_escaped_char,skipLoop_plain (by decide) (by decide),skipLoop_plain (by decide) (by decide),
        skipLoop_plain quote backslash,skipLoop_plain quote' backslash']
    · exact skipLoop_plain (shortEscape_none plain).1 (shortEscape_none plain).2 s

private theorem processString_escaped (s : Text) : processString (s.flatMap escape) = some s := by
  unfold processString
  induction s with
  | nil => rfl
  | cons c s ih => rw [List.flatMap_cons,processLoop_escape,ih]; rfl

private theorem skipLoop_escaped (s rest : Text) : skipLoop (s.flatMap escape ++ '"' :: rest) = some rest := by
  induction s with
  | nil => cases rest <;> rfl
  | cons c s ih => rw [List.flatMap_cons,List.append_assoc,skipLoop_escape,ih]

theorem getQuotedString_quoted (s rest : Text) : getQuotedString (quoted s ++ rest) = some (s,rest) := by
  have start : quoted s ++ rest = '"' :: (s.flatMap escape ++ '"' :: rest) := by simp [quoted]
  have skipped : skipQuotes ('"' :: (s.flatMap escape ++ '"' :: rest)) = some rest := skipLoop_escaped s rest
  have size : ('"' :: (s.flatMap escape ++ '"' :: rest)).length - rest.length - 2 = (s.flatMap escape).length := by
    simp only [List.length_cons,List.length_append]
    omega
  rw [start,getQuotedString,skipped]
  simp only [Option.bind_eq_bind,Option.bind_some]
  rw [size,List.tail_cons,List.take_left,processString_escaped]
  rfl

/-! White space, and the texts that begin with something else. -/

theorem skipWhitespaces_blank {gap : Text} (blank : ∀ c ∈ gap, isspace c = true) (s : Text) :
    skipWhitespaces (gap ++ s) = skipWhitespaces s := List.dropWhile_append_of_pos blank

theorem skipWhitespaces_solid {c : Char} (solid : isspace c = false) (s : Text) :
    skipWhitespaces (c :: s) = c :: s := by
  rw [skipWhitespaces,List.dropWhile_cons_of_neg]
  simp [solid]

/-- A text that begins with a value or a name. -/
def Starts (s : Text) : Prop := ∃ c t, s = c :: t ∧ isspace c = false ∧ c ≠ ']' ∧ c ≠ '}' ∧ c.toNat < 0x80

theorem Starts.append {s : Text} (starts : Starts s) (t : Text) : Starts (s ++ t) := by
  obtain ⟨c,s,rfl,start⟩ := starts
  exact ⟨c,s ++ t,rfl,start⟩

theorem Starts.skip {s : Text} (starts : Starts s) : skipWhitespaces s = s := by
  obtain ⟨c,t,rfl,solid,-⟩ := starts
  exact skipWhitespaces_solid solid t

theorem starts_quoted (s : Text) : Starts (quoted s) := ⟨'"',_,rfl,by decide,by decide,by decide,by decide⟩

theorem numeric_plain {c : Char} (number : numeric c = true) :
    isspace c = false ∧ c.toNat < 0x80 ∧ c ≠ ']' ∧ c ≠ '}' ∧ c ≠ '{' ∧ c ≠ '[' ∧ c ≠ '"' ∧ c ≠ 'f' ∧ c ≠ 't' := by
  have plain : isspace c = false ∧ c.toNat < 0x80 := by
    simp only [numeric,isdigit,Char.isDigit,Bool.or_eq_true,decide_eq_true_eq,Bool.and_eq_true] at number
    rcases number with rfl | ⟨low,high⟩
    · decide
    · have low : 48 ≤ c.toNat := low
      have high : c.toNat ≤ 57 := high
      have blank : c ≠ ' ' := by
        rintro rfl
        exact absurd low (by decide)
      constructor
      · simp [isspace,blank]
        omega
      · omega
  refine ⟨plain.1,plain.2,?_,?_,?_,?_,?_,?_,?_⟩ <;> rintro rfl <;> revert number <;> decide

theorem starts_number {s : Text} (number : s.head?.any numeric = true) : Starts s := by
  cases s with
  | nil => cases number
  | cons c s =>
    obtain ⟨solid,ascii,bracket,brace,-⟩ := numeric_plain number
    exact ⟨c,s,rfl,solid,bracket,brace,ascii⟩

private theorem starts_enclosed {opening : Char} (closing : Char) (gap close : Text) (parts : List Text)
    (bracket : opening = '[' ∨ opening = '{') : Starts (enclosed opening closing gap close parts) := by
  have plain : isspace opening = false ∧ opening ≠ ']' ∧ opening ≠ '}' ∧ opening.toNat < 0x80 := by
    rcases bracket with rfl | rfl <;> decide
  cases parts with
  | nil => exact ⟨opening,_,rfl,plain⟩
  | cons part parts => exact ⟨opening,_,rfl,plain⟩

theorem starts_text {lib : Numbers ν} (layout : Layout) (level : Nat) {v : Value ν} (readable : Readable lib v) :
    Starts (text lib layout level v) := by
  cases v with
  | null => exact ⟨'n',_,rfl,by decide,by decide,by decide,by decide⟩
  | boolean b =>
    cases b with
    | false => exact ⟨'f',_,rfl,by decide,by decide,by decide,by decide⟩
    | true => exact ⟨'t',_,rfl,by decide,by decide,by decide,by decide⟩
  | number x =>
    have reads : Reads lib (lib.print x) x := readable
    exact starts_number reads.head
  | string chars => exact starts_quoted chars
  | array items => exact starts_enclosed _ _ _ _ (Or.inl rfl)
  | object members => exact starts_enclosed _ _ _ _ (Or.inr rfl)

/-! The loop over the elements. -/

section Elements

variable {α : Type} {element : α → Text → Option (α × Text)} {closing : Char} {value : α → Value ν}
  {gap close : Text}

/-- Elements that are read one after the other. -/
inductive Turns (element : α → Text → Option (α × Text)) : α → List Text → α → Prop
  | done (read : α) : Turns element read [] read
  | turn {read next last : α} {part : Text} {parts : List Text} (starts : Starts part)
      (reads : ∀ rest, Ends rest → element read (part ++ rest) = some (next,rest))
      (later : Turns element next parts last) : Turns element read (part :: parts) last

private theorem ends_gap (blank : ∀ c ∈ gap, isspace c = true) {s : Text} (ends : Ends s) : Ends (gap ++ s) := by
  cases gap with
  | nil => exact ends
  | cons c gap =>
    intro first head
    cases head
    exact Or.inr (Or.inr (Or.inr (blank c List.mem_cons_self)))

private theorem parseComma_comma (blank : ∀ c ∈ gap, isspace c = true) {s : Text} (starts : Starts s) :
    parseComma (',' :: gap ++ s) = some s := by
  rw [parseComma,List.cons_append,skipWhitespaces_solid (by decide)]
  change some (skipWhitespaces (gap ++ s)) = some s
  rw [skipWhitespaces_blank blank,starts.skip]

private theorem parseComma_close (blank : ∀ c ∈ close, isspace c = true)
    (ending : closing = ']' ∨ closing = '}') (rest : Text) :
    parseComma (close ++ closing :: rest) = none := by
  rw [parseComma,skipWhitespaces_blank blank]
  rcases ending with rfl | rfl <;> rw [skipWhitespaces_solid (by decide)] <;> rfl

private theorem parseClose_close (blank : ∀ c ∈ close, isspace c = true) (ending : closing = ']' ∨ closing = '}')
    (v : Value ν) (rest : Text) : parseClose closing v (close ++ closing :: rest) = some (v,rest) := by
  have solid : isspace closing = false := by rcases ending with rfl | rfl <;> decide
  rw [parseClose,skipWhitespaces_blank blank,skipWhitespaces_solid solid]
  exact if_pos rfl

theorem parseElements_parts {read last : α} {part : Text} {parts : List Text} {turns : Nat}
    (blank : ∀ c ∈ gap, isspace c = true) (blank' : ∀ c ∈ close, isspace c = true)
    (ending : closing = ']' ∨ closing = '}') (reads : Turns element read (part :: parts) last)
    (enough : parts.length < turns) (rest : Text) :
    parseElements element closing value turns read
        (part ++ (parts.flatMap (fun part => ',' :: gap ++ part) ++ (close ++ closing :: rest))) =
      some (value last,rest) := by
  induction parts generalizing read part turns with
  | nil =>
    obtain ⟨turns,rfl⟩ := Nat.exists_eq_add_of_lt enough
    cases reads with
    | turn starts reads later =>
      cases later
      have ends : Ends (close ++ closing :: rest) := by
        apply ends_gap blank'
        intro c head
        cases head
        rcases ending with rfl | rfl <;> simp
      obtain ⟨c,part,rfl,-⟩ := starts
      rw [List.flatMap_nil,List.nil_append,parseElements,if_neg (by simp),reads _ ends]
      simp only
      rw [parseComma_close blank' ending]
      exact parseClose_close blank' ending _ rest
  | cons second parts ih =>
    obtain ⟨turns,rfl⟩ := Nat.exists_eq_add_of_lt enough
    cases reads with
    | @turn _ next _ _ _ starts reads later =>
      have starts' : Starts second := by cases later; assumption
      rw [List.flatMap_cons]
      have ends : Ends ((',' :: gap ++ second) ++ parts.flatMap (fun part => ',' :: gap ++ part) ++
          (close ++ closing :: rest)) := by
        intro c head
        cases head
        exact Or.inl rfl
      obtain ⟨c,part,rfl,-⟩ := starts
      rw [parseElements,if_neg (by simp),reads _ ends]
      simp only [List.append_assoc]
      rw [parseComma_comma blank (starts'.append _)]
      exact ih later (by rw [List.length_cons]; omega)

end Elements

/-! A library that prints whole numbers and reads decimals. -/

def numberChar (c : Char) : Bool := isdigit c || c = '-' || c = '.'

def decimals : Numbers ℚ where
  invalid _ := false
  print x := (if x < 0 then ['-'] else []) ++ Nat.toDigits 10 x.num.natAbs
  strtod s :=
    let read := s.takeWhile numberChar
    (atof read,read.length,false)

private theorem ends_plain {c : Char} {t : Text} (ends : Ends (c :: t)) : numberChar c = false := by
  have plain : ∀ n < 14, numberChar (Char.ofNat n) = false := by decide
  rcases ends c rfl with rfl | rfl | rfl | blank
  · rfl
  · rfl
  · rfl
  · simp only [isspace,Bool.or_eq_true,decide_eq_true_eq,Bool.and_eq_true] at blank
    rcases blank with rfl | ⟨_,high⟩
    · rfl
    · have control := plain c.toNat (by omega)
      rwa [Char.ofNat_toNat] at control

theorem strtod_decimals {s rest : Text} (chars : s.all numberChar = true) (ends : Ends rest) :
    decimals.strtod (s ++ rest) = (atof s,s.length,false) := by
  have read : (s ++ rest).takeWhile numberChar = s := by
    rw [List.takeWhile_append_of_pos (List.all_eq_true.mp chars)]
    cases rest with
    | nil => exact List.append_nil s
    | cons c t => rw [List.takeWhile_cons_of_neg (by simp [ends_plain ends]),List.append_nil]
  simp only [decimals,read]

theorem numberChar_printable {c : Char} (plain : numberChar c = true) : 0x20 ≤ c.toNat ∧ c.toNat < 0x80 := by
  simp only [numberChar,isdigit,Char.isDigit,Bool.or_eq_true,Bool.and_eq_true,decide_eq_true_eq] at plain
  rcases plain with (⟨low,high⟩ | rfl) | rfl
  · have low : 48 ≤ c.toNat := low
    have high : c.toNat ≤ 57 := high
    omega
  · decide
  · decide

theorem reads_decimals {s : Text} {x : ℚ} (chars : s.all numberChar = true) (head : s.head?.any numeric = true)
    (decimal : isDecimal s = true) (value : atof s = x) : Reads decimals s x where
  printable c member := numberChar_printable (List.all_eq_true.mp chars c member)
  head := head
  valid := rfl
  decimal := decimal
  read rest ends := by rw [strtod_decimals chars ends,value]

end Mybmm.Json
