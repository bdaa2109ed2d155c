import Mybmm.Json

/-! The parser of parson.c. A function that moves the pointer along the text returns what is
left of it. -/
namespace Mybmm.Json
open CString Libc

variable {ν : Type}

def maxNesting : Nat := 2048

def skipWhitespaces (s : Text) : Text := s.dropWhile isspace

def hexCharToInt (c : Char) : Option Nat :=
  if '0' ≤ c ∧ c ≤ '9' then some (c.toNat - '0'.toNat)
  else if 'a' ≤ c ∧ c ≤ 'f' then some (c.toNat - 'a'.toNat + 10)
  else if 'A' ≤ c ∧ c ≤ 'F' then some (c.toNat - 'A'.toNat + 10)
  else none

def parseUtf16Hex : Text → Option Nat
  | a :: b :: c :: d :: _ => do
    let x1 ← hexCharToInt a
    let x2 ← hexCharToInt b
    let x3 ← hexCharToInt c
    let x4 ← hexCharToInt d
    return x1 <<< 12 ||| x2 <<< 8 ||| x3 <<< 4 ||| x4
  | _ => none

def byte (n : Nat) : Char := Char.ofNat n

/-- `parse_utf16`, from behind the `u` on: the bytes it stores and the number of characters
that the pointer moves on. -/
def parseUtf16 (unprocessed : Text) : Option (Text × Nat) := do
  let cp ← parseUtf16Hex unprocessed
  if cp < 0x80 then return ([byte cp],4)
  else if cp < 0x800 then return ([byte (cp >>> 6 &&& 0x1F ||| 0xC0),byte (cp &&& 0x3F ||| 0x80)],4)
  else if cp < 0xD800 || cp > 0xDFFF then
    return ([byte (cp >>> 12 &&& 0x0F ||| 0xE0),byte (cp >>> 6 &&& 0x3F ||| 0x80),byte (cp &&& 0x3F ||| 0x80)],4)
  else if cp ≤ 0xDBFF then
    match unprocessed.drop 4 with
    | '\\' :: 'u' :: unprocessed =>
      let trail ← parseUtf16Hex unprocessed
      if trail < 0xDC00 || trail > 0xDFFF then none
      else
        let cp := ((cp - 0xD800 &&& 0x3FF) <<< 10 ||| trail - 0xDC00 &&& 0x3FF) + 0x10000
        return ([byte (cp >>> 18 &&& 0x07 ||| 0xF0),byte (cp >>> 12 &&& 0x3F ||| 0x80),
          byte (cp >>> 6 &&& 0x3F ||| 0x80),byte (cp &&& 0x3F ||| 0x80)],10)
    | _ => none
  else none

/-- One turn of `process_string` behind a backslash: what it stores and how far the pointer
moves on. Behind the last character stands the closing quote. -/
def unescape : Text → Option (Text × Nat)
  | [] => none
  | c :: s =>
    if c = '"' then some (['"'],1)
    else if c = '\\' then some (['\\'],1)
    else if c = '/' then some (['/'],1)
    else if c = 'b' then some ([byte 8],1)
    else if c = 'f' then some ([byte 12],1)
    else if c = 'n' then some (['\n'],1)
    else if c = 'r' then some (['\r'],1)
    else if c = 't' then some (['\t'],1)
    else if c = 'u' then (parseUtf16 s).map fun (out,n) => (out,n + 1)
    else none

/-- The loop of `process_string`; the pointer is `ahead` of the text's first character. -/
def processLoop : (ahead : Nat) → Text → Option Text
  | _, [] => some []
  | ahead + 1, _ :: s => processLoop ahead s
  | 0, c :: s =>
    if c = '\\' then
      match unescape s with
      | none => none
      | some (out,n) => (processLoop n s).map (out ++ ·)
    else if c.toNat < 0x20 then none
    else (processLoop 0 s).map (c :: ·)

def processString (input : Text) : Option Text := processLoop 0 input

/-- The loop of `skip_quotes`. -/
def skipLoop : Text → Option Text
  | [] => none
  | c :: s =>
    if c = '"' then some s
    else if c = '\\' then
      match s with
      | [] => none
      | _ :: s => skipLoop s
    else skipLoop s

def skipQuotes : Text → Option Text
  | '"' :: s => skipLoop s
  | _ => none

def getQuotedString (s : Text) : Option (Text × Text) := do
  let rest ← skipQuotes s
  let inputStringLen := s.length - rest.length - 2
  let string ← processString (s.tail.take inputStringLen)
  return (string,rest)

def isDecimal (s : Text) : Bool :=
  (match s with
    | '0' :: c :: _ => c = '.'
    | '-' :: '0' :: c :: _ => c = '.'
    | _ => true) &&
  s.all fun c => c ≠ 'x' && c ≠ 'X'

def parseStringValue (s : Text) : Option (Value ν × Text) :=
  (getQuotedString s).map fun (string,rest) => (.string string,rest)

def parseBooleanValue (s : Text) : Option (Value ν × Text) :=
  if "true".toList.isPrefixOf s then some (.boolean true,s.drop 4)
  else if "false".toList.isPrefixOf s then some (.boolean false,s.drop 5)
  else none

def jsonValueInitNumber (lib : Numbers ν) (number : ν) : Option (Value ν) :=
  if lib.invalid number then none else some (.number number)

def parseNumberValue (lib : Numbers ν) (s : Text) : Option (Value ν × Text) :=
  let (number,read,errno) := lib.strtod s
  if errno || !isDecimal (s.take read) then none
  else (jsonValueInitNumber lib number).map fun value => (value,s.drop read)

def parseNullValue (s : Text) : Option (Value ν × Text) :=
  if "null".toList.isPrefixOf s then some (.null,s.drop 4) else none

/-- Behind the last value of an array or an object. -/
def parseClose (close : Char) (value : Value ν) (s : Text) : Option (Value ν × Text) :=
  match skipWhitespaces s with
  | [] => none
  | c :: s => if c = close then some (value,s) else none

/-- Whether a comma follows, and what is behind it and its white space. -/
def parseComma (s : Text) : Option Text :=
  match skipWhitespaces s with
  | ',' :: s => some (skipWhitespaces s)
  | _ => none

/-- The loop over the elements of an array or an object, up to the one that no comma follows.
Every turn reads a character at least, so that there are no more of them than characters. -/
def parseElements {α : Type} (element : α → Text → Option (α × Text)) (close : Char) (value : α → Value ν) :
    (turns : Nat) → α → Text → Option (Value ν × Text)
  | 0, read, s => parseClose close (value read) s
  | turns + 1, read, s =>
    if s = [] then parseClose close (value read) s
    else
      match element read s with
      | none => none
      | some (read,s) =>
        match parseComma s with
        | some s => parseElements element close value turns read s
        | none => parseClose close (value read) s

/-- A turn of `parse_object_value`: the name, the value and the pair added to the object. -/
def parseMember (parseValue : Text → Option (Value ν × Text)) (object : Members ν) (s : Text) :
    Option (Members ν × Text) := do
  let (newKey,s) ← getQuotedString s
  if nul ∈ newKey then none
  else
    match skipWhitespaces s with
    | ':' :: s =>
      let (newValue,s) ← parseValue s
      let object ← jsonObjectAddn object newKey newValue
      return (object,s)
    | _ => none

def parseObjectValue (parseValue : Text → Option (Value ν × Text)) (s : Text) : Option (Value ν × Text) :=
  match skipWhitespaces s with
  | '}' :: s => some (.object [],s)
  | s => parseElements (parseMember parseValue) '}' .object s.length [] s

/-- A turn of `parse_array_value`. -/
def parseItem (parseValue : Text → Option (Value ν × Text)) (array : List (Value ν)) (s : Text) :
    Option (List (Value ν) × Text) := do
  let (newArrayValue,s) ← parseValue s
  return (array ++ [newArrayValue],s)

def parseArrayValue (parseValue : Text → Option (Value ν × Text)) (s : Text) : Option (Value ν × Text) :=
  match skipWhitespaces s with
  | ']' :: s => some (.array [],s)
  | s => parseElements (parseItem parseValue) ']' .array s.length [] s

/-- `parse_value`; `levels` is how many more the nesting may reach, itself included. -/
def parseValue (lib : Numbers ν) : (levels : Nat) → Text → Option (Value ν × Text)
  | 0, _ => none
  | levels + 1, s =>
    match skipWhitespaces s with
    | [] => none
    | c :: s =>
      if c = '{' then parseObjectValue (parseValue lib levels) s
      else if c = '[' then parseArrayValue (parseValue lib levels) s
      else if c = '"' then parseStringValue (c :: s)
      else if c = 'f' || c = 't' then parseBooleanValue (c :: s)
      else if c = '-' || isdigit c then parseNumberValue lib (c :: s)
      else if c = 'n' then parseNullValue (c :: s)
      else none

def byteOrderMark : Text := [byte 0xEF,byte 0xBB,byte 0xBF]

def jsonParseString (lib : Numbers ν) (string : Text) : Option (Value ν) :=
  let string := if byteOrderMark.isPrefixOf string then string.drop 3 else string
  (parseValue lib (maxNesting + 1) string).map Prod.fst

end Mybmm.Json
