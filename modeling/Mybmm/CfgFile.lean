import Mathlib.Data.List.DropRight
import Mybmm.Cfg

/-! The configuration file: what `cfg_write` prints, and the line reader and the
parser of `cfg_read`. A pointer to a section is told by its name, which is what
the parser found it by. -/
namespace Mybmm.CfgFile
open CString Libc Cfg

def isascii (c : Char) : Bool := c.toNat < 128

/-- The characters of one call of `_readline`, and what is left of the file unless
its end was met; `buf` is not empty once the line has a start. -/
def readChars (room : Nat) : (buf rest : Text) → Text × Option Text
  | buf, [] => (buf,none)
  | buf, ch :: rest =>
    if ¬ isascii ch then readChars room buf rest
    else if ch = '\n' then (buf,some rest)
    else if buf ≠ [] then if buf.length < room then readChars room (buf ++ [ch]) rest else (buf,some rest)
    else if isspace ch then readChars room buf rest else readChars room [ch] rest

def readline (size : Nat) (file : Text) : Text × Option Text :=
  let (buf,rest) := readChars (size - 1) [] file
  ((buf.rdropWhile isspace).takeWhile (· ≠ nul),rest)

theorem readChars_shorter (room : Nat) (buf file rest : Text) (goes : (readChars room buf file).2 = some rest) :
    rest.length < file.length := by
  induction file generalizing buf with
  | nil => simp [readChars] at goes
  | cons ch file ih =>
    rw [List.length_cons]
    unfold readChars at goes
    split_ifs at goes with ascii stop start full blank
    · obtain rfl := Option.some.inj goes
      exact Nat.lt_succ_self _
    · exact (ih _ goes).trans (Nat.lt_succ_self _)
    · obtain rfl := Option.some.inj goes
      exact Nat.lt_succ_self _
    · exact (ih buf goes).trans (Nat.lt_succ_self _)
    · exact (ih _ goes).trans (Nat.lt_succ_self _)
    · exact (ih buf goes).trans (Nat.lt_succ_self _)

/-- The lines of `cfg_read`. A file that ends in a line feed has a blank line
after it. -/
def readLines (file : Text) : List Text :=
  match _read : readline 1022 file with
  | (line,none) => [line]
  | (line,some rest) => line :: readLines rest
termination_by file.length
decreasing_by exact readChars_shorter 1021 [] file rest (congrArg Prod.snd _read)

/-- `trim` drops other control characters too, in front. -/
def trim (s : Text) : Text := (s.dropWhile fun c => isspace c || (0 < c.toNat && c.toNat < 32)).rdropWhile isspace

def headerName (line : Text) : Option Text :=
  match line with
  | '[' :: rest =>
    if ']' ∈ rest then some (toupper ((rest.takeWhile (· ≠ ']')).take (cfgSectionNameSize - 1))) else none
  | _ => none

def isComment (line : Text) : Bool := line.head? = some ';' || line.head? = some '#'

/-- The keyword and the value of any other line. Without a `=` the source reads on
past the end of the line, which has no meaning here. -/
def keywordValue (line : Text) : Option (Text × Text) :=
  let x := min (cfgKeywordSize - 1) (line.takeWhile (· ≠ '=')).length
  if x < line.length then some (trim (toupper (line.take x)),line.drop (x + 1)) else none

structure Reader where
  info : CfgInfo
  current : Option Text
  desc : Text

def openSection (name : Text) (info : CfgInfo) : CfgInfo :=
  match cfgGetSection info name with
  | some _ => info
  | none => ⟨info.sections ++ [cfgCreateSection name]⟩

/-- A new item comes last; an old one of that keyword is deleted. -/
def addItem (item : CfgItem) (s : CfgSection) : CfgSection :=
  { s with items := s.items.eraseP (fun old => old.keyword == item.keyword) ++ [item] }

def assignItem (name : Text) (item : CfgItem) (info : CfgInfo) : CfgInfo :=
  ⟨updateFirst (fun s => s.name == name) (addItem item) info.sections⟩

def cfgReadLine (r : Reader) (line : Text) : Option Reader :=
  if line = [] then some { r with current := none } else
  match headerName line with
  | some name => some ⟨openSection name r.info,some name,[]⟩
  | none =>
    match r.current with
    | none => some r
    | some current =>
      if isComment line then some { r with desc := line.take 1023 } else do
        let (keyword,value) ← keywordValue line
        let item : CfgItem := ⟨keyword,if r.desc = [] then none else some r.desc,value⟩
        some ⟨assignItem current item r.info,some current,[]⟩

theorem readLine_blank (r : Reader) : cfgReadLine r [] = some { r with current := none } := rfl

theorem readLine_header {line name : Text} (header : headerName line = some name) (r : Reader) :
    cfgReadLine r line = some ⟨openSection name r.info,some name,[]⟩ := by
  have filled : line ≠ [] := by
    rintro rfl
    simp [headerName] at header
  simp only [cfgReadLine,if_neg filled,header]

theorem readLine_outside {line : Text} {r : Reader} (filled : line ≠ []) (other : headerName line = none)
    (outside : r.current = none) : cfgReadLine r line = some r := by
  simp only [cfgReadLine,if_neg filled,other,outside]

theorem readLine_comment {line name : Text} {r : Reader} (filled : line ≠ []) (other : headerName line = none)
    (inside : r.current = some name) (comment : isComment line = true) :
    cfgReadLine r line = some { r with desc := line.take 1023 } := by
  simp only [cfgReadLine,if_neg filled,other,inside,comment,if_true]

theorem readLine_item {line name keyword value : Text} {r : Reader} (filled : line ≠ [])
    (other : headerName line = none) (inside : r.current = some name) (plain : isComment line = false)
    (reads : keywordValue line = some (keyword,value)) :
    cfgReadLine r line = some ⟨assignItem name ⟨keyword,if r.desc = [] then none else some r.desc,value⟩ r.info,
      some name,[]⟩ := by
  simp only [cfgReadLine,if_neg filled,other,inside,plain,Bool.false_eq_true,if_false,reads]
  rfl

def cfgRead (file : Text) : Option CfgInfo :=
  ((readLines file).foldlM cfgReadLine ⟨⟨[]⟩,none,[]⟩).map Reader.info

/-! Writing. -/

/-- A description as it is written, on a line of its own. -/
def commented (desc : Text) : Text := if desc.head? = some ';' then desc else ';' :: desc

def itemLines (item : CfgItem) : List Text :=
  (match item.desc with
    | some desc => [commented desc]
    | none => []) ++ [item.keyword ++ '=' :: item.value]

def sectionLines (s : CfgSection) : List Text :=
  ('[' :: s.name ++ [']']) :: s.items.flatMap itemLines ++ [[]]

def cfgWrite (info : CfgInfo) : Text := (info.sections.flatMap sectionLines).flatMap fun line => line ++ ['\n']

/-! What the line reader makes of a file. -/

def strip (line : Text) : Text := (line.dropWhile isspace).rdropWhile isspace

def Plain (c : Char) : Prop := c.toNat < 128 ∧ c ≠ nul ∧ c ≠ '\n'

instance (c : Char) : Decidable (Plain c) := inferInstanceAs (Decidable (_ ∧ _ ∧ _))

private theorem readChars_plain (room : Nat) (c : Char) (buf rest : Text) (plain : Plain c) (fits : buf.length < room) :
    readChars room buf (c :: rest) =
      readChars room (if buf = [] ∧ isspace c then [] else buf ++ [c]) rest := by
  have ascii : isascii c = true := by simpa [isascii] using plain.1
  rw [readChars,if_neg (by simp [ascii]),if_neg plain.2.2]
  by_cases empty : buf = []
  · subst empty
    by_cases blank : isspace c = true <;> simp [blank]
  · simp [empty,fits]

theorem readChars_line (room : Nat) (buf line rest : Text) (plain : ∀ c ∈ line, Plain c)
    (fits : buf.length + line.length ≤ room) :
    readChars room buf (line ++ rest) =
      readChars room (if buf = [] then line.dropWhile isspace else buf ++ line) rest := by
  induction line generalizing buf with
  | nil => by_cases empty : buf = [] <;> simp [empty]
  | cons c line ih =>
    simp only [List.length_cons] at fits
    have tail : ∀ c ∈ line, Plain c := fun c held => plain c (by simp [held])
    rw [List.cons_append,readChars_plain room c buf _ (plain c (by simp)) (by omega)]
    by_cases empty : buf = []
    · subst empty
      by_cases blank : isspace c = true
      · rw [if_pos ⟨rfl,blank⟩,ih [] tail (by simp only [List.length_nil] at *; omega)]
        simp [blank]
      · rw [if_neg fun both => blank both.2,ih _ tail (by simp only [List.nil_append,List.length_cons,List.length_nil] at *; omega)]
        simp [blank]
    · rw [if_neg fun both => empty both.1,ih _ tail (by simp only [List.length_append,List.length_cons,List.length_nil]; omega)]
      simp [empty]

private theorem strip_plain {line : Text} (plain : ∀ c ∈ line, Plain c) : (strip line).takeWhile (· ≠ nul) = strip line := by
  rw [List.takeWhile_eq_self_iff]
  intro c held
  have inside : c ∈ line :=
    (List.dropWhile_suffix isspace).subset ((List.rdropWhile_prefix isspace _).subset held)
  simpa using (plain c inside).2.1

private theorem readline_line (line rest : Text) (plain : ∀ c ∈ line, Plain c) (fits : line.length ≤ 1021) :
    readline 1022 (line ++ '\n' :: rest) = (strip line,some rest) ∧ readline 1022 line = (strip line,none) := by
  have feed (buf : Text) : readChars 1021 buf ('\n' :: rest) = (buf,some rest) := by simp [readChars,isascii]
  have ended := readChars_line 1021 [] line ('\n' :: rest) plain (by simpa using fits)
  have last := readChars_line 1021 [] line [] plain (by simpa using fits)
  rw [if_pos rfl,feed] at ended
  rw [List.append_nil,if_pos rfl,readChars] at last
  constructor
  · rw [readline,ended]
    exact Prod.ext (strip_plain plain) rfl
  · rw [readline,last]
    exact Prod.ext (strip_plain plain) rfl

theorem readLines_line (line rest : Text) (plain : ∀ c ∈ line, Plain c) (fits : line.length ≤ 1021) :
    readLines (line ++ '\n' :: rest) = strip line :: readLines rest := by
  rw [readLines,(readline_line line rest plain fits).1]

theorem readLines_last (line : Text) (plain : ∀ c ∈ line, Plain c) (fits : line.length ≤ 1021) :
    readLines line = [strip line] := by
  rw [readLines,(readline_line line [] plain fits).2]

end Mybmm.CfgFile
