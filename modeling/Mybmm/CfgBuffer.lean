import Mybmm.CfgFile

/-! `cfg_read` with the one buffer its lines share. What a line leaves there stays until
another is written over it, and a line without a `=` is read on past its end. -/
namespace Mybmm.CfgBuffer
open CString Libc Cfg CfgFile

def lineSize : Nat := 1022

/-- What `_readline` leaves in the buffer: the characters it took, with the terminator
where their trailing white space starts. -/
def fillLine (line : Memory) (buf : Text) : Memory :=
  store (store (store line 0 [nul]) 0 buf) (buf.rdropWhile isspace).length [nul]

def readlineInto (line : Memory) (file : Text) : Memory × Option Text :=
  let (buf,rest) := readChars (lineSize - 1) [] file
  (fillLine line buf,rest)

/-- Where the keyword ends: at a `=`, at the end of the text or when it is full. -/
def keywordEnd (text : Text) : Nat := min (cfgKeywordSize - 1) (text.takeWhile (· ≠ '=')).length

/-- The body of the loop, and the keyword and the value of the item it builds. The cursor
goes over the character after the keyword whatever that is. -/
def passLine (r : Reader) (line : Memory) : Option (Reader × Option (Text × Text)) :=
  let text := cstr line 0 lineSize
  if text = [] then some ({ r with current := none },none) else
  match headerName text with
  | some name => some (⟨openSection name r.info,some name,[]⟩,none)
  | none =>
    match r.current with
    | none => some (r,none)
    | some current =>
      if isComment text then some ({ r with desc := text.take 1023 },none) else do
        let x := keywordEnd text
        let keyword := trim (toupper (text.take x))
        let value ← textFrom line (x + 1) (lineSize - (x + 1))
        let item : CfgItem := ⟨keyword,if r.desc = [] then none else some r.desc,value⟩
        some (⟨assignItem current item r.info,some current,[]⟩,some (keyword,value))

structure Loop where
  reader : Reader
  line : Memory

/-- One turn of the loop on what is left of the file. -/
def turn (l : Loop) (file : Text) : Option (Loop × Option (Text × Text) × Option Text) := do
  let (line,rest) := readlineInto l.line file
  let (reader,item) ← passLine l.reader line
  some (⟨reader,line⟩,item,rest)

def start (stack : Memory) : Loop := ⟨⟨⟨[]⟩,none,[]⟩,stack⟩

theorem turn_shorter {l l' : Loop} {file rest : Text} {item : Option (Text × Text)}
    (goes : turn l file = some (l',item,some rest)) : rest.length < file.length := by
  apply readChars_shorter (lineSize - 1) [] file rest
  simp only [turn,readlineInto,Option.bind_eq_bind,Option.bind_eq_some_iff,Option.some.injEq,Prod.mk.injEq] at goes
  obtain ⟨_,_,_,_,same⟩ := goes
  exact same

/-- The rest of `cfg_read` from a turn on. -/
def cfgReadFrom (l : Loop) (file : Text) : Option CfgInfo :=
  match _turned : turn l file with
  | none => none
  | some (l',_,none) => some l'.reader.info
  | some (l',_,some rest) => cfgReadFrom l' rest
termination_by file.length
decreasing_by exact turn_shorter _turned

/-- The runs of `cfg_read` on a file and a stack: what its loop can come to, and what is
left of the file then. -/
inductive Reads (stack : Memory) (file : Text) : Loop → Text → Prop
  | start : Reads stack file (start stack) file
  | next {l l' : Loop} {text rest : Text} {item : Option (Text × Text)} (before : Reads stack file l text)
      (goes : turn l text = some (l',item,some rest)) : Reads stack file l' rest

/-! The buffer. -/

private theorem fillLine_terminator (line : Memory) (buf : Text) :
    fillLine line buf (buf.rdropWhile isspace).length = nul := by
  exact store_within (store (store line 0 [nul]) 0 buf) (buf.rdropWhile isspace).length [nul] 0 (by simp)

theorem trimmed_le (buf : Text) : (buf.rdropWhile isspace).length ≤ buf.length :=
  (List.rdropWhile_prefix isspace buf).length_le

theorem fillLine_trimmed (line : Memory) (buf : Text) (i : Nat) (within : i < (buf.rdropWhile isspace).length) :
    fillLine line buf i = (buf.rdropWhile isspace)[i] := by
  have inside : i < buf.length := lt_of_lt_of_le within (trimmed_le buf)
  have held := store_within (store line 0 [nul]) 0 buf i inside
  rw [Nat.zero_add] at held
  rw [fillLine,store_before _ _ _ _ within,held]
  exact ((List.rdropWhile_prefix isspace buf).getElem within).symm

theorem fillLine_beyond (line : Memory) (buf : Text) (i : Nat) (beyond : (buf.rdropWhile isspace).length < i) :
    fillLine line buf i = if h : i < buf.length then buf[i] else line i := by
  rw [fillLine,store_after _ _ _ _ beyond]
  split_ifs with inside
  · have held := store_within (store line 0 [nul]) 0 buf i inside
    rwa [Nat.zero_add] at held
  · rw [store_after _ _ _ _ (by omega),store_after _ _ _ _ (by simp; omega)]

/-- The text of a line, as the parser sees it. -/
def lineText (buf : Text) : Text := (buf.rdropWhile isspace).takeWhile (· ≠ nul)

private theorem cstr_fillLine (line : Memory) (buf : Text) (fits : buf.length < lineSize) :
    cstr (fillLine line buf) 0 lineSize = lineText buf := by
  apply cstr_textFrom
  refine textFrom_held _ _ 0 lineSize (lt_of_le_of_lt (trimmed_le buf) fits) (fun i bound => ?_) ?_
  · rw [Nat.zero_add]
    exact fillLine_trimmed line buf i bound
  · rw [Nat.zero_add]
    exact fillLine_terminator line buf

/-- A value that starts within its own line, or at its end, is read from it alone. -/
theorem textFrom_own (line : Memory) (buf : Text) (fits : buf.length < lineSize) (off : Nat)
    (own : off ≤ (buf.rdropWhile isspace).length) :
    textFrom (fillLine line buf) off (lineSize - off) =
      some (((buf.rdropWhile isspace).drop off).takeWhile (· ≠ nul)) := by
  have size : ((buf.rdropWhile isspace).drop off).length = (buf.rdropWhile isspace).length - off := List.length_drop
  have short := trimmed_le buf
  apply textFrom_held
  · omega
  · intro i bound
    rw [List.getElem_drop]
    exact fillLine_trimmed line buf (off + i) (by omega)
  · rw [size,Nat.add_sub_cancel' own]
    exact fillLine_terminator line buf

theorem readChars_fits (room : Nat) (buf file : Text) (fits : buf.length ≤ room) (start : 0 < room) :
    (readChars room buf file).1.length ≤ room := by
  induction file generalizing buf with
  | nil => simpa [readChars] using fits
  | cons ch file ih =>
    unfold readChars
    split_ifs with ascii stop begun more blank
    · exact fits
    · exact ih _ (by simp; omega)
    · exact fits
    · exact ih buf fits
    · exact ih [ch] start
    · exact ih buf fits

/-! Against the parser of the lines as texts. -/

private theorem drop_takeWhile {α : Type} (p : α → Bool) (l : List α) (n : Nat) (short : n ≤ (l.takeWhile p).length) :
    (l.takeWhile p).drop n = (l.drop n).takeWhile p := by
  induction l generalizing n with
  | nil => simp
  | cons a l ih =>
    cases n with
    | zero => rfl
    | succ n =>
      by_cases hit : p a = true
      · rw [List.takeWhile_cons_of_pos hit] at short ⊢
        exact ih n (by simpa using short)
      · rw [List.takeWhile_cons_of_neg hit] at short
        simp at short

section
variable (r : Reader) (line : Memory) {buf : Text} (fits : buf.length < lineSize)
include fits

theorem pass_blank (blank : lineText buf = []) :
    passLine r (fillLine line buf) = some ({ r with current := none },none) := by
  simp only [passLine,cstr_fillLine line buf fits,if_pos blank]

theorem pass_header {name : Text} (filled : lineText buf ≠ []) (header : headerName (lineText buf) = some name) :
    passLine r (fillLine line buf) = some (⟨openSection name r.info,some name,[]⟩,none) := by
  simp only [passLine,cstr_fillLine line buf fits,if_neg filled,header]

theorem pass_outside (filled : lineText buf ≠ []) (other : headerName (lineText buf) = none)
    (outside : r.current = none) : passLine r (fillLine line buf) = some (r,none) := by
  simp only [passLine,cstr_fillLine line buf fits,if_neg filled,other,outside]

theorem pass_comment {name : Text} (filled : lineText buf ≠ []) (other : headerName (lineText buf) = none)
    (inside : r.current = some name) (comment : isComment (lineText buf) = true) :
    passLine r (fillLine line buf) = some ({ r with desc := (lineText buf).take 1023 },none) := by
  simp only [passLine,cstr_fillLine line buf fits,if_neg filled,other,inside,comment,if_true]

theorem pass_item {name : Text} (filled : lineText buf ≠ []) (other : headerName (lineText buf) = none)
    (inside : r.current = some name) (plain : isComment (lineText buf) = false) :
    passLine r (fillLine line buf) =
      (textFrom (fillLine line buf) (keywordEnd (lineText buf) + 1) (lineSize - (keywordEnd (lineText buf) + 1))).map
        fun value =>
          (⟨assignItem name ⟨trim (toupper ((lineText buf).take (keywordEnd (lineText buf)))),
              if r.desc = [] then none else some r.desc,value⟩ r.info,some name,[]⟩,
            some (trim (toupper ((lineText buf).take (keywordEnd (lineText buf)))),value)) := by
  simp only [passLine,cstr_fillLine line buf fits,if_neg filled,other,inside,plain,Bool.false_eq_true,if_false]
  cases textFrom (fillLine line buf) (keywordEnd (lineText buf) + 1) (lineSize - (keywordEnd (lineText buf) + 1)) <;>
    rfl

end

private theorem keywordValue_some {text keyword value : Text} (reads : keywordValue text = some (keyword,value)) :
    keywordEnd text + 1 ≤ text.length ∧ trim (toupper (text.take (keywordEnd text))) = keyword ∧
      text.drop (keywordEnd text + 1) = value := by
  simp only [keywordValue] at reads
  split_ifs at reads with own
  have same := Option.some.inj reads
  exact ⟨own,congrArg Prod.fst same,congrArg Prod.snd same⟩

private theorem textFrom_text (line : Memory) {buf : Text} (fits : buf.length < lineSize) {off : Nat}
    (inside : off ≤ (lineText buf).length) :
    textFrom (fillLine line buf) off (lineSize - off) = some ((lineText buf).drop off) := by
  have whole : (lineText buf).length ≤ (buf.rdropWhile isspace).length :=
    (List.takeWhile_prefix (· ≠ nul)).length_le
  rw [textFrom_own line buf fits off (inside.trans whole),lineText,drop_takeWhile _ _ _ inside]

private theorem passLine_eq (r t : Reader) (line : Memory) (buf : Text) (fits : buf.length < lineSize)
    (reads : cfgReadLine r (lineText buf) = some t) :
    ∃ item, passLine r (fillLine line buf) = some (t,item) := by
  by_cases blank : lineText buf = []
  · rw [blank,readLine_blank] at reads
    exact ⟨none,by rw [pass_blank r line fits blank,Option.some.inj reads]⟩
  · cases header : headerName (lineText buf) with
    | some name =>
      rw [readLine_header header] at reads
      exact ⟨none,by rw [pass_header r line fits blank header,Option.some.inj reads]⟩
    | none =>
      cases current : r.current with
      | none =>
        rw [readLine_outside blank header current] at reads
        exact ⟨none,by rw [pass_outside r line fits blank header current,Option.some.inj reads]⟩
      | some name =>
        cases comment : isComment (lineText buf) with
        | true =>
          rw [readLine_comment blank header current comment] at reads
          exact ⟨none,by rw [pass_comment r line fits blank header current comment,Option.some.inj reads]⟩
        | false =>
          cases parsed : keywordValue (lineText buf) with
          | none => simp [cfgReadLine,blank,header,current,comment,parsed] at reads
          | some pair =>
            rw [readLine_item blank header current comment parsed] at reads
            obtain ⟨inside,keyword,value⟩ := keywordValue_some parsed
            refine ⟨some pair,?_⟩
            rw [pass_item r line fits blank header current comment,textFrom_text line fits inside,keyword,value,
              Option.map_some,Option.some.inj reads]

private theorem cfgReadFrom_last {l l' : Loop} {file : Text} {item : Option (Text × Text)}
    (goes : turn l file = some (l',item,none)) : cfgReadFrom l file = some l'.reader.info := by
  rw [cfgReadFrom]
  split <;> simp_all

private theorem cfgReadFrom_next {l l' : Loop} {file rest : Text} {item : Option (Text × Text)}
    (goes : turn l file = some (l',item,some rest)) : cfgReadFrom l file = cfgReadFrom l' rest := by
  rw [cfgReadFrom]
  split <;> simp_all

/-- Where reading has a meaning without the buffer, it is the same with it, whatever was on
the stack. -/
theorem cfgReadFrom_eq (stack : Memory) (file : Text) (info : CfgInfo) (reads : cfgRead file = some info) :
    cfgReadFrom (start stack) file = some info := by
  suffices general : ∀ (l : Loop) (t : Reader), (readLines file).foldlM cfgReadLine l.reader = some t →
      cfgReadFrom l file = some t.info by
    obtain ⟨t,done,rfl⟩ := Option.map_eq_some_iff.mp reads
    exact general (start stack) t done
  clear reads
  induction size : file.length using Nat.strong_induction_on generalizing file with
  | _ size ih =>
    intro l t done
    have fits : (readChars (lineSize - 1) [] file).1.length < lineSize :=
      Nat.lt_succ_of_le (readChars_fits _ _ _ (Nat.zero_le _) (by simp [lineSize]))
    have shorter := readChars_shorter (lineSize - 1) [] file
    cases taken : readChars (lineSize - 1) [] file with
    | mk buf rest =>
      rw [taken] at fits shorter
      have text : readline 1022 file = (lineText buf,rest) := by
        change (lineText (readChars (lineSize - 1) [] file).1,(readChars (lineSize - 1) [] file).2) = _
        rw [taken]
      have goes (r : Reader) (reads : cfgReadLine l.reader (lineText buf) = some r) :
          ∃ item, turn l file = some (⟨r,fillLine l.line buf⟩,item,rest) := by
        obtain ⟨item,passed⟩ := passLine_eq l.reader r l.line buf fits reads
        exact ⟨item,by simp only [turn,readlineInto,taken,passed,Option.bind_eq_bind,Option.bind_some]⟩
      rw [readLines,text] at done
      cases rest with
      | none =>
        simp only [List.foldlM_cons,List.foldlM_nil,Option.bind_eq_bind,Option.bind_eq_some_iff] at done
        obtain ⟨r,reads,last⟩ := done
        obtain ⟨item,turned⟩ := goes r reads
        obtain rfl := Option.some.inj last
        exact cfgReadFrom_last turned
      | some rest =>
        simp only [List.foldlM_cons,Option.bind_eq_bind,Option.bind_eq_some_iff] at done
        obtain ⟨r,reads,later⟩ := done
        obtain ⟨item,turned⟩ := goes r reads
        rw [cfgReadFrom_next turned]
        exact ih rest.length (by rw [← size]; exact shorter rest rfl) rest rfl ⟨r,fillLine l.line buf⟩ t later

end Mybmm.CfgBuffer
