import Mathlib.Data.Bool.AllAny
import Mybmm.CfgBuffer

/-! What the lines around a physical line can do to the item that is built from it. The
runs of `cfg_read` are compared two at a time: on files, and on stacks, that have nothing
in common but the line and the section in force. -/
namespace Mybmm.CfgIsolation
open CString Libc Cfg CfgFile CfgBuffer

/-- A run that has come to the start of a physical line. -/
def LineStart (stack : Memory) (file : Text) (l : Loop) (text : Text) : Prop :=
  Reads stack file l text ∧ ∃ before, file = before ++ text ∧ (before = [] ∨ before.getLast? = some '\n')

/-- What is built by the calls of `_readline` from here on to the one that comes to the end
of the line. A call that stops because the buffer is full has not come there. -/
def lineItems (l : Loop) (text : Text) : Option (List (Option (Text × Text))) :=
  match _turned : turn l text with
  | none => none
  | some (_,item,none) => some [item]
  | some (l',item,some rest) =>
    if (text.take (text.length - rest.length)).getLast? = some '\n' then some [item]
    else (lineItems l' rest).map (item :: ·)
termination_by text.length
decreasing_by exact turn_shorter _turned

def AtEnd (post : Text) : Prop := post = [] ∨ ∃ next, post = '\n' :: next

/-- Any two runs that come to the line in that section build the same, and only from its
first characters. -/
def Isolated (current : Option Text) (line : Text) : Prop :=
  ∀ stack file l post stack' file' l' post',
    LineStart stack file l (line ++ post) → AtEnd post → l.reader.current = current →
    LineStart stack' file' l' (line ++ post') → AtEnd post' → l'.reader.current = current →
    ∃ item later, lineItems l (line ++ post) = some (item :: later) ∧
      lineItems l' (line ++ post') = some (item :: later) ∧ ∀ other ∈ later, other = none

/-- Some run comes to the start of a line in that section. -/
def InForce (current : Option Text) : Prop :=
  ∃ stack file l text, LineStart stack file l text ∧ l.reader.current = current

/-! The pieces of a line. -/

def pieces (line : Text) : List Text :=
  match _read : readChars (lineSize - 1) [] line with
  | (buf,none) => [buf]
  | (buf,some rest) => buf :: pieces rest
termination_by line.length
decreasing_by exact readChars_shorter (lineSize - 1) [] line rest (congrArg Prod.snd _read)

def ItemLine (current : Option Text) (text : Text) : Prop :=
  current ≠ none ∧ text ≠ [] ∧ headerName text = none ∧ isComment text = false

instance (current : Option Text) (text : Text) : Decidable (ItemLine current text) :=
  inferInstanceAs (Decidable (_ ∧ _ ∧ _ ∧ _))

def sectionAfter (current : Option Text) (text : Text) : Option Text :=
  if text = [] then none else (headerName text).or current

/-- No piece is an item line of the section in force when its turn comes. -/
def Silent : Option Text → List Text → Prop
  | _, [] => True
  | current, buf :: later => ¬ ItemLine current (lineText buf) ∧ Silent (sectionAfter current (lineText buf)) later

instance decidableSilent : (current : Option Text) → (bufs : List Text) → Decidable (Silent current bufs)
  | _, [] => .isTrue trivial
  | current, buf :: later =>
    have := decidableSilent (sectionAfter current (lineText buf)) later
    inferInstanceAs (Decidable (_ ∧ _))

/-- The keyword of an item line ends before the line does. -/
def Closed (current : Option Text) (buf : Text) : Prop :=
  ItemLine current (lineText buf) → keywordEnd (lineText buf) < (buf.rdropWhile isspace).length

instance (current : Option Text) (buf : Text) : Decidable (Closed current buf) := inferInstanceAs (Decidable (_ → _))

def Contained (current : Option Text) (line : Text) : Prop :=
  Closed current ((pieces line).headD []) ∧
    Silent (sectionAfter current (lineText ((pieces line).headD []))) (pieces line).tail

instance (current : Option Text) (line : Text) : Decidable (Contained current line) :=
  inferInstanceAs (Decidable (_ ∧ _))

def itemsOf (l : Loop) : List Text → Option (List (Option (Text × Text)))
  | [] => some []
  | buf :: later =>
    match passLine l.reader (fillLine l.line buf) with
    | none => none
    | some (r,item) => (itemsOf ⟨r,fillLine l.line buf⟩ later).map (item :: ·)

private theorem readChars_ended {room : Nat} {buf line b : Text} (clean : '\n' ∉ line)
    (done : readChars room buf line = (b,none)) (next : Text) :
    readChars room buf (line ++ '\n' :: next) = (b,some next) := by
  induction line generalizing buf with
  | nil =>
    obtain rfl : buf = b := congrArg Prod.fst done
    simp [readChars,isascii]
  | cons c line ih =>
    have first : '\n' ≠ c := List.ne_of_not_mem_cons clean
    have tail : '\n' ∉ line := List.not_mem_of_not_mem_cons clean
    rw [List.cons_append,readChars]
    rw [readChars] at done
    split_ifs at done ⊢
    · exact absurd (congrArg Prod.snd done) (Option.some_ne_none _)
    · exact ih tail done
    · exact absurd (congrArg Prod.snd done) (Option.some_ne_none _)
    · exact ih tail done
    · exact ih tail done
    · exact ih tail done

private theorem readChars_cut {room : Nat} {buf line b rest : Text} (clean : '\n' ∉ line)
    (cut : readChars room buf line = (b,some rest)) (post : Text) :
    readChars room buf (line ++ post) = (b,some (rest ++ post)) ∧ rest <:+ line := by
  induction line generalizing buf with
  | nil => exact absurd (congrArg Prod.snd cut) (by simp [readChars])
  | cons c line ih =>
    have first : '\n' ≠ c := List.ne_of_not_mem_cons clean
    have tail : '\n' ∉ line := List.not_mem_of_not_mem_cons clean
    rw [List.cons_append,readChars]
    rw [readChars] at cut
    have further (b' : Text) (goes : readChars room b' line = (b,some rest)) :
        readChars room b' (line ++ post) = (b,some (rest ++ post)) ∧ rest <:+ c :: line :=
      ⟨(ih tail goes).1,(ih tail goes).2.trans (List.suffix_cons c line)⟩
    split_ifs at cut ⊢ with ascii stop begun more
    · exact absurd stop.symm first
    · exact further _ cut
    · obtain ⟨rfl,rfl⟩ : buf = b ∧ line = rest := by simpa using cut
      exact ⟨rfl,List.suffix_cons c line⟩
    · exact further _ cut
    · exact further _ cut
    · exact further _ cut

private theorem lineItems_turn {l l' : Loop} {text rest : Text} {item : Option (Text × Text)}
    (goes : turn l text = some (l',item,some rest)) :
    lineItems l text = if (text.take (text.length - rest.length)).getLast? = some '\n' then some [item]
      else (lineItems l' rest).map (item :: ·) := by
  rw [lineItems]
  split <;> simp_all

private theorem lineItems_last {l l' : Loop} {text : Text} {item : Option (Text × Text)}
    (goes : turn l text = some (l',item,none)) : lineItems l text = some [item] := by
  rw [lineItems]
  split <;> simp_all

private theorem lineItems_undefined {l : Loop} {text : Text} (stuck : turn l text = none) : lineItems l text = none := by
  rw [lineItems]
  split <;> simp_all

private theorem turn_eq {l : Loop} {text buf : Text} {rest : Option Text}
    (read : readChars (lineSize - 1) [] text = (buf,rest)) :
    turn l text = (passLine l.reader (fillLine l.line buf)).map fun passed =>
      (⟨passed.1,fillLine l.line buf⟩,passed.2,rest) := by
  simp only [turn,readlineInto,read,Option.bind_eq_bind]
  cases passLine l.reader (fillLine l.line buf) <;> rfl

/-- The loop takes a line as its pieces, and then stands at the next line. -/
private theorem lineItems_pieces (line post : Text) (clean : '\n' ∉ line) (ends : AtEnd post) (l : Loop) :
    lineItems l (line ++ post) = itemsOf l (pieces line) := by
  induction size : line.length using Nat.strong_induction_on generalizing line l with
  | _ size ih =>
    rw [pieces]
    split
    · rename_i buf done
      have read : readChars (lineSize - 1) [] (line ++ post) = (buf,post.tail?) := by
        rcases ends with rfl | ⟨next,rfl⟩
        · rw [List.append_nil]
          exact done
        · exact readChars_ended clean done next
      have turned := turn_eq (l := l) read
      rw [itemsOf]
      cases passed : passLine l.reader (fillLine l.line buf) with
      | none =>
        rw [passed] at turned
        exact lineItems_undefined turned
      | some pair =>
        rw [passed,Option.map_some] at turned
        rcases ends with rfl | ⟨next,rfl⟩
        · exact lineItems_last turned
        · rw [lineItems_turn turned,if_pos]
          · rfl
          · have taken : (line ++ '\n' :: next).take ((line ++ '\n' :: next).length - next.length) = line ++ ['\n'] := by
              rw [← List.singleton_append,← List.append_assoc,List.length_append,Nat.add_sub_cancel]
              exact List.take_left
            rw [taken,List.getLast?_concat]
    · rename_i buf rest cut
      obtain ⟨read,suffix⟩ := readChars_cut clean cut post
      have shorter := readChars_shorter (lineSize - 1) [] line rest (congrArg Prod.snd cut)
      have turned := turn_eq (l := l) read
      rw [itemsOf]
      cases passed : passLine l.reader (fillLine l.line buf) with
      | none =>
        rw [passed] at turned
        exact lineItems_undefined turned
      | some pair =>
        rw [passed,Option.map_some] at turned
        rw [lineItems_turn turned,if_neg,ih rest.length (size ▸ shorter) rest
          (fun held => clean (suffix.subset held)) _ rfl]
        intro last
        apply clean
        have held := List.mem_of_getLast? last
        rw [List.length_append,List.length_append,Nat.add_sub_add_right,
          List.take_append_of_le_length (Nat.sub_le _ _)] at held
        exact List.mem_of_mem_take held

private theorem pieces_fit (line buf : Text) (held : buf ∈ pieces line) : buf.length < lineSize := by
  induction size : line.length using Nat.strong_induction_on generalizing line with
  | _ size ih =>
    have fits := readChars_fits (lineSize - 1) [] line (Nat.zero_le _) (by simp [lineSize])
    rw [pieces] at held
    split at held
    · rename_i piece done
      rw [done] at fits
      rw [List.mem_singleton.mp held]
      exact Nat.lt_succ_of_le fits
    · rename_i piece rest cut
      have shorter := readChars_shorter (lineSize - 1) [] line rest (congrArg Prod.snd cut)
      rw [cut] at fits
      rcases List.mem_cons.mp held with rfl | later
      · exact Nat.lt_succ_of_le fits
      · exact ih rest.length (size ▸ shorter) rest later rfl

private theorem pieces_cons (line : Text) : ∃ buf later, pieces line = buf :: later := by
  rw [pieces]
  split
  · exact ⟨_,_,rfl⟩
  · exact ⟨_,_,rfl⟩

/-! What a piece builds. -/

private theorem pass_silent (r : Reader) (line : Memory) {buf : Text} (fits : buf.length < lineSize)
    (silent : ¬ ItemLine r.current (lineText buf)) :
    ∃ t, passLine r (fillLine line buf) = some (t,none) ∧ t.current = sectionAfter r.current (lineText buf) := by
  by_cases blank : lineText buf = []
  · exact ⟨_,pass_blank r line fits blank,by rw [sectionAfter,if_pos blank]⟩
  · cases header : headerName (lineText buf) with
    | some name => exact ⟨_,pass_header r line fits blank header,by rw [sectionAfter,if_neg blank,header]; rfl⟩
    | none =>
      have same : sectionAfter r.current (lineText buf) = r.current := by rw [sectionAfter,if_neg blank,header]; rfl
      cases current : r.current with
      | none => exact ⟨_,pass_outside r line fits blank header current,by rw [← current,same]⟩
      | some name =>
        have comment : isComment (lineText buf) = true := by
          rw [current] at silent
          by_contra plain
          exact silent ⟨Option.some_ne_none name,blank,header,Bool.eq_false_of_not_eq_true plain⟩
        exact ⟨_,pass_comment r line fits blank header current comment,by rw [← current,same]⟩

private theorem pass_built (r : Reader) (line : Memory) {buf : Text} (fits : buf.length < lineSize)
    (built : ItemLine r.current (lineText buf)) :
    ∃ t : Text → Reader, passLine r (fillLine line buf) =
      (textFrom (fillLine line buf) (keywordEnd (lineText buf) + 1) (lineSize - (keywordEnd (lineText buf) + 1))).map
        (fun value => (t value,some (trim (toupper ((lineText buf).take (keywordEnd (lineText buf)))),value))) ∧
      ∀ value, (t value).current = sectionAfter r.current (lineText buf) := by
  obtain ⟨inside,filled,other,plain⟩ := built
  obtain ⟨name,current⟩ := Option.ne_none_iff_exists'.mp inside
  refine ⟨_,pass_item r line fits filled other current plain,fun value => ?_⟩
  rw [sectionAfter,if_neg filled,other,current]
  rfl

private theorem pass_section {r t : Reader} {item : Option (Text × Text)} (line : Memory) {buf : Text}
    (fits : buf.length < lineSize) (passed : passLine r (fillLine line buf) = some (t,item)) :
    t.current = sectionAfter r.current (lineText buf) := by
  by_cases built : ItemLine r.current (lineText buf)
  · obtain ⟨f,value,after⟩ := pass_built r line fits built
    rw [value,Option.map_eq_some_iff] at passed
    obtain ⟨v,_,pair⟩ := passed
    rw [← after v]
    exact congrArg (fun p => Reader.current p.1) pair.symm
  · obtain ⟨u,value,after⟩ := pass_silent r line fits built
    rw [value] at passed
    rw [← after]
    exact congrArg (fun p => Reader.current p.1) (Option.some.inj passed).symm

private theorem itemsOf_silent (bufs : List Text) (fits : ∀ buf ∈ bufs, buf.length < lineSize) (l : Loop)
    (silent : Silent l.reader.current bufs) : itemsOf l bufs = some (bufs.map fun _ => none) := by
  induction bufs generalizing l with
  | nil => rfl
  | cons buf later ih =>
    obtain ⟨here,rest⟩ := silent
    obtain ⟨t,passed,current⟩ := pass_silent l.reader l.line (fits buf (by simp)) here
    rw [itemsOf,passed]
    simp only [ih (fun b held => fits b (by simp [held])) ⟨t,fillLine l.line buf⟩ (by rw [current]; exact rest),
      Option.map_some,List.map_cons]

private theorem silent_itemsOf (bufs : List Text) (fits : ∀ buf ∈ bufs, buf.length < lineSize) (l : Loop)
    (items : List (Option (Text × Text))) (built : itemsOf l bufs = some items) (nothing : ∀ item ∈ items, item = none) :
    Silent l.reader.current bufs := by
  induction bufs generalizing l items with
  | nil => trivial
  | cons buf later ih =>
    have here : ¬ ItemLine l.reader.current (lineText buf) := by
      intro item
      obtain ⟨t,passed,_⟩ := pass_built l.reader l.line (fits buf (by simp)) item
      rw [itemsOf,passed] at built
      cases value : textFrom (fillLine l.line buf) (keywordEnd (lineText buf) + 1)
          (lineSize - (keywordEnd (lineText buf) + 1)) with
      | none => simp [value] at built
      | some v =>
        simp only [value,Option.map_some,Option.map_eq_some_iff] at built
        obtain ⟨rest,_,rfl⟩ := built
        exact absurd (nothing _ List.mem_cons_self) (Option.some_ne_none _)
    obtain ⟨t,passed,current⟩ := pass_silent l.reader l.line (fits buf (by simp)) here
    rw [itemsOf,passed] at built
    obtain ⟨rest,further,rfl⟩ := Option.map_eq_some_iff.mp built
    have tail := ih (fun b held => fits b (by simp [held])) ⟨t,fillLine l.line buf⟩ rest further
      fun item held => nothing item (by simp [held])
    rw [current] at tail
    exact ⟨here,tail⟩

/-- The first piece of a contained line: the item it builds, if any, is the same in
whatever buffer. -/
private theorem pass_closed (current : Option Text) {buf : Text} (fits : buf.length < lineSize)
    (closed : Closed current buf) :
    ∃ item, ∀ (r : Reader) (line : Memory), r.current = current →
      ∃ t, passLine r (fillLine line buf) = some (t,item) ∧ t.current = sectionAfter current (lineText buf) := by
  by_cases built : ItemLine current (lineText buf)
  · refine ⟨some (trim (toupper ((lineText buf).take (keywordEnd (lineText buf)))),
      ((buf.rdropWhile isspace).drop (keywordEnd (lineText buf) + 1)).takeWhile (· ≠ nul)),?_⟩
    rintro r line rfl
    obtain ⟨t,passed,after⟩ := pass_built r line fits built
    rw [textFrom_own line buf fits _ (closed built)] at passed
    exact ⟨_,passed,after _⟩
  · refine ⟨none,?_⟩
    rintro r line rfl
    exact pass_silent r line fits built

private theorem isolated_of_contained {current : Option Text} {line : Text} (clean : '\n' ∉ line)
    (contained : Contained current line) : Isolated current line := by
  obtain ⟨buf,later,cut⟩ := pieces_cons line
  rw [Contained,cut,List.headD_cons,List.tail_cons] at contained
  obtain ⟨closed,silent⟩ := contained
  have fits : ∀ b ∈ buf :: later, b.length < lineSize := fun b held => pieces_fit line b (cut ▸ held)
  obtain ⟨item,same⟩ := pass_closed current (fits buf (by simp)) closed
  have built (l : Loop) (inside : l.reader.current = current) (post : Text) (ends : AtEnd post) :
      lineItems l (line ++ post) = some (item :: later.map fun _ => none) := by
    obtain ⟨t,passed,after⟩ := same l.reader l.line inside
    rw [lineItems_pieces line post clean ends,cut,itemsOf,passed]
    simp only [itemsOf_silent later (fun b held => fits b (by simp [held])) ⟨t,fillLine l.line buf⟩
      (by rw [after]; exact silent),Option.map_some]
  intro stack file l post stack' file' l' post' _ ends inside _ ends' inside'
  refine ⟨item,later.map fun _ => none,built l inside post ends,built l' inside' post' ends',fun other held => ?_⟩
  obtain ⟨_,_,rfl⟩ := List.mem_map.mp held
  rfl

/-! Runs that come to a line with a given section in force. -/

private theorem readChars_chars (room : Nat) (buf file : Text) :
    ∀ c ∈ (readChars room buf file).1, c ∈ buf ∨ c.toNat < 128 ∧ c ≠ '\n' := by
  induction file generalizing buf with
  | nil => exact fun c held => Or.inl held
  | cons ch file ih =>
    intro c held
    unfold readChars at held
    split_ifs at held with ascii stop begun more blank
    · exact Or.inl held
    · rcases ih _ c held with old | fresh
      · rcases List.mem_append.mp old with before | here
        · exact Or.inl before
        · rw [List.mem_singleton.mp here]
          exact Or.inr ⟨by simpa [isascii] using ascii,stop⟩
      · exact Or.inr fresh
    · exact Or.inl held
    · exact ih buf c held
    · rcases ih _ c held with here | fresh
      · rw [List.mem_singleton.mp here]
        exact Or.inr ⟨by simpa [isascii] using ascii,stop⟩
      · exact Or.inr fresh
    · exact ih buf c held

/-- A name that a header can give. -/
def Name (name : Text) : Prop := ∃ t : Text, t.length ≤ 63 ∧ (∀ c ∈ t, Plain c ∧ c ≠ ']') ∧ name = toupper t

private theorem headerName_name {text name : Text} (plain : ∀ c ∈ text, Plain c) (header : headerName text = some name) :
    Name name := by
  unfold headerName at header
  split at header
  · rename_i rest
    split_ifs at header with closed
    obtain rfl := Option.some.inj header
    refine ⟨(rest.takeWhile (· ≠ ']')).take 63,List.length_take_le _ _,fun c held => ?_,rfl⟩
    have inside := List.mem_of_mem_take held
    exact ⟨plain c (List.mem_cons_of_mem _ ((List.takeWhile_prefix _).subset inside)),by
      simpa using List.mem_takeWhile_imp inside⟩
  · exact absurd header (Option.some_ne_none name).symm

private theorem lineText_plain (file : Text) : ∀ c ∈ lineText (readChars (lineSize - 1) [] file).1, Plain c := by
  intro c held
  have inside := (List.rdropWhile_prefix isspace _).subset ((List.takeWhile_prefix _).subset held)
  rcases readChars_chars _ _ _ c inside with none | ⟨ascii,other⟩
  · exact absurd none List.not_mem_nil
  · exact ⟨ascii,by simpa using List.mem_takeWhile_imp held,other⟩

private theorem sectionAfter_name {current : Option Text} {text : Text} (plain : ∀ c ∈ text, Plain c)
    (named : ∀ name ∈ current, Name name) : ∀ name ∈ sectionAfter current text, Name name := by
  intro name held
  unfold sectionAfter at held
  split_ifs at held
  · cases held
  · cases header : headerName text with
    | none =>
      rw [header] at held
      exact named name held
    | some other =>
      rw [header] at held
      obtain rfl := Option.some.inj held
      exact headerName_name plain header

private theorem turn_section {l l' : Loop} {text : Text} {rest : Option Text} {item : Option (Text × Text)}
    (goes : turn l text = some (l',item,rest)) :
    l'.reader.current = sectionAfter l.reader.current (lineText (readChars (lineSize - 1) [] text).1) := by
  have fits : (readChars (lineSize - 1) [] text).1.length < lineSize :=
    Nat.lt_succ_of_le (readChars_fits _ _ _ (Nat.zero_le _) (by simp [lineSize]))
  rw [turn_eq rfl,Option.map_eq_some_iff] at goes
  obtain ⟨⟨t,built⟩,passed,same⟩ := goes
  obtain rfl : (⟨t,fillLine l.line (readChars (lineSize - 1) [] text).1⟩ : Loop) = l' := congrArg Prod.fst same
  exact pass_section l.line fits passed

private theorem reads_name {stack : Memory} {file text : Text} {l : Loop} (run : Reads stack file l text) :
    ∀ name ∈ l.reader.current, Name name := by
  induction run with
  | start => exact fun name held => absurd held (by simp [start])
  | next _ goes ih =>
    rw [turn_section goes]
    exact sectionAfter_name (lineText_plain _) ih

/-- A line that is written as it will be read. -/
structure Clean (line : Text) : Prop where
  plain : ∀ c ∈ line, Plain c
  fits : line.length < lineSize
  front : line.dropWhile isspace = line
  back : line.rdropWhile isspace = line

private theorem readChars_clean {line : Text} (clean : Clean line) (rest : Text) :
    readChars (lineSize - 1) [] (line ++ '\n' :: rest) = (line,some rest) := by
  rw [readChars_line _ [] line _ clean.plain (by simpa using Nat.le_sub_one_of_lt clean.fits),if_pos rfl,clean.front]
  simp [readChars,isascii]

private theorem lineText_clean {line : Text} (clean : Clean line) : lineText line = line := by
  rw [lineText,clean.back,List.takeWhile_eq_self_iff]
  exact fun c held => by simpa using (clean.plain c held).2.1

private theorem next_line {stack : Memory} {file : Text} {l : Loop} {line post : Text} (clean : Clean line)
    (before : LineStart stack file l (line ++ '\n' :: post)) (silent : ¬ ItemLine l.reader.current line) :
    ∃ l', LineStart stack file l' post ∧ l'.line = fillLine l.line line ∧
      l'.reader.current = sectionAfter l.reader.current line := by
  obtain ⟨run,earlier,rfl,_⟩ := before
  rw [← lineText_clean clean] at silent
  obtain ⟨t,passed,after⟩ := pass_silent l.reader l.line clean.fits silent
  have turned := turn_eq (l := l) (readChars_clean clean post)
  rw [passed,Option.map_some] at turned
  refine ⟨_,⟨Reads.next run turned,earlier ++ line ++ ['\n'],by simp,Or.inr List.getLast?_concat⟩,rfl,?_⟩
  rw [after,lineText_clean clean]

private theorem header_clean {t : Text} (short : t.length ≤ 63) (plain : ∀ c ∈ t, Plain c ∧ c ≠ ']') :
    Clean ('[' :: t ++ [']']) where
  plain c held := by
    rcases List.mem_append.mp held with before | last
    · rcases List.mem_cons.mp before with rfl | inside
      · decide
      · exact (plain c inside).1
    · rw [List.mem_singleton.mp last]
      decide
  fits := by simp [lineSize]; omega
  front := rfl
  back := List.rdropWhile_concat_neg _ _ _ (by decide)

private theorem headerName_header {t : Text} (short : t.length ≤ 63) (plain : ∀ c ∈ t, Plain c ∧ c ≠ ']') :
    headerName ('[' :: t ++ [']']) = some (toupper t) := by
  have within : (t ++ [']']).takeWhile (· ≠ ']') = t := by
    rw [List.takeWhile_append_of_pos fun c held => by simpa using (plain c held).2]
    simp
  rw [List.cons_append,headerName,if_pos (by simp),within,List.take_of_length_le (by simpa [cfgSectionNameSize] using short)]

/-- A header alone leaves the end of the buffer as it was. -/
private theorem run_header {name : Text} (named : Name name) (stack : Memory) (post : Text) :
    ∃ file l, LineStart stack file l post ∧ l.reader.current = some name ∧ l.line 1021 = stack 1021 := by
  obtain ⟨t,short,plain,rfl⟩ := named
  have clean := header_clean short plain
  have header := headerName_header short plain
  have first : LineStart stack (('[' :: t ++ [']']) ++ '\n' :: post) (start stack) (('[' :: t ++ [']']) ++ '\n' :: post) :=
    ⟨Reads.start,[],rfl,Or.inl rfl⟩
  obtain ⟨l,run,filled,current⟩ := next_line clean first fun item => item.1 rfl
  refine ⟨_,l,run,?_,?_⟩
  · rw [current,sectionAfter,if_neg (by simp),header]
    rfl
  · have size : ('[' :: t ++ [']']).length ≤ 65 := by simp; omega
    rw [filled,fillLine_beyond _ _ _ (by rw [clean.back]; omega),dif_neg (by omega)]
    rfl

def comment (n : Nat) : Text := ';' :: List.replicate n 'a' ++ ['a']

private theorem comment_clean {n : Nat} (short : n ≤ 1019) : Clean (comment n) where
  plain c held := by
    simp only [comment,List.cons_append,List.mem_cons,List.mem_append,List.mem_replicate,List.not_mem_nil,or_false] at held
    rcases held with rfl | ⟨_,rfl⟩ | rfl <;> decide
  fits := by
    simp [comment,lineSize]
    omega
  front := rfl
  back := List.rdropWhile_concat_neg _ _ _ (by decide)

private theorem comment_silent (n : Nat) (current : Option Text) : ¬ ItemLine current (comment n) := by
  rintro ⟨_,_,_,plain⟩
  exact absurd plain (by simp [isComment,comment])

/-- A comment fills the buffer. -/
private theorem run_filled {name : Text} (named : Name name) (stack : Memory) (post : Text) :
    ∃ file l, LineStart stack file l post ∧ l.reader.current = some name ∧ ∀ i, i < 1021 → l.line i ≠ nul := by
  have size : (comment 1019).length = 1021 := by
    rw [comment,List.length_append,List.length_cons,List.length_replicate,List.length_singleton]
  have clean : Clean (comment 1019) := comment_clean le_rfl
  obtain ⟨file,l,run,current,_⟩ := run_header named stack (comment 1019 ++ '\n' :: post)
  obtain ⟨l',further,filled,after⟩ := next_line clean run (comment_silent _ _)
  refine ⟨file,l',further,?_,fun i bound => ?_⟩
  · have filled : comment 1019 ≠ [] := List.ne_nil_of_length_pos (by rw [size]; exact Nat.succ_pos _)
    rw [after,sectionAfter,if_neg filled,current]
    rfl
  · have within : i < ((comment 1019).rdropWhile isspace).length := by
      rw [clean.back,size]
      exact bound
    rw [filled,fillLine_trimmed _ _ i within]
    have held : ((comment 1019).rdropWhile isspace)[i] ∈ comment 1019 :=
      (List.rdropWhile_prefix isspace _).subset (List.getElem_mem within)
    exact (clean.plain _ held).2.1

private theorem itemsOf_value {l : Loop} {buf : Text} {later : List Text} {item : Option (Text × Text)}
    {rest : List (Option (Text × Text))} (fits : buf.length < lineSize)
    (built : itemsOf l (buf :: later) = some (item :: rest)) (isItem : ItemLine l.reader.current (lineText buf)) :
    ∃ v, textFrom (fillLine l.line buf) (keywordEnd (lineText buf) + 1) (lineSize - (keywordEnd (lineText buf) + 1)) =
      some v ∧ item = some (trim (toupper ((lineText buf).take (keywordEnd (lineText buf)))),v) := by
  obtain ⟨t,passed,_⟩ := pass_built l.reader l.line fits isItem
  rw [itemsOf,passed] at built
  cases value : textFrom (fillLine l.line buf) (keywordEnd (lineText buf) + 1)
      (lineSize - (keywordEnd (lineText buf) + 1)) with
  | none => simp [value] at built
  | some v =>
    simp only [value,Option.map_some,Option.map_eq_some_iff,List.cons.injEq] at built
    obtain ⟨_,_,same,_⟩ := built
    exact ⟨v,rfl,same.symm⟩

private theorem itemsOf_later {l : Loop} {buf : Text} {later : List Text} {item : Option (Text × Text)}
    {rest : List (Option (Text × Text))} (fits : ∀ b ∈ buf :: later, b.length < lineSize)
    (built : itemsOf l (buf :: later) = some (item :: rest)) (nothing : ∀ other ∈ rest, other = none) :
    Silent (sectionAfter l.reader.current (lineText buf)) later := by
  rw [itemsOf] at built
  cases passed : passLine l.reader (fillLine l.line buf) with
  | none => simp [passed] at built
  | some pair =>
    obtain ⟨t,made⟩ := pair
    simp only [passed,Option.map_eq_some_iff,List.cons.injEq] at built
    obtain ⟨_,further,_,rfl⟩ := built
    have after := silent_itemsOf later (fun b held => fits b (by simp [held])) _ _ further nothing
    rw [pass_section l.line (fits buf (by simp)) passed] at after
    exact after

/-- The white space that a line ends in is behind its terminator, and then what the buffer
held before. -/
private theorem fillLine_filled (line : Memory) (buf : Text) (filled : ∀ i, i < 1021 → line i ≠ nul) (i : Nat)
    (beyond : (buf.rdropWhile isspace).length < i) (inside : i < 1021) : fillLine line buf i ≠ nul := by
  rw [fillLine_beyond line buf i beyond]
  split_ifs with own
  · intro zero
    have parts : buf.rdropWhile isspace ++ buf.rtakeWhile isspace = buf := List.rdropWhile_append_rtakeWhile
    have here : (buf.rdropWhile isspace ++ buf.rtakeWhile isspace)[i]? = some nul := by
      rw [parts,List.getElem?_eq_getElem own,zero]
    rw [List.getElem?_append_right (Nat.le_of_lt beyond)] at here
    have blank := List.mem_rtakeWhile_imp (List.mem_of_getElem? here)
    exact absurd blank (by decide)
  · exact filled i inside

private theorem contained_of_isolated {current : Option Text} {line : Text} (clean : '\n' ∉ line) (inForce : InForce current)
    (isolated : Isolated current line) : Contained current line := by
  obtain ⟨buf,later,cut⟩ := pieces_cons line
  have fits : ∀ b ∈ buf :: later, b.length < lineSize := fun b held => pieces_fit line b (cut ▸ held)
  have named : ∀ name ∈ current, Name name := by
    obtain ⟨stack,file,l,text,run,rfl⟩ := inForce
    exact reads_name run.1
  have reached : ∃ file l, LineStart (fun _ => 'x') file l (line ++ []) ∧ l.reader.current = current ∧ l.line 1021 = 'x' := by
    cases current with
    | none => exact ⟨line ++ [],start fun _ => 'x',⟨Reads.start,[],rfl,Or.inl rfl⟩,rfl,rfl⟩
    | some name => exact run_header (named name rfl) _ _
  obtain ⟨file,l,run,inside,last⟩ := reached
  have pieced (l : Loop) := lineItems_pieces line [] clean (Or.inl rfl) l
  rw [Contained,cut,List.headD_cons,List.tail_cons]
  refine ⟨fun item => ?_,?_⟩
  · by_contra long
    obtain ⟨name,rfl⟩ := Option.ne_none_iff_exists'.mp item.1
    obtain ⟨file',l',run',inside',filled⟩ := run_filled (named name rfl) (fun _ => 'x') (line ++ [])
    obtain ⟨made,rest,built,built',_⟩ := isolated _ _ _ _ _ _ _ _ run (Or.inl rfl) inside run' (Or.inl rfl) inside'
    rw [pieced,cut] at built built'
    obtain ⟨v,read,rfl⟩ := itemsOf_value (fits buf (by simp)) built (by rw [inside]; exact item)
    obtain ⟨w,read',same⟩ := itemsOf_value (fits buf (by simp)) built' (by rw [inside']; exact item)
    obtain rfl : v = w := congrArg Prod.snd (Option.some.inj same)
    obtain ⟨bound,ended,_⟩ := textFrom_some read
    obtain ⟨bound',ended',_⟩ := textFrom_some read'
    have size := fits buf (by simp)
    have own := trimmed_le buf
    have far : 1021 ≤ keywordEnd (lineText buf) + 1 + v.length := by
      by_contra short
      exact fillLine_filled l'.line buf filled _ (by omega) (by omega) ended'
    have there : keywordEnd (lineText buf) + 1 + v.length = 1021 := by
      simp only [lineSize] at bound
      omega
    rw [there,fillLine_beyond _ _ _ (by omega),dif_neg (by simp only [lineSize] at size; omega),last] at ended
    exact absurd ended (by decide)
  · obtain ⟨made,rest,built,_,nothing⟩ := isolated _ _ _ _ _ _ _ _ run (Or.inl rfl) inside run (Or.inl rfl) inside
    rw [pieced,cut] at built
    have after := itemsOf_later fits built nothing
    rwa [inside] at after

/-- The line is on its own exactly when its keyword ends before it does and nothing past the
buffer's size is taken for an item. -/
theorem isolated_iff (current : Option Text) (line : Text) (clean : '\n' ∉ line) (inForce : InForce current) :
    Isolated current line ↔ Contained current line :=
  ⟨contained_of_isolated clean inForce,isolated_of_contained clean⟩

private theorem inForce_header : InForce (some "A".toList) := by
  have named : Name "A".toList := ⟨"a".toList,by decide,List.all_iff_forall_prop.mp (by decide),by decide⟩
  obtain ⟨file,l,run,inside,_⟩ := run_header named (fun _ => nul) []
  exact ⟨_,file,l,[],run,inside⟩

theorem isolated_assignment :
    Isolated (some "A".toList) "max = 1".toList ↔ Contained (some "A".toList) "max = 1".toList :=
  isolated_iff _ _ (by decide) inForce_header

/-- A line that runs on behind the buffer's end. -/
def overlong : Text := "k=".toList ++ List.replicate 1020 'v' ++ "x=1".toList

/-- A line without a `=` is at the mercy of those before it, and the tail of a long line is
an item. -/
theorem lines_leak : ¬ Isolated (some "A".toList) "stop".toList ∧ ¬ Isolated (some "A".toList) overlong := by
  constructor
  · intro isolated
    exact absurd (contained_of_isolated (by decide) inForce_header isolated) (by decide +kernel)
  · intro isolated
    exact absurd (contained_of_isolated (by decide +kernel) inForce_header isolated) (by decide +kernel)

end Mybmm.CfgIsolation
