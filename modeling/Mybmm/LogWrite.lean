import Mybmm.CfgFile

/-! `log_write`: the line it builds in its buffer, and the loop that is to take the line
breaks out of it where they stand. -/
namespace Mybmm.LogWrite
open CString Libc CfgFile

def messageSize : Nat := 32767

def errorSize : Nat := 128

def logTime : Nat := 0x0002

def logInfo : Nat := 0x0008

def logWarning : Nat := 0x0020

def logError : Nat := 0x0040

def logSyserr : Nat := 0x0080

def logDebug : Nat := 0x0100

/-- The options, once the log is open, and the buffer. -/
structure Log where
  logopts : Option Nat
  message : Memory

def lineBreak (c : Char) : Bool := c = '\n' || c = '\r'

/-- `strcpy` inside the buffer. Where what it reads and what it writes overlap it has no
meaning. -/
def strcpyWithin (message : Memory) (dst src room : Nat) : Option Memory := do
  let s ← textFrom message src room
  if dst + s.length < src ∨ src + s.length < dst then some (strcpy message dst s) else none

/-- The loop over the message, with the places its condition looks at and what memory holds
then. -/
def stripLoop : (message : Memory) → (ptr room : Nat) → Option (Memory × List (Memory × Nat))
  | _, _, 0 => none
  | message, ptr, room + 1 =>
    if message ptr = nul then some (message,[(message,ptr)]) else
    if lineBreak (message ptr) then do
      let moved ← strcpyWithin message ptr (ptr + 1) room
      let (after,seen) ← stripLoop moved (ptr + 1) room
      some (after,(message,ptr) :: seen)
    else do
      let (after,seen) ← stripLoop message (ptr + 1) room
      some (after,(message,ptr) :: seen)

/-- `sprintf` at a cursor that moves behind what it wrote; past the buffer it has no meaning. -/
def append (s : Text) : Memory × Nat → Option (Memory × Nat)
  | (message,ptr) => if ptr + s.length < messageSize then some (strcpy message ptr s,ptr + s.length) else none

def strcat (message : Memory) (s : Text) : Option Memory := do
  let held ← textFrom message 0 messageSize
  let (message,_) ← append s (message,held.length)
  some message

def trimMessage (message : Memory) : Option Memory := do
  let s ← textFrom message 0 messageSize
  if s = [] then some message else
  let front := s.dropWhile fun c => isspace c || (0 < c.toNat && c.toNat < 32)
  some (strcpy (strcpy message 0 front) (front.rdropWhile isspace).length [])

def logDefaults : Nat := logInfo ||| logWarning ||| logError ||| logSyserr ||| logDebug

def prependTime (logopts type : Nat) (time : Text) (cursor : Memory × Nat) : Option (Memory × Nat) :=
  if logopts &&& logTime ≠ 0 ∨ type &&& logTime ≠ 0 then append (time ++ "  ".toList) cursor else some cursor

def prependKind (type : Nat) (cursor : Memory × Nat) : Option (Memory × Nat) :=
  if type &&& logWarning ≠ 0 then append "warning: ".toList cursor
  else if type &&& logError ≠ 0 ∨ type &&& logSyserr ≠ 0 then append "error: ".toList cursor
  else some cursor

def concatError (type : Nat) (error : Text) (message : Memory) : Option Memory :=
  if type &&& logSyserr ≠ 0 then (strcat message ": ".toList).bind fun message => strcat message error
  else some message

/-- The buffer as the loop finds it. -/
def buildMessage (logopts type : Nat) (time text error : Text) (message : Memory) : Option Memory := do
  let cursor ← prependTime logopts type time (message,0)
  let cursor ← prependKind type cursor
  let (message,_) ← append text cursor
  let message ← trimMessage message
  concatError type error message

/-- The line that is written, if this type is logged. -/
def logWrite (log : Log) (type : Nat) (time text error : Text) : Option (Option Text × Log) :=
  let logopts := log.logopts.getD logDefaults
  if logopts ||| type ≠ logopts then some (none,⟨some logopts,log.message⟩) else
  if type &&& logSyserr ≠ 0 ∧ errorSize ≤ error.length then none else do
  let message ← buildMessage logopts type time text error log.message
  let (message,_) ← stripLoop message 0 messageSize
  let line ← textFrom message 0 messageSize
  some (some line,⟨some logopts,message⟩)

/-! What the loop leaves of a text. -/

/-- Before other characters a break would have them copied over themselves. Only the one at
the end is taken away. -/
def stripped : Text → Option Text
  | [] => some []
  | c :: s => if lineBreak c then (if s = [] then some [] else none) else (stripped s).map fun t => c :: t

def unbroken (s : Text) : Text := s.filter fun c => !lineBreak c

def Single (s : Text) : Prop := ∀ c ∈ s, lineBreak c = false

instance (s : Text) : Decidable (Single s) := List.decidableBAll (fun c => lineBreak c = false) s

private theorem single_cons {c : Char} {s : Text} : Single (c :: s) ↔ lineBreak c = false ∧ Single s := List.forall_mem_cons

private theorem single_break {c : Char} (broken : lineBreak c = true) (s : Text) : ¬ Single (c :: s) := by
  intro single
  rw [single_cons,broken] at single
  exact Bool.noConfusion single.1

private theorem stripped_last {c : Char} (broken : lineBreak c = true) : stripped [c] = some [] := by
  rw [stripped,if_pos broken,if_pos rfl]

private theorem stripped_break {c : Char} (broken : lineBreak c = true) (d : Char) (s : Text) :
    stripped (c :: d :: s) = none := by
  rw [stripped,if_pos broken,if_neg (List.cons_ne_nil d s)]

private theorem stripped_plain {c : Char} (plain : lineBreak c = false) (s : Text) :
    stripped (c :: s) = (stripped s).map fun t => c :: t := by
  rw [stripped,if_neg (by simp [plain])]

/-- The turns of the loop: at the end, at a break that is the last character, at any other
break, and at a character that stays. -/
private theorem turns_induct {motive : Text → Prop} (ended : motive []) (last : ∀ c, lineBreak c = true → motive [c])
    (broken : ∀ c d s, lineBreak c = true → motive (c :: d :: s))
    (kept : ∀ c s, lineBreak c = false → motive s → motive (c :: s)) (s : Text) : motive s := by
  induction s with
  | nil => exact ended
  | cons c s ih =>
    cases stops : lineBreak c with
    | false => exact kept c s stops ih
    | true =>
      cases s with
      | nil => exact last c stops
      | cons d s => exact broken c d s stops

/-- What is left is a single line, and the text was this line or had one break behind it. -/
private theorem stripped_some {s t : Text} (left : stripped s = some t) :
    Single t ∧ (s = t ∨ ∃ c, lineBreak c = true ∧ s = t ++ [c]) := by
  induction s using turns_induct generalizing t with
  | ended =>
    obtain rfl := Option.some.inj left
    exact ⟨List.forall_mem_nil _,Or.inl rfl⟩
  | last c broken =>
    rw [stripped_last broken] at left
    obtain rfl := Option.some.inj left
    exact ⟨List.forall_mem_nil _,Or.inr ⟨c,broken,rfl⟩⟩
  | broken c d s broken =>
    rw [stripped_break broken] at left
    contradiction
  | kept c s plain ih =>
    rw [stripped_plain plain] at left
    obtain ⟨t,later,rfl⟩ := Option.map_eq_some_iff.mp left
    obtain ⟨single,ends⟩ := ih later
    refine ⟨single_cons.mpr ⟨plain,single⟩,?_⟩
    rcases ends with rfl | ⟨d,broken,rfl⟩
    · exact Or.inl rfl
    · exact Or.inr ⟨d,broken,rfl⟩

private theorem stripped_prefix {s t : Text} (left : stripped s = some t) : t <+: s := by
  rcases (stripped_some left).2 with rfl | ⟨c,_,rfl⟩
  · exact List.prefix_refl s
  · exact List.prefix_append t [c]

private theorem single_stripped {s : Text} (single : Single s) : stripped s = some s := by
  induction s with
  | nil => rfl
  | cons c s ih =>
    obtain ⟨plain,rest⟩ := single_cons.mp single
    rw [stripped_plain plain,ih rest,Option.map_some]

private theorem single_unbroken {s : Text} (single : Single s) : unbroken s = s :=
  List.filter_eq_self.mpr fun c member => by rw [single c member]; rfl

/-- A text that does not end in a break is left as it is. -/
private theorem stripped_closed {s t : Text} (closed : ∀ c ∈ s.getLast?, lineBreak c = false)
    (left : stripped s = some t) : t = s := by
  rcases (stripped_some left).2 with rfl | ⟨c,broken,rfl⟩
  · rfl
  · have plain : lineBreak c = false := closed c (by simp)
    rw [broken] at plain
    exact Bool.noConfusion plain

/-! The loop in memory. -/

/-- No terminator lies before the place that is looked at. -/
def Within (look : Memory × Nat) : Prop := ∀ i, i < look.2 → look.1 i ≠ nul

private theorem stripLoop_end {message : Memory} {ptr : Nat} (ended : message ptr = nul) (room : Nat) :
    stripLoop message ptr (room + 1) = some (message,[(message,ptr)]) := by
  rw [stripLoop,if_pos ended]

private theorem strcpyWithin_last {message : Memory} {ptr room : Nat} (rest : textFrom message (ptr + 1) room = some []) :
    strcpyWithin message ptr (ptr + 1) room = some (strcpy message ptr []) := by
  simp [strcpyWithin,rest]

/-- One place further on, any character besides the terminator is read and written. -/
private theorem strcpyWithin_overlaps {message : Memory} {ptr room : Nat} {c : Char} {s : Text}
    (rest : textFrom message (ptr + 1) room = some (c :: s)) : strcpyWithin message ptr (ptr + 1) room = none := by
  simp only [strcpyWithin,rest,Option.bind_eq_bind,Option.bind_some,List.length_cons]
  exact if_neg (by omega)

private theorem stripLoop_break {message : Memory} {ptr : Nat} (text : message ptr ≠ nul)
    (broken : lineBreak (message ptr) = true) (room : Nat) :
    stripLoop message ptr (room + 1) = (strcpyWithin message ptr (ptr + 1) room).bind fun moved =>
      (stripLoop moved (ptr + 1) room).map fun r => (r.1,(message,ptr) :: r.2) := by
  rw [stripLoop,if_neg text,if_pos broken]
  cases strcpyWithin message ptr (ptr + 1) room with
  | none => rfl
  | some moved => cases next : stripLoop moved (ptr + 1) room <;> simp [next]

private theorem stripLoop_keep {message : Memory} {ptr : Nat} (text : message ptr ≠ nul)
    (plain : lineBreak (message ptr) = false) (room : Nat) : stripLoop message ptr (room + 1) =
      (stripLoop message (ptr + 1) room).map fun r => (r.1,(message,ptr) :: r.2) := by
  rw [stripLoop,if_neg text,if_neg (by simp [plain])]
  cases stripLoop message (ptr + 1) room <;> rfl

private theorem within_of_lies {message : Memory} {done s t : Text} (lies : Lies message 0 (done ++ t))
    (plain : nul ∉ done ++ s) :
    Within (message,done.length) := by
  intro i before (ended : message i = nul)
  have member := lies_inside (lies_append.mp lies).1 before
  rw [Nat.zero_add,ended] at member
  exact plain (List.mem_append_left s member)

/-- What the loop leaves when it comes to the rest `s` of a text, and how far it looks. -/
structure Leaves (message : Memory) (done s t : Text) (room : Nat) (after : Memory) (seen : List (Memory × Nat)) :
    Prop where
  runs : stripLoop message done.length room = some (after,seen)
  lies : Lies after 0 (done ++ t ++ [nul])
  looks : (∀ look ∈ seen, Within look) ↔ Single s

section Step

variable {message : Memory} {done s t : Text} {c : Char} {room : Nat}

private theorem step_break (lies : Lies message 0 (done ++ (c :: s ++ [nul]))) (plain : nul ∉ done ++ c :: s)
    (broken : lineBreak c = true) (fits : s.length < room) :
    textFrom message (done.length + 1) room = some s ∧
    stripLoop message done.length (room + 1) = (strcpyWithin message done.length (done.length + 1) room).bind
      fun moved => (stripLoop moved (done.length + 1) room).map fun r => (r.1,(message,done.length) :: r.2) := by
  have held : message done.length = c := lies_at lies
  have text : message done.length ≠ nul := fun ended => plain (by simp [← ended,held])
  refine ⟨textFrom_iff.mpr ⟨fits,fun member => plain (by simp [member]),?_⟩,stripLoop_break text (by rwa [held]) room⟩
  have behind := (lies_append.mp lies).2.2
  rwa [Nat.zero_add] at behind

private theorem step_keep (lies : Lies message 0 (done ++ (c :: s ++ [nul]))) (plain : nul ∉ done ++ c :: s)
    (kept : lineBreak c = false) (room : Nat) : stripLoop message done.length (room + 1) =
      (stripLoop message (done.length + 1) room).map fun r => (r.1,(message,done.length) :: r.2) := by
  have held : message done.length = c := lies_at lies
  have text : message done.length ≠ nul := fun ended => plain (by simp [← ended,held])
  exact stripLoop_keep text (by rwa [held]) room

private theorem leaves_end (lies : Lies message 0 (done ++ [nul])) (plain : nul ∉ done ++ []) :
    Leaves message done [] [] (room + 1) message [(message,done.length)] where
  runs := stripLoop_end (lies_at lies) room
  lies := by rwa [List.append_nil]
  looks := iff_of_true (List.forall_mem_singleton.mpr (within_of_lies lies plain)) (by simp [Single])

/-- The last character is a break: the loop goes on behind the new terminator, to the old one. -/
private theorem leaves_beyond (lies : Lies message 0 (done ++ ([c] ++ [nul]))) (plain : nul ∉ done ++ [c])
    (broken : lineBreak c = true) : Leaves message done [c] [] (room + 2) (strcpy message done.length [])
      [(message,done.length),(strcpy message done.length [],done.length + 1)] where
  runs := by
    have old : strcpy message done.length [] (done.length + 1) = nul := by
      rw [strcpy_after _ _ _ _ (by simp)]
      have behind := (lies_append.mp lies).2.2.1
      rwa [Nat.zero_add] at behind
    obtain ⟨rest,turn⟩ := step_break lies plain broken (Nat.succ_pos room)
    rw [turn,strcpyWithin_last rest,Option.bind_some,stripLoop_end old,Option.map_some]
  lies := by
    have moved := lies_strcpy (lies_append.mp lies).1 []
    rwa [List.append_nil] at moved ⊢
  looks := by
    have beyond : ¬ Within (strcpy message done.length [],done.length + 1) := fun within =>
      within done.length (Nat.lt_succ_self _) (strcpy_terminator message done.length [])
    refine iff_of_false (fun all => beyond ?_) (single_break broken [])
    exact all _ (List.mem_cons_of_mem _ List.mem_cons_self)

/-- One turn that leaves `c` behind. -/
private theorem leaves_cons {after : Memory} {seen : List (Memory × Nat)} (lies : Lies message 0 (done ++ (c :: s ++ [nul])))
    (plain : nul ∉ done ++ c :: s) (kept : lineBreak c = false)
    (later : Leaves message (done ++ [c]) s t room after seen) :
    Leaves message done (c :: s) (c :: t) (room + 1) after ((message,done.length) :: seen) where
  runs := by
    have runs := later.runs
    rw [List.length_append,List.length_singleton] at runs
    rw [step_keep lies plain kept,runs,Option.map_some]
  lies := by
    have lies := later.lies
    rwa [List.append_assoc done,List.singleton_append] at lies
  looks := by
    rw [List.forall_mem_cons,later.looks,single_cons]
    exact and_congr_left' (iff_of_true (within_of_lies lies plain) kept)

end Step

/-- What is done has no terminator in it, and the rest lies behind it. -/
private theorem stripLoop_leaves (s done : Text) {message : Memory} {room : Nat}
    (lies : Lies message 0 (done ++ (s ++ [nul]))) (plain : nul ∉ done ++ s) (fits : s.length ≤ room) :
    match stripped s with
    | none => stripLoop message done.length (room + 1) = none
    | some t => ∃ after seen, Leaves message done s t (room + 1) after seen := by
  induction s using turns_induct generalizing done room with
  | ended => exact ⟨_,_,leaves_end lies plain⟩
  | last c broken =>
    obtain ⟨room,rfl⟩ : ∃ k, room = k + 1 := ⟨room - 1,by simp at fits; omega⟩
    rw [stripped_last broken]
    exact ⟨_,_,leaves_beyond lies plain broken⟩
  | broken c d s broken =>
    obtain ⟨room,rfl⟩ : ∃ k, room = k + 1 := ⟨room - 1,by simp at fits; omega⟩
    obtain ⟨rest,turn⟩ := step_break lies plain broken (Nat.lt_succ_of_le (Nat.le_of_succ_le_succ fits))
    rw [stripped_break broken]
    exact turn.trans (by rw [strcpyWithin_overlaps rest,Option.bind_none])
  | kept c s kept ih =>
    obtain ⟨room,rfl⟩ : ∃ k, room = k + 1 := ⟨room - 1,by simp at fits; omega⟩
    have behind := lies
    have free := plain
    rw [List.cons_append,List.append_cons] at behind
    rw [List.append_cons] at free
    have later := ih _ behind free (Nat.le_of_succ_le_succ fits)
    rw [stripped_plain kept]
    cases left : stripped s with
    | none =>
      simp only [left,List.length_append,List.length_singleton] at later
      exact (step_keep lies plain kept _).trans (by rw [later,Option.map_none])
    | some t =>
      simp only [left] at later
      obtain ⟨after,seen,later⟩ := later
      exact ⟨_,_,leaves_cons lies plain kept later⟩

private theorem stripLoop_none {message : Memory} {s : Text} (held : textFrom message 0 messageSize = some s)
    (overlaps : stripped s = none) : stripLoop message 0 messageSize = none := by
  obtain ⟨fits,plain,lies⟩ := textFrom_iff.mp held
  have runs := stripLoop_leaves s [] lies plain (Nat.le_of_lt_succ fits)
  rwa [overlaps] at runs

/-- Where it has a meaning the loop ends, with `stripped` in the buffer. -/
private theorem stripLoop_text {message : Memory} {s t : Text} (held : textFrom message 0 messageSize = some s)
    (left : stripped s = some t) :
    ∃ after seen, stripLoop message 0 messageSize = some (after,seen) ∧
      textFrom after 0 messageSize = some t ∧ ((∀ look ∈ seen, Within look) ↔ Single s) := by
  obtain ⟨fits,plain,lies⟩ := textFrom_iff.mp held
  have runs := stripLoop_leaves s [] lies plain (Nat.le_of_lt_succ fits)
  rw [left] at runs
  obtain ⟨after,seen,leaves⟩ := runs
  have part := stripped_prefix left
  have free : nul ∉ t := fun member => plain (part.subset member)
  exact ⟨after,seen,leaves.runs,textFrom_iff.mpr ⟨part.length_le.trans_lt fits,free,leaves.lies⟩,leaves.looks⟩

/-- The loop leaves the characters that are no line breaks, and looks at nothing behind a
terminator. -/
def Strips (message : Memory) (s : Text) : Prop :=
  ∃ after seen, stripLoop message 0 messageSize = some (after,seen) ∧
    textFrom after 0 messageSize = some (unbroken s) ∧ ∀ look ∈ seen, Within look

/-- The loop does what it is for when there is nothing to do, and only then: a break at the
end has it look behind the terminator, and any other one has no meaning. -/
theorem strips_iff {message : Memory} {s : Text} (held : textFrom message 0 messageSize = some s) :
    Strips message s ↔ Single s := by
  constructor
  · rintro ⟨after,seen,runs,_,looks⟩
    cases left : stripped s with
    | none =>
      rw [stripLoop_none held left] at runs
      contradiction
    | some t =>
      obtain ⟨after',seen',runs',_,looks'⟩ := stripLoop_text held left
      obtain ⟨rfl,rfl⟩ := Prod.mk.inj (Option.some.inj (runs.symm.trans runs'))
      exact looks'.mp looks
  · intro single
    obtain ⟨after,seen,runs,text,looks⟩ := stripLoop_text held (single_stripped single)
    exact ⟨after,seen,runs,(single_unbroken single).symm ▸ text,looks.mpr single⟩

theorem strips_iff_plain : Strips (strcpy (fun _ => nul) 0 "one two".toList) "one two".toList :=
  (strips_iff (textFrom_strcpy _ (by decide) (by decide))).mpr (by decide)

/-- A line break with text behind it: the call has no meaning from the copy on. -/
theorem break_overlaps : ∃ message, textFrom message 0 messageSize = some "one\nabcd".toList ∧
    ¬ Strips message "one\nabcd".toList ∧
    logWrite ⟨some logInfo,fun _ => nul⟩ logInfo [] "one\nabcd".toList [] = none := by
  have held : textFrom (strcpy (fun _ => nul) 0 "one\nabcd".toList) 0 messageSize = some "one\nabcd".toList :=
    textFrom_strcpy _ (by decide) (by decide)
  refine ⟨_,held,?_,by decide +kernel⟩
  rintro ⟨after,seen,runs,_⟩
  rw [stripLoop_none held (by decide)] at runs
  contradiction

/-! The line of a whole call. -/

def timePart (logopts type : Nat) (time : Text) : Text :=
  if logopts &&& logTime ≠ 0 ∨ type &&& logTime ≠ 0 then time ++ "  ".toList else []

def kindPart (type : Nat) : Text :=
  if type &&& logWarning ≠ 0 then "warning: ".toList
  else if type &&& logError ≠ 0 ∨ type &&& logSyserr ≠ 0 then "error: ".toList
  else []

def errorPart (type : Nat) (error : Text) : Text := if type &&& logSyserr ≠ 0 then ": ".toList ++ error else []

def composed (logopts type : Nat) (time text error : Text) : Text :=
  trim (timePart logopts type time ++ kindPart type ++ text) ++ errorPart type error

/-- The cursor stands behind what is written. -/
structure Stands (done : Text) (cursor : Memory × Nat) : Prop where
  behind : cursor.2 = done.length
  lies : Lies cursor.1 0 done

section Build

variable {done s t : Text} {cursor next : Memory × Nat} {message after : Memory} {logopts type : Nat}

private theorem append_some (stands : Stands done cursor) (appended : append s cursor = some next) :
    Stands (done ++ s) next ∧ (done ++ s).length < messageSize ∧ Lies next.1 0 (done ++ s ++ [nul]) := by
  obtain ⟨message,ptr⟩ := cursor
  obtain ⟨rfl,lies⟩ := stands
  rw [append] at appended
  split_ifs at appended with fits
  obtain rfl := Option.some.inj appended
  have whole := lies_strcpy lies s
  rw [← List.length_append] at fits
  exact ⟨⟨(List.length_append).symm,(lies_append.mp whole).1⟩,fits,whole⟩

private theorem prependTime_some {time : Text} (stands : Stands done cursor)
    (prepended : prependTime logopts type time cursor = some next) : Stands (done ++ timePart logopts type time) next := by
  rw [prependTime] at prepended
  rw [timePart]
  split_ifs at prepended ⊢ with timed
  · exact (append_some stands prepended).1
  · rwa [List.append_nil,← Option.some.inj prepended]

private theorem prependKind_some (stands : Stands done cursor) (prepended : prependKind type cursor = some next) :
    Stands (done ++ kindPart type) next := by
  rw [prependKind] at prepended
  rw [kindPart]
  split_ifs at prepended ⊢ with warning error
  · exact (append_some stands prepended).1
  · exact (append_some stands prepended).1
  · rwa [List.append_nil,← Option.some.inj prepended]

private theorem trimMessage_some (held : textFrom message 0 messageSize = some s)
    (trimmed : trimMessage message = some after) : textFrom after 0 messageSize = some (trim s) := by
  obtain ⟨fits,plain,_⟩ := textFrom_iff.mp held
  simp only [trimMessage,held,Option.bind_eq_bind,Option.bind_some] at trimmed
  split_ifs at trimmed with empty
  · obtain rfl := Option.some.inj trimmed
    rw [held,empty]
    rfl
  · obtain rfl := Option.some.inj trimmed
    set front := s.dropWhile fun c => isspace c || (0 < c.toNat && c.toNat < 32) with dropped
    have copied : Lies (strcpy message 0 front) 0 (front ++ [nul]) := lies_strcpy (m := message) (s := []) trivial front
    obtain ⟨rest,split⟩ := List.rdropWhile_prefix isspace front
    rw [← split,List.append_assoc] at copied
    have cut := lies_strcpy (lies_append.mp copied).1 []
    rw [List.append_nil,split] at cut
    have part : (trim s).Sublist s := (List.rdropWhile_prefix isspace front).sublist.trans (List.dropWhile_sublist _)
    exact textFrom_iff.mpr ⟨part.length_le.trans_lt fits,fun member => plain (part.subset member),cut⟩

private theorem strcat_some (held : textFrom message 0 messageSize = some s) (plain : nul ∉ t)
    (joined : strcat message t = some after) : textFrom after 0 messageSize = some (s ++ t) := by
  obtain ⟨_,free,lies⟩ := textFrom_iff.mp held
  simp only [strcat,held,Option.bind_eq_bind,Option.bind_some,Option.bind_eq_some_iff] at joined
  obtain ⟨next,appended,joined⟩ := joined
  obtain rfl := Option.some.inj joined
  have stands : Stands s (message,s.length) := ⟨rfl,(lies_append.mp lies).1⟩
  obtain ⟨_,fits,whole⟩ := append_some stands appended
  have both : nul ∉ s ++ t := fun member => (List.mem_append.mp member).elim free plain
  exact textFrom_iff.mpr ⟨fits,both,whole⟩

private theorem concatError_some (held : textFrom message 0 messageSize = some s) (plain : nul ∉ t)
    (joined : concatError type t message = some after) : textFrom after 0 messageSize = some (s ++ errorPart type t) := by
  rw [concatError] at joined
  rw [errorPart]
  split_ifs at joined ⊢ with syserr
  · obtain ⟨middle,first,second⟩ := Option.bind_eq_some_iff.mp joined
    rw [← List.append_assoc]
    exact strcat_some (strcat_some held (by decide) first) plain second
  · rwa [List.append_nil,← Option.some.inj joined]

private theorem timePart_plain {time : Text} (plain : nul ∉ time) : nul ∉ timePart logopts type time := by
  rw [timePart]
  split_ifs
  · exact fun member => (List.mem_append.mp member).elim plain (by decide)
  · exact List.not_mem_nil

private theorem kindPart_plain : nul ∉ kindPart type := by
  rw [kindPart]
  split_ifs <;> decide

private theorem buildMessage_some {time text error : Text} (plain : nul ∉ time ∧ nul ∉ text ∧ nul ∉ error)
    (built : buildMessage logopts type time text error message = some after) :
    textFrom after 0 messageSize = some (composed logopts type time text error) := by
  simp only [buildMessage,Option.bind_eq_bind,Option.bind_eq_some_iff] at built
  obtain ⟨timed,first,kind,second,whole,third,trimmed,fourth,last⟩ := built
  have start : Stands [] (message,0) := ⟨rfl,trivial⟩
  obtain ⟨_,fits,lies⟩ := append_some (prependKind_some (prependTime_some start first) second) third
  rw [List.nil_append] at fits lies
  have free : nul ∉ timePart logopts type time ++ kindPart type ++ text := by
    simp only [List.mem_append,not_or]
    exact ⟨⟨timePart_plain plain.1,kindPart_plain⟩,plain.2.1⟩
  have held : textFrom whole.1 0 messageSize = some (timePart logopts type time ++ kindPart type ++ text) :=
    textFrom_iff.mpr ⟨fits,free,lies⟩
  exact concatError_some (trimMessage_some held fourth) plain.2.2 last

end Build

/-- What `log_write` writes is what the loop leaves of the line that was composed. -/
private theorem logWrite_line {log after : Log} {type : Nat} {time text error line : Text}
    (plain : nul ∉ time ∧ nul ∉ text ∧ nul ∉ error)
    (writes : logWrite log type time text error = some (some line,after)) :
    stripped (composed (log.logopts.getD logDefaults) type time text error) = some line := by
  unfold logWrite at writes
  dsimp only at writes
  split_ifs at writes with unlogged long
  · cases writes
  simp only [Option.bind_eq_bind,Option.bind_eq_some_iff] at writes
  obtain ⟨message,built,⟨cleared,seen⟩,runs,found,held,written⟩ := writes
  have lies := buildMessage_some plain built
  cases left : stripped (composed (log.logopts.getD logDefaults) type time text error) with
  | none =>
    rw [stripLoop_none lies left] at runs
    contradiction
  | some rest =>
    obtain ⟨_,_,runs',held',_⟩ := stripLoop_text lies left
    obtain ⟨rfl,rfl⟩ := Prod.mk.inj (Option.some.inj (runs.symm.trans runs'))
    obtain rfl := Option.some.inj (held.symm.trans held')
    rw [Option.some.injEq,Prod.mk.injEq] at written
    exact written.1

theorem logWrite_single {log after : Log} {type : Nat} {time text error line : Text}
    (plain : nul ∉ time ∧ nul ∉ text ∧ nul ∉ error)
    (writes : logWrite log type time text error = some (some line,after)) : Single line :=
  (stripped_some (logWrite_line plain writes)).1

private theorem lineBreak_isspace {c : Char} (broken : lineBreak c = true) : isspace c = true := by
  rw [lineBreak,Bool.or_eq_true,decide_eq_true_eq,decide_eq_true_eq] at broken
  rcases broken with rfl | rfl <;> decide

private theorem trim_last (s : Text) : ∀ c ∈ (trim s).getLast?, lineBreak c = false := by
  intro c last
  obtain ⟨filled,rfl⟩ := List.mem_getLast?_eq_getLast last
  have text := List.rdropWhile_last_not isspace _ filled
  exact Bool.eq_false_iff.mpr fun broken => text (lineBreak_isspace broken)

/-- Without an error text the end is trimmed, and a line that is written is the one composed. -/
theorem logWrite_quiet {log after : Log} {type : Nat} {time text error line : Text}
    (plain : nul ∉ time ∧ nul ∉ text ∧ nul ∉ error) (quiet : type &&& logSyserr = 0)
    (writes : logWrite log type time text error = some (some line,after)) :
    line = composed (log.logopts.getD logDefaults) type time text error := by
  refine stripped_closed ?_ (logWrite_line plain writes)
  rw [composed,errorPart,if_neg (not_not_intro quiet),List.append_nil]
  exact trim_last _

end Mybmm.LogWrite
