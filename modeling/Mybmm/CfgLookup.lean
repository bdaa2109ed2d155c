import Mathlib.Data.List.Nodup
import Mybmm.CfgFile

/-! Looking up what was read: a keyword of a section has the value of its last
assignment in the file, and occurs once. The file is told by its blocks. -/
namespace Mybmm.CfgLookup
open CString Libc Cfg CfgFile

/-! The file as its author sees it. -/

def fileLines (file : Text) : List Text := (file.splitOn '\n').map strip

def headerOf (line : Text) : Option Text :=
  match line with
  | '[' :: rest => if ']' ∈ rest then some (toupper (rest.takeWhile (· ≠ ']'))) else none
  | _ => none

def continues (line : Text) : Bool := line ≠ [] ∧ headerOf line = none

/-- A block runs from a header to the next header or blank line. -/
def blocks : List Text → List (Text × List Text)
  | [] => []
  | line :: lines =>
    match headerOf line with
    | some name => (name,lines.takeWhile continues) :: blocks lines
    | none => blocks lines

/-- The assignment lines of a section, in the order of the file. -/
def assigned (blocks : List (Text × List Text)) (name : Text) : List Text :=
  (blocks.filter fun block => block.1 = name).flatMap fun block => block.2.filter fun line => !isComment line

def keywordOf (line : Text) : Text := trim (toupper (line.takeWhile (· ≠ '=')))

def valueOf (line : Text) : Text := (line.dropWhile (· ≠ '=')).tail

def lastOf (lines : List Text) (keyword : Text) : Option Text :=
  (lines.filter fun line => keywordOf line = keyword).getLast?.map valueOf

/-- An assignment has its `=` after a keyword that fits. -/
def Assigns (line : Text) : Prop := '=' ∈ line ∧ (line.takeWhile (· ≠ '=')).length ≤ 63

instance (line : Text) : Decidable (Assigns line) := inferInstanceAs (Decidable (_ ∧ _))

structure Readable (file : Text) : Prop where
  plain : ∀ c ∈ file, c.toNat < 128 ∧ c ≠ nul
  lines : ∀ line ∈ file.splitOn '\n', line.length ≤ 1021
  headers : ∀ line ∈ fileLines file, ∀ name ∈ headerOf line, name.length ≤ 63
  assigns : ∀ block ∈ blocks (fileLines file), ∀ line ∈ block.2, isComment line = false → Assigns line

/-- No name occurs twice, and no keyword twice in a section. -/
structure Unique (info : CfgInfo) : Prop where
  names : (info.sections.map CfgSection.name).Nodup
  keywords : ∀ s ∈ info.sections, (s.items.map CfgItem.keyword).Nodup

/-! The lines. -/

private theorem readLines_eq (file : Text) (plain : ∀ c ∈ file, c.toNat < 128 ∧ c ≠ nul)
    (fits : ∀ line ∈ file.splitOn '\n', line.length ≤ 1021) : readLines file = fileLines file := by
  induction size : file.length using Nat.strong_induction_on generalizing file with
  | _ size ih =>
    by_cases feed : '\n' ∈ file
    · obtain ⟨line,rest,rfl,first⟩ := List.eq_append_cons_of_mem feed
      have whole (c : Char) (held : c ∈ line) : Plain c :=
        ⟨(plain c (by simp [held])).1,(plain c (by simp [held])).2,fun same => first (same ▸ held)⟩
      have split : (line ++ '\n' :: rest).splitOn '\n' = line :: rest.splitOn '\n' := by
        rw [List.splitOn_eq_splitOnP]
        exact List.splitOnP_append_cons_of_forall_mem (fun c held => by simpa using (whole c held).2.2) _ (by simp) _
      rw [split] at fits
      have later := ih rest.length (by rw [← size]; simp; omega) rest (fun c held => plain c (by simp [held]))
        (fun l held => fits l (by simp [held])) rfl
      rw [readLines_line line rest whole (fits line (by simp)),later,fileLines,fileLines,split,List.map_cons]
    · have split : file.splitOn '\n' = [file] := by
        rw [List.splitOn_eq_splitOnP]
        exact List.splitOnP_eq_singleton fun c held => by
          simpa using fun same : c = '\n' => feed (same ▸ held)
      rw [readLines_last file (fun c held => ⟨(plain c held).1,(plain c held).2,fun same => feed (same ▸ held)⟩)
        (fits file (by simp [split])),fileLines,split,List.map_singleton]

/-! What one line does to the store. -/

def find (info : CfgInfo) (name keyword : Text) : Option Text :=
  (info.sections.find? fun s => s.name == name).bind fun s => (getItem s keyword).map CfgItem.value

theorem cfgGetItem_eq (info : CfgInfo) (sectionName keyword : Text) :
    cfgGetItem (some info) sectionName keyword = find info (toupper sectionName) (toupper keyword) := by
  simp only [cfgGetItem,find,cfgGetSection,Option.bind_eq_bind,Option.bind_some]
  refine congrArg _ (funext fun s => ?_)
  cases getItem s (toupper keyword) <;> rfl

private theorem toUpper_toUpper (c : Char) : c.toUpper.toUpper = c.toUpper := by
  unfold Char.toUpper
  split_ifs with lower again
  · exfalso
    simp only [UInt32.le_iff_toNat_le,UInt32.toNat_add] at lower again
    revert lower again
    simp
    omega
  · rfl
  · rfl

private theorem toupper_toupper (s : Text) : toupper (toupper s) = toupper s := by
  simp only [toupper,List.map_map,Function.comp_def,toUpper_toUpper]

private theorem headerName_eq {line : Text} {name : Text} (header : headerOf line = some name) (fits : name.length ≤ 63) :
    headerName line = some name ∧ toupper name = name := by
  unfold headerOf at header
  split at header
  · rename_i rest
    split_ifs at header with closed
    obtain rfl := Option.some.inj header
    have short : (rest.takeWhile (· ≠ ']')).length ≤ 63 := by simpa [toupper] using fits
    refine ⟨?_,toupper_toupper _⟩
    rw [headerName,if_pos closed,cfgSectionNameSize,List.take_of_length_le short]
  · contradiction

private theorem headerName_none {line : Text} (other : headerOf line = none) : headerName line = none := by
  cases line with
  | nil => rfl
  | cons c rest =>
    by_cases bracket : c = '['
    · subst bracket
      have unclosed : ']' ∉ rest := fun closed => by simp [headerOf,closed] at other
      simp [headerName,unclosed]
    · simp [headerName,bracket]

private theorem find_open (info : CfgInfo) (name : Text) (upper : toupper name = name) (fits : name.length ≤ 63)
    (n k : Text) : find (openSection name info) n k = find info n k := by
  have size : name.length ≤ cfgSectionNameSize := by
    simp only [cfgSectionNameSize]
    omega
  unfold openSection
  cases found : cfgGetSection info name with
  | some _ => rfl
  | none =>
    simp only [find,List.find?_append,cfgCreateSection,upper,List.take_of_length_le size]
    cases there : info.sections.find? fun s => s.name == n with
    | some _ => simp
    | none => by_cases same : name = n <;> simp [same,getItem]

private theorem unique_open {info : CfgInfo} (unique : Unique info) (name : Text) (upper : toupper name = name)
    (fits : name.length ≤ 63) : Unique (openSection name info) ∧ name ∈ (openSection name info).sections.map CfgSection.name := by
  have size : name.length ≤ cfgSectionNameSize := by
    simp only [cfgSectionNameSize]
    omega
  unfold openSection
  cases found : cfgGetSection info name with
  | some s =>
    have named := List.find?_some found
    have held := List.mem_of_find?_eq_some found
    rw [upper,beq_iff_eq] at named
    exact ⟨unique,List.mem_map.mpr ⟨s,held,named⟩⟩
  | none =>
    rw [cfgGetSection,upper,List.find?_eq_none] at found
    simp only [cfgCreateSection,upper,List.take_of_length_le size]
    refine ⟨⟨?_,?_⟩,by simp⟩
    · rw [List.map_append]
      refine List.Nodup.append unique.names (by simp) ?_
      rw [List.disjoint_right]
      intro n held earlier
      obtain ⟨s,member,named⟩ := List.mem_map.mp earlier
      rw [List.map_singleton,List.mem_singleton] at held
      exact found s member (by rw [named,held]; simp)
    · intro s held
      rw [List.mem_append,List.mem_singleton] at held
      rcases held with old | rfl
      · exact unique.keywords s old
      · simp

private theorem eraseP_absent {items : List CfgItem} (unique : (items.map CfgItem.keyword).Nodup) (keyword : Text) :
    ∀ item ∈ items.eraseP (fun old => old.keyword == keyword), item.keyword ≠ keyword := by
  induction items with
  | nil => simp
  | cons first items ih =>
    rw [List.map_cons,List.nodup_cons] at unique
    by_cases same : first.keyword = keyword
    · rw [List.eraseP_cons_of_pos (by simpa using same)]
      intro item held named
      exact unique.1 (List.mem_map.mpr ⟨item,held,named.trans same.symm⟩)
    · rw [List.eraseP_cons_of_neg (by simpa using same)]
      intro item held
      rcases List.mem_cons.mp held with rfl | later
      · exact same
      · exact ih unique.2 item later

private theorem find?_eraseP {α : Type} (p q : α → Bool) (l : List α) (apart : ∀ a, p a = true → q a = false) :
    (l.eraseP p).find? q = l.find? q := by
  induction l with
  | nil => rfl
  | cons a l ih =>
    by_cases hit : p a = true
    · rw [List.eraseP_cons_of_pos hit,List.find?_cons,apart a hit]
    · rw [List.eraseP_cons_of_neg hit,List.find?_cons,List.find?_cons,ih]

private theorem getItem_add {s : CfgSection} (unique : (s.items.map CfgItem.keyword).Nodup) (item : CfgItem) (k : Text) :
    getItem (addItem item s) k = if item.keyword = k then some item else getItem s k := by
  simp only [getItem,addItem,List.find?_append]
  by_cases same : item.keyword = k
  · subst same
    have none : (s.items.eraseP fun old => old.keyword == item.keyword).find? (fun old => old.keyword == item.keyword) =
        none := by
      rw [List.find?_eq_none]
      intro old held
      simpa using eraseP_absent unique item.keyword old held
    simp [none]
  · rw [find?_eraseP _ _ s.items fun old hit => by
      rw [beq_iff_eq] at hit
      simpa [hit] using same]
    simp [same]

private theorem unique_add {s : CfgSection} (unique : (s.items.map CfgItem.keyword).Nodup) (item : CfgItem) :
    ((addItem item s).items.map CfgItem.keyword).Nodup := by
  rw [addItem,List.map_append]
  refine List.Nodup.append ((List.eraseP_sublist.map _).nodup unique) (by simp) ?_
  rw [List.disjoint_right]
  intro k held earlier
  obtain ⟨old,member,named⟩ := List.mem_map.mp earlier
  rw [List.map_singleton,List.mem_singleton] at held
  exact eraseP_absent unique item.keyword old member (named.trans held)

theorem map_updateFirst {α β : Type} (p : α → Bool) (f : α → α) (g : α → β) (same : ∀ a, g (f a) = g a) (l : List α) :
    (updateFirst p f l).map g = l.map g := by
  induction l with
  | nil => rfl
  | cons a l ih => cases hit : p a <;> simp [updateFirst,hit,same,ih]

private theorem assignItem_names (name : Text) (item : CfgItem) (info : CfgInfo) :
    (assignItem name item info).sections.map CfgSection.name = info.sections.map CfgSection.name :=
  map_updateFirst _ (addItem item) _ (fun _ => rfl) _

theorem mem_updateFirst {α : Type} (p : α → Bool) (f : α → α) (l : List α) (a : α) (held : a ∈ updateFirst p f l) :
    a ∈ l ∨ ∃ b ∈ l, a = f b := by
  induction l with
  | nil => simp [updateFirst] at held
  | cons b l ih =>
    by_cases hit : p b = true
    · simp only [updateFirst,hit,if_true,List.mem_cons] at held
      rcases held with rfl | later
      · exact Or.inr ⟨b,by simp,rfl⟩
      · exact Or.inl (by simp [later])
    · simp only [updateFirst,hit,Bool.false_eq_true,if_false,List.mem_cons] at held
      rcases held with rfl | later
      · exact Or.inl (by simp)
      · rcases ih later with old | ⟨c,member,made⟩
        · exact Or.inl (by simp [old])
        · exact Or.inr ⟨c,by simp [member],made⟩

theorem find?_updateFirst_self {α : Type} (p : α → Bool) (f : α → α) (keeps : ∀ a, p (f a) = p a) (l : List α) :
    (updateFirst p f l).find? p = (l.find? p).map f := by
  induction l with
  | nil => rfl
  | cons a l ih => cases hit : p a <;> simp [updateFirst,hit,keeps,ih]

private theorem find_assign {info : CfgInfo} (unique : Unique info) (name : Text)
    (held : name ∈ info.sections.map CfgSection.name) (item : CfgItem) (n k : Text) :
    find (assignItem name item info) n k =
      if name = n ∧ item.keyword = k then some item.value else find info n k := by
  by_cases same : name = n
  · subst same
    obtain ⟨s,member,named⟩ := List.mem_map.mp held
    obtain ⟨s,found⟩ : ∃ s, info.sections.find? (fun s => s.name == name) = some s :=
      Option.isSome_iff_exists.mp (List.find?_isSome.mpr ⟨s,member,by simp [named]⟩)
    have keys := unique.keywords s (List.mem_of_find?_eq_some found)
    have after : (updateFirst (fun s => s.name == name) (addItem item) info.sections).find? (fun s => s.name == name) =
        some (addItem item s) := by
      rw [find?_updateFirst_self _ (addItem item) fun s => rfl,found]
      rfl
    simp only [find,assignItem,after,found,Option.bind_some,getItem_add keys,true_and]
    by_cases key : item.keyword = k <;> simp [key]
  · have skip : (updateFirst (fun s => s.name == name) (addItem item) info.sections).find? (fun s => s.name == n) =
        info.sections.find? fun s => s.name == n := by
      refine find?_updateFirst _ _ _ info.sections fun s hit => ?_
      have named : s.name = name := by simpa using hit
      simp [addItem,named,same]
    simp [find,assignItem,skip,same]

private theorem unique_assign {info : CfgInfo} (unique : Unique info) (name : Text) (item : CfgItem) :
    Unique (assignItem name item info) where
  names := by
    rw [assignItem_names]
    exact unique.names
  keywords s held := by
    rcases mem_updateFirst _ _ _ s held with old | ⟨b,member,rfl⟩
    · exact unique.keywords s old
    · exact unique_add (unique.keywords b member) item

/-! From some line on. -/

def pending (current : Option Text) (lines : List Text) : List (Text × List Text) :=
  match current with
  | some name => (name,lines.takeWhile continues) :: blocks lines
  | none => blocks lines

private theorem assigned_cons (name : Text) (lines : List Text) (rest : List (Text × List Text)) (n : Text) :
    assigned ((name,lines) :: rest) n =
      (if name = n then lines.filter fun line => !isComment line else []) ++ assigned rest n := by
  by_cases same : name = n <;> simp [assigned,same]

private theorem lastOf_cons (line : Text) (lines : List Text) (k : Text) :
    lastOf (line :: lines) k = (lastOf lines k).or (if keywordOf line = k then some (valueOf line) else none) := by
  by_cases hit : keywordOf line = k
  · simp only [lastOf,List.filter_cons,hit,decide_true,if_true,List.getLast?_cons]
    cases (lines.filter fun line => keywordOf line = k).getLast? <;> simp
  · simp [lastOf,hit]

private theorem keywordValue_eq {line : Text} (assigns : Assigns line) :
    keywordValue line = some (keywordOf line,valueOf line) := by
  obtain ⟨equal,fits⟩ := assigns
  have parts : line.takeWhile (· ≠ '=') ++ line.dropWhile (· ≠ '=') = line := List.takeWhile_append_dropWhile
  have rest : line.dropWhile (· ≠ '=') ≠ [] := by
    intro none
    rw [List.dropWhile_eq_nil_iff] at none
    simpa using none '=' equal
  generalize before : line.takeWhile (· ≠ '=') = key at parts fits
  generalize after : line.dropWhile (· ≠ '=') = value at parts rest
  have longer : key.length < line.length := by
    rw [← parts,List.length_append]
    have := List.length_pos_of_ne_nil rest
    omega
  have x : min (cfgKeywordSize - 1) key.length = key.length := Nat.min_eq_right fits
  have first : line.take key.length = key := by
    rw [← parts]
    exact List.take_left
  have last : line.drop (key.length + 1) = value.tail := by
    rw [← parts,List.drop_append]
    simp
  simp only [keywordValue,before,x,if_pos longer,keywordOf,valueOf,after,first,last]

def AllAssign (blocks : List (Text × List Text)) : Prop :=
  ∀ block ∈ blocks, ∀ line ∈ block.2, isComment line = false → Assigns line

private theorem assigned_blank (current : Option Text) (lines : List Text) (n : Text) :
    assigned (pending current ([] :: lines)) n = assigned (blocks lines) n := by
  cases current with
  | none => rfl
  | some name => by_cases same : name = n <;> simp [pending,assigned,blocks,headerOf,continues,same]

private theorem assigned_header (current : Option Text) {line name : Text} (header : headerOf line = some name)
    (lines : List Text) (n : Text) :
    assigned (pending current (line :: lines)) n = assigned (pending (some name) lines) n := by
  cases current with
  | none => simp [pending,blocks,header]
  | some old => by_cases same : old = n <;> simp [pending,assigned,blocks,header,continues,same]

private theorem allAssign_blank {current : Option Text} {lines : List Text}
    (all : AllAssign (pending current ([] :: lines))) :
    AllAssign (pending none lines) := by
  intro block held
  refine all block ?_
  cases current with
  | none => exact held
  | some name => exact List.mem_cons_of_mem _ held

private theorem allAssign_header {current : Option Text} {line name : Text} (header : headerOf line = some name)
    {lines : List Text} (all : AllAssign (pending current (line :: lines))) : AllAssign (pending (some name) lines) := by
  intro block held
  refine all block ?_
  cases current with
  | none => simpa [pending,blocks,header] using held
  | some old => exact List.mem_cons_of_mem _ (by simpa [pending,blocks,header] using held)

private theorem pending_outside {line : Text} (other : headerOf line = none) (lines : List Text) :
    pending none (line :: lines) = pending none lines := by
  simp [pending,blocks,other]

private theorem pending_inside {line : Text} (filled : line ≠ []) (other : headerOf line = none) (name : Text)
    (lines : List Text) : pending (some name) (line :: lines) = (name,line :: lines.takeWhile continues) :: blocks lines := by
  have goes : continues line = true := by simp [continues,filled,other]
  simp [pending,blocks,other,goes]

private theorem allAssign_inside {line name : Text} {lines : List Text}
    (all : AllAssign ((name,line :: lines.takeWhile continues) :: blocks lines)) :
    (isComment line = false → Assigns line) ∧ AllAssign (pending (some name) lines) := by
  constructor
  · exact all (name,line :: lines.takeWhile continues) (by simp) line (by simp)
  · intro block there l held
    rcases List.mem_cons.mp there with rfl | after
    · exact all (name,line :: lines.takeWhile continues) (by simp) l (List.mem_cons_of_mem _ held)
    · exact all block (List.mem_cons_of_mem _ after) l held

private theorem lastOf_inside (line name : Text) (lines : List Text) (n k : Text) :
    lastOf (assigned ((name,line :: lines.takeWhile continues) :: blocks lines) n) k =
      (lastOf (assigned (pending (some name) lines) n) k).or
        (if isComment line = false ∧ name = n ∧ keywordOf line = k then some (valueOf line) else none) := by
  by_cases same : name = n
  · by_cases comment : isComment line = true
    · simp [pending,assigned_cons,same,comment]
    · have plain : isComment line = false := by simpa using comment
      simp only [pending,assigned_cons,same,if_true,List.filter_cons,plain,Bool.not_false,List.cons_append,lastOf_cons,
        true_and]
  · simp [pending,assigned_cons,same]

/-- From a store on, the lines that follow decide, and where they say nothing the
store. -/
private theorem read_pending (lines : List Text) (r : Reader) (unique : Unique r.info)
    (known : ∀ name ∈ r.current, name ∈ r.info.sections.map CfgSection.name)
    (headers : ∀ line ∈ lines, ∀ name ∈ headerOf line, name.length ≤ 63) (all : AllAssign (pending r.current lines)) :
    ∃ t, lines.foldlM cfgReadLine r = some t ∧ Unique t.info ∧
      ∀ n k, find t.info n k = (lastOf (assigned (pending r.current lines) n) k).or (find r.info n k) := by
  induction lines generalizing r with
  | nil =>
    refine ⟨r,rfl,unique,fun n k => ?_⟩
    have none : assigned (pending r.current []) n = [] := by
      cases r.current with
      | none => rfl
      | some name => by_cases same : name = n <;> simp [pending,assigned,blocks,same]
    simp [none,lastOf]
  | cons line lines ih =>
    have later : ∀ line ∈ lines, ∀ name ∈ headerOf line, name.length ≤ 63 := fun l held => headers l (by simp [held])
    rw [List.foldlM_cons]
    by_cases blank : line = []
    · subst blank
      obtain ⟨t,done,sound,finds⟩ := ih { r with current := none } unique (by simp) later (allAssign_blank all)
      refine ⟨t,by rw [readLine_blank]; exact done,sound,fun n k => ?_⟩
      rw [assigned_blank]
      exact finds n k
    · cases header : headerOf line with
      | some name =>
        have fits := headers line (by simp) name header
        obtain ⟨read,upper⟩ := headerName_eq header fits
        obtain ⟨sound,held⟩ := unique_open unique name upper fits
        obtain ⟨t,done,final,finds⟩ := ih ⟨openSection name r.info,some name,[]⟩ sound
          (fun n same => by obtain rfl := Option.some.inj same; exact held) later (allAssign_header header all)
        refine ⟨t,by rw [readLine_header read]; exact done,final,fun n k => ?_⟩
        rw [assigned_header r.current header,finds,find_open r.info name upper fits]
      | none =>
        have other := headerName_none header
        cases current : r.current with
        | none =>
          rw [current,pending_outside header] at all
          obtain ⟨t,done,sound,finds⟩ := ih r unique known later (by rw [current]; exact all)
          rw [current] at finds
          refine ⟨t,by rw [readLine_outside blank other current]; exact done,sound,fun n k => ?_⟩
          rw [pending_outside header]
          exact finds n k
        | some name =>
          rw [current,pending_inside blank header] at all
          obtain ⟨first,rest⟩ := allAssign_inside all
          rw [pending_inside blank header]
          by_cases comment : isComment line = true
          · obtain ⟨t,done,sound,finds⟩ := ih { r with desc := line.take 1023 } unique known later
              (by rw [current]; exact rest)
            rw [current] at finds
            refine ⟨t,by rw [readLine_comment blank other current comment]; exact done,sound,fun n k => ?_⟩
            rw [finds,lastOf_inside]
            simp [comment]
          · have plain : isComment line = false := by simpa using comment
            have reads := readLine_item blank other current plain (keywordValue_eq (first plain))
            have held := known name current
            obtain ⟨t,done,sound,finds⟩ := ih ⟨assignItem name _ r.info,some name,[]⟩ (unique_assign unique name _)
              (fun n same => by
                obtain rfl := Option.some.inj same
                rw [assignItem_names]
                exact held) later rest
            refine ⟨t,by rw [reads]; exact done,sound,fun n k => ?_⟩
            rw [finds,find_assign unique name held,lastOf_inside,Option.or_assoc]
            congr 1
            by_cases hit : name = n ∧ keywordOf line = k <;> simp [hit,plain]

/-- Every lookup finds the last assignment, in whatever letters it is asked for. -/
theorem lookup_last (file : Text) (readable : Readable file) :
    ∃ info, cfgRead file = some info ∧ Unique info ∧ ∀ sectionName keyword,
      cfgGetItem (some info) sectionName keyword =
        lastOf (assigned (blocks (fileLines file)) (toupper sectionName)) (toupper keyword) := by
  obtain ⟨t,done,unique,finds⟩ := read_pending (fileLines file) ⟨⟨[]⟩,none,[]⟩ ⟨by simp,by simp⟩ (by simp)
    readable.headers readable.assigns
  refine ⟨t.info,?_,unique,fun sectionName keyword => ?_⟩
  · rw [cfgRead,readLines_eq file readable.plain readable.lines,done]
    rfl
  · rw [cfgGetItem_eq,finds]
    simp [find,pending]

def sample : Text := "[si]\n;old\nmax = 1\n\nstray\n[Pack]\nmax=2\n[SI]\nMax=3=4\n".toList

theorem lookup_sample : ∃ info, cfgRead sample = some info ∧ Unique info ∧
    cfgGetItem (some info) "Si".toList "mAX".toList = some "3=4".toList := by
  have plain : sample.all (fun c => c.toNat < 128 ∧ c ≠ nul) = true := by decide +kernel
  have readable : Readable sample :=
    { plain := by simpa using plain, lines := by decide +kernel, headers := by decide +kernel
      assigns := by decide +kernel }
  obtain ⟨info,read,unique,finds⟩ := lookup_last sample readable
  exact ⟨info,read,unique,(finds _ _).trans (by decide +kernel)⟩

end Mybmm.CfgLookup
