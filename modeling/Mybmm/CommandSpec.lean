import Mathlib.Data.Bool.AllAny
import Mybmm.StreleFields

/-! The `-i` and `-p` options of main.c: an inverter or a cell monitor as type, transport and
target in one argument. -/
namespace Mybmm.CommandSpec
open CString Libc Strele StreleFields

def moduleNameLen : Nat := 32

def targetLen : Nat := 32

/-- `strncpy`: no more than `n` characters, with the rest of them zero. -/
def strncpy (m : Memory) (s : Text) (n : Nat) : Memory := store m 0 (s.take n ++ List.replicate (n - s.length) nul)

/-- The three buffers of an option, on the stack of `init`. -/
structure Spec where
  type : Memory
  transport : Memory
  target : Memory

def Spec.typeText (s : Spec) : Option Text := textFrom s.type 0 (moduleNameLen + 1)

def Spec.transportText (s : Spec) : Option Text := textFrom s.transport 0 (moduleNameLen + 1)

def Spec.targetText (s : Spec) : Option Text := textFrom s.target 0 (targetLen + 1)

/-- An option: the buffers after it, or a usage message where a part is empty. A buffer that
holds no terminator is read on past its end, which has no meaning. -/
def parseSpec (s : Spec) (optarg : Text) : Option (Option Spec) := do
  let (type,optarg) ← streleText 0 [':'] optarg
  let (transport,optarg) ← streleText 1 [':'] optarg
  let (target,_) ← streleText 2 [':'] optarg
  let s : Spec := ⟨strncpy s.type type moduleNameLen,strncpy s.transport transport moduleNameLen,
    strncpy s.target target targetLen⟩
  let type ← s.typeText
  let transport ← s.transportText
  let target ← s.targetText
  return if type = [] ∨ transport = [] ∨ target = [] then none else some s

/-- The buffers of both options. -/
structure Buffers where
  inv : Spec
  pack : Spec

inductive Opt where
  | i | p
deriving DecidableEq

def Buffers.spec (b : Buffers) : Opt → Spec
  | .i => b.inv
  | .p => b.pack

def parseOption (b : Buffers) (opt : Opt) (optarg : Text) : Option (Option Buffers) :=
  match opt with
  | .i => (parseSpec b.inv optarg).map (Option.map fun s => { b with inv := s })
  | .p => (parseSpec b.pack optarg).map (Option.map fun s => { b with pack := s })

/-- The argument for three names. -/
def argument (type transport target : Text) : Text := type ++ ':' :: transport ++ ':' :: target

def Recovered (b : Buffers) (opt : Opt) (type transport target : Text) : Prop :=
  ∃ b', parseOption b opt (argument type transport target) = some (some b') ∧
    (b'.spec opt).typeText = some type ∧ (b'.spec opt).transportText = some transport ∧
    (b'.spec opt).targetText = some target

/-- A text that fits its buffer, with the terminator, and holds no quotes. -/
structure Fitting (s : Text) : Prop where
  filled : s ≠ []
  fits : s.length ≤ 32
  text : nul ∉ s
  unquoted : ∀ c ∈ s, isquote c = false

instance (s : Text) : Decidable (Fitting s) :=
  decidable_of_iff (s ≠ [] ∧ s.length ≤ 32 ∧ nul ∉ s ∧ s.all (fun c => !isquote c) = true)
    ⟨fun ⟨filled,fits,text,unquoted⟩ => ⟨filled,fits,text,by simpa using unquoted⟩,
      fun f => ⟨f.filled,f.fits,f.text,by simpa using f.unquoted⟩⟩

/-- `strncpy` terminates a text that is shorter than what it may copy; one that is not ends
where the buffer's last byte says. -/
def Ends (m : Memory) (s : Text) : Prop := s.length < 32 ∨ m 32 = nul

instance (m : Memory) (s : Text) : Decidable (Ends m s) := inferInstanceAs (Decidable (_ ∨ _))

private theorem strncpy_text (m : Memory) {s v : Text} (fits : s.length ≤ 32) (text : nul ∉ s) :
    textFrom (strncpy m s 32) 0 33 = some v ↔ s = v ∧ Ends m s := by
  have whole : s.take 32 = s := List.take_of_length_le fits
  have within (i : Nat) (bound : i < s.length) : strncpy m s 32 i = s[i] := by
    have held := store_within m 0 (s.take 32 ++ List.replicate (32 - s.length) nul) i (by simp [whole]; omega)
    rw [Nat.zero_add] at held
    rw [strncpy,held]
    simp [whole,bound]
  have behind : strncpy m s 32 s.length = if s.length < 32 then nul else m 32 := by
    split_ifs with short
    · have held := store_within m 0 (s.take 32 ++ List.replicate (32 - s.length) nul) s.length (by simp [whole]; omega)
      rw [Nat.zero_add] at held
      rw [strncpy,held]
      simp [whole]
    · have full : s.length = 32 := by omega
      rw [strncpy,store_after _ _ _ _ (by simp [whole]; omega),full]
  have ended : strncpy m s 32 s.length = nul ↔ Ends m s := by
    rw [behind,Ends]
    split_ifs with short <;> simp [short]
  have plain : s.takeWhile (· ≠ nul) = s := by
    rw [List.takeWhile_eq_self_iff]
    intro c held
    simpa using fun same : c = nul => text (same ▸ held)
  constructor
  · intro found
    obtain ⟨room,last,inner⟩ := textFrom_some found
    simp only [Nat.zero_add] at last inner
    have reach : s.length ≤ v.length := by
      by_contra short
      rw [within v.length (by omega)] at last
      exact text (last ▸ List.getElem_mem _)
    have zero : Ends m s := by
      rcases Nat.lt_or_ge s.length 32 with short | full
      · exact Or.inl short
      · have size : v.length = s.length := by omega
        rw [size] at last
        exact ended.mp last
    have held := textFrom_held (strncpy m s 32) s 0 33 (by omega) (fun i bound => by rw [Nat.zero_add]; exact within i bound)
      (by rw [Nat.zero_add]; exact ended.mpr zero)
    rw [plain,found] at held
    exact ⟨(Option.some.inj held).symm,zero⟩
  · rintro ⟨rfl,zero⟩
    have held := textFrom_held (strncpy m s 32) s 0 33 (by omega) (fun i bound => by rw [Nat.zero_add]; exact within i bound)
      (by rw [Nat.zero_add]; exact ended.mpr zero)
    rwa [plain] at held

/-! The parts of the argument. -/

theorem blank_colon {c : Char} : blank c = ':' ↔ c = ':' := by
  constructor
  · intro same
    unfold blank at same
    split_ifs at same with space
    · exact absurd same (by decide)
    · exact same
  · rintro rfl
    rfl

private theorem fields_part {f : Text} (unquoted : ∀ c ∈ f, isquote c = false) (plain : ':' ∉ f) (rest : Text) :
    fields ':' (f ++ ':' :: rest) none = (f.map blank,(fields ':' rest none).1 :: (fields ':' rest none).2) := by
  induction f with
  | nil => exact fields_delimiter rest (blank_colon.mpr rfl)
  | cons c f ih =>
    have other : blank c ≠ ':' := fun same => List.ne_of_not_mem_cons plain (blank_colon.mp same).symm
    have tail := ih (fun d held => unquoted d (by simp [held])) (List.not_mem_of_not_mem_cons plain)
    rw [List.cons_append,fields_other _ other,unquoted c (by simp),if_neg Bool.false_ne_true,tail]
    rfl

private theorem fields_last {f : Text} (unquoted : ∀ c ∈ f, isquote c = false) :
    (fields ':' f none).1 = (f.takeWhile (· ≠ ':')).map blank := by
  induction f with
  | nil => rfl
  | cons c f ih =>
    by_cases here : c = ':'
    · rw [fields_delimiter f (blank_colon.mpr here)]
      simp [here]
    · rw [fields_other f fun same => here (blank_colon.mp same),unquoted c (by simp),if_neg Bool.false_ne_true,
        ih fun d held => unquoted d (by simp [held])]
      simp [here]

private theorem cut_unquoted {f : Text} (unquoted : ∀ c ∈ f, isquote c = false) : cut (f.map blank) = f.map blank := by
  rw [cut_self_iff]
  intro c held
  obtain ⟨d,member,rfl⟩ := List.mem_map.mp held
  rw [isquote_blank]
  exact unquoted d member

private theorem opened_unquoted {f : Text} (unquoted : ∀ c ∈ f, isquote c = false) : opened (f.map blank) = f.map blank := by
  cases f with
  | nil => rfl
  | cons c f =>
    rw [List.map_cons,opened,List.head?_cons,Option.any_some,isquote_blank,unquoted c (by simp)]
    rfl

section
variable {type transport target : Text} (t : Fitting type) (tr : Fitting transport) (ta : Fitting target)
  (plain : ':' ∉ type) (plain' : ':' ∉ transport)
include t tr ta plain plain'

private theorem elements_argument (num : Nat) : (elements ':' (argument type transport target))[num]?.getD [] =
    match num with
    | 0 => type.map blank
    | 1 => transport.map blank
    | 2 => (target.takeWhile (· ≠ ':')).map blank
    | k + 3 => ((fields ':' target none).2.map fun f => cut (opened f))[k]?.getD [] := by
  have piece : ∀ c ∈ target.takeWhile (· ≠ ':'), isquote c = false :=
    fun c held => ta.unquoted c ((List.takeWhile_prefix _).subset held)
  rw [elements,argument,List.append_assoc,List.cons_append,fields_part t.unquoted plain,fields_part tr.unquoted plain']
  rcases num with _ | _ | _ | k
  · change cut (type.map blank) = _
    rw [cut_unquoted t.unquoted]
  · change cut (opened (transport.map blank)) = _
    rw [opened_unquoted tr.unquoted,cut_unquoted tr.unquoted]
  · change cut (opened (fields ':' target none).1) = _
    rw [fields_last ta.unquoted,opened_unquoted piece,cut_unquoted piece]
  · rfl

theorem taken (num : Nat) {string : Text} (same : elements ':' string = elements ':' (argument type transport target))
    (few : num < 3) : ∃ left, streleText num [':'] string =
      some ((elements ':' (argument type transport target))[num]?.getD [],left) ∧
        elements ':' left = elements ':' (argument type transport target) := by
  have read : (strele num ':' string).1 = (elements ':' (argument type transport target))[num]?.getD [] := by
    rw [strele_element rfl,same]
  have fits : (strele num ':' string).1.length < 1024 := by
    have front : (target.takeWhile (· ≠ ':')).length ≤ target.length := (List.takeWhile_prefix _).length_le
    have first := t.fits
    have second := tr.fits
    have third := ta.fits
    rw [read,elements_argument t tr ta plain plain']
    rcases num with _ | _ | _ | k
    · rw [List.length_map]; omega
    · rw [List.length_map]; omega
    · rw [List.length_map]; omega
    · omega
  refine ⟨(strele num ':' string).2,?_,by rw [strele_string,same]⟩
  rw [streleText_one num ':' string fits,← read]

/-- The buffers as an argument leaves them. -/
private theorem parse_argument (s : Spec) : ∃ next : Spec,
    next = ⟨strncpy s.type (type.map blank) 32,strncpy s.transport (transport.map blank) 32,
      strncpy s.target ((target.takeWhile (· ≠ ':')).map blank) 32⟩ ∧
    parseSpec s (argument type transport target) =
      next.typeText.bind fun type => next.transportText.bind fun transport => next.targetText.bind fun target =>
        some (if type = [] ∨ transport = [] ∨ target = [] then none else some next) := by
  obtain ⟨first,read,same⟩ := taken t tr ta plain plain' 0 rfl (by decide)
  obtain ⟨second,read',same'⟩ := taken t tr ta plain plain' 1 same (by decide)
  obtain ⟨third,read'',_⟩ := taken t tr ta plain plain' 2 same' (by decide)
  rw [elements_argument t tr ta plain plain'] at read read' read''
  refine ⟨_,rfl,?_⟩
  simp only [parseSpec,read,read',read'',Option.bind_eq_bind,Option.bind_some]
  rfl

end

private theorem recovered_parse (b : Buffers) (opt : Opt) (type transport target : Text) :
    Recovered b opt type transport target ↔
      ∃ s, parseSpec (b.spec opt) (argument type transport target) = some (some s) ∧
        s.typeText = some type ∧ s.transportText = some transport ∧ s.targetText = some target := by
  constructor
  · rintro ⟨b',parsed,texts⟩
    cases opt with
    | i =>
      obtain ⟨_,first,second⟩ := Option.map_eq_some_iff.mp parsed
      obtain ⟨s,rfl,rfl⟩ := Option.map_eq_some_iff.mp second
      exact ⟨s,first,texts⟩
    | p =>
      obtain ⟨_,first,second⟩ := Option.map_eq_some_iff.mp parsed
      obtain ⟨s,rfl,rfl⟩ := Option.map_eq_some_iff.mp second
      exact ⟨s,first,texts⟩
  · rintro ⟨s,parsed,texts⟩
    cases opt with
    | i =>
      rw [Buffers.spec] at parsed
      exact ⟨{ b with inv := s },by rw [parseOption,parsed]; rfl,texts⟩
    | p =>
      rw [Buffers.spec] at parsed
      exact ⟨{ b with pack := s },by rw [parseOption,parsed]; rfl,texts⟩

private theorem nul_blank {s : Text} (text : nul ∉ s) : nul ∉ s.map blank := by
  intro held
  obtain ⟨c,member,same⟩ := List.mem_map.mp held
  unfold blank at same
  split_ifs at same
  · exact absurd same (by decide)
  · exact text (same ▸ member)

private theorem blank_self_iff (c : Char) : blank c = c ↔ (isspace c = true → c = ' ') := by
  unfold blank
  split_ifs with space
  · simp only [space,true_implies]
    exact eq_comm
  · exact iff_of_true rfl fun white => absurd white space

/-- A name in its buffer, as it was or not. -/
private theorem kept_iff (m : Memory) {s : Text} (f : Fitting s) :
    textFrom (strncpy m (s.map blank) 32) 0 33 = some s ↔ (∀ c ∈ s, isspace c = true → c = ' ') ∧ Ends m s := by
  rw [strncpy_text m (by rw [List.length_map]; exact f.fits) (nul_blank f.text),map_blank_iff,Ends,Ends,List.length_map]
  simp only [blank_self_iff]

private theorem target_iff (m : Memory) {s : Text} (f : Fitting s) (solid : ∀ c ∈ s, isspace c = false) :
    textFrom (strncpy m ((s.takeWhile (· ≠ ':')).map blank) 32) 0 33 = some s ↔ ':' ∉ s ∧ Ends m s := by
  have front := List.takeWhile_prefix (l := s) fun c => decide (c ≠ ':')
  have same : (s.takeWhile (· ≠ ':')).map blank = s.takeWhile (· ≠ ':') :=
    (map_blank_iff _).mpr fun c held => if_neg (by simp [solid c (front.subset held)])
  rw [same,strncpy_text m (front.length_le.trans f.fits) fun held => f.text (front.subset held),
    List.takeWhile_eq_self_iff]
  have absent : (∀ c ∈ s, decide (c ≠ ':') = true) ↔ ':' ∉ s := by
    constructor
    · exact fun all held => by simpa using all ':' held
    · exact fun none c held => by simpa using fun colon : c = ':' => none (colon ▸ held)
  rw [absent]
  refine and_congr_right fun none => ?_
  rw [List.takeWhile_eq_self_iff.mpr (absent.mpr none)]

/-- The three names come back exactly when the target holds no colon, the others no white
space but blanks, and what fills its buffer finds a terminator behind it. -/
theorem recovered_iff (b : Buffers) (opt : Opt) (type transport target : Text) (t : Fitting type) (tr : Fitting transport)
    (ta : Fitting target) (plain : ':' ∉ type) (plain' : ':' ∉ transport) (solid : ∀ c ∈ target, isspace c = false) :
    Recovered b opt type transport target ↔
      ':' ∉ target ∧ (∀ c ∈ type ++ transport, isspace c = true → c = ' ') ∧
        Ends (b.spec opt).type type ∧ Ends (b.spec opt).transport transport ∧ Ends (b.spec opt).target target := by
  obtain ⟨next,made,parsed⟩ := parse_argument t tr ta plain plain' (b.spec opt)
  have texts : (next.typeText = some type ∧ next.transportText = some transport ∧ next.targetText = some target) ↔
      ':' ∉ target ∧ (∀ c ∈ type ++ transport, isspace c = true → c = ' ') ∧
        Ends (b.spec opt).type type ∧ Ends (b.spec opt).transport transport ∧ Ends (b.spec opt).target target := by
    subst made
    have first := kept_iff (b.spec opt).type t
    have second := kept_iff (b.spec opt).transport tr
    have third := target_iff (b.spec opt).target ta solid
    rw [Spec.typeText,Spec.transportText,Spec.targetText]
    simp only [moduleNameLen,targetLen,Nat.reduceAdd,first,second,third,List.forall_mem_append]
    constructor
    · rintro ⟨⟨white,ends⟩,⟨white',ends'⟩,colon,ends''⟩
      exact ⟨colon,⟨white,white'⟩,ends,ends',ends''⟩
    · rintro ⟨colon,⟨white,white'⟩,ends,ends',ends''⟩
      exact ⟨⟨white,ends⟩,⟨white',ends'⟩,colon,ends''⟩
  rw [recovered_parse,parsed,← texts]
  constructor
  · rintro ⟨s,again,kept⟩
    obtain ⟨_,_,again⟩ := Option.bind_eq_some_iff.mp again
    obtain ⟨_,_,again⟩ := Option.bind_eq_some_iff.mp again
    obtain ⟨_,_,again⟩ := Option.bind_eq_some_iff.mp again
    have same := Option.some.inj again
    split_ifs at same
    obtain rfl := Option.some.inj same
    exact kept
  · rintro ⟨first,second,third⟩
    refine ⟨next,?_,first,second,third⟩
    rw [first,second,third,Option.bind_some,Option.bind_some,Option.bind_some,if_neg]
    rintro (none | none | none)
    · exact t.filled none
    · exact tr.filled none
    · exact ta.filled none

/-- The stack as `init` leaves it before the options. -/
def cleared : Buffers := ⟨⟨fun _ => nul,fun _ => nul,fun _ => nul⟩,⟨fun _ => nul,fun _ => nul,fun _ => nul⟩⟩

theorem recovered_can : Recovered cleared .i "si".toList "can".toList "can0".toList ↔
    ':' ∉ "can0".toList ∧ (∀ c ∈ "si".toList ++ "can".toList, isspace c = true → c = ' ') ∧
      Ends (cleared.spec .i).type "si".toList ∧ Ends (cleared.spec .i).transport "can".toList ∧
      Ends (cleared.spec .i).target "can0".toList :=
  recovered_iff cleared .i _ _ _ (by decide) (by decide) (by decide) (by decide) (by decide)
    (List.all_iff_forall_prop.mp (by decide))

/-- Of a Bluetooth address only the first byte is left. -/
theorem address_lost : ¬ Recovered cleared .p "jbd".toList "bt".toList "A4:C1:38:00:11:22".toList := by
  rw [recovered_parse]
  rintro ⟨s,parsed,_,_,address⟩
  have read : ((parseSpec cleared.pack (argument "jbd".toList "bt".toList "A4:C1:38:00:11:22".toList)).bind
      fun s => s.bind Spec.targetText) = some "A4".toList := by decide +kernel
  rw [Buffers.spec] at parsed
  rw [parsed,Option.bind_some,Option.bind_some,address] at read
  exact absurd read (by decide)

end Mybmm.CommandSpec
