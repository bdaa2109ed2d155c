import Mathlib.Data.List.TakeWhile
import Mybmm.Strele

/-! `strele` with a delimiter of any length, against the splitting that it stands for: the
fields of a text are what is left between the delimiters outside of quotes. -/
namespace Mybmm.StreleFields
open CString Libc Strele

/-- The two cursors that compare the delimiter: where the texts part. -/
def advance : (cptr dptr : Text) → Text × Text
  | c :: cptr, d :: dptr => if c = d then advance cptr dptr else (c :: cptr,d :: dptr)
  | cptr, dptr => (cptr,dptr)

/-- What is behind a delimiter that starts with the character `c`, if one does. -/
def behindDelimiter (delimiter : Text) (c : Char) (src : Text) : Option Text :=
  match delimiter with
  | [] => none
  | d :: dptr =>
    if c = d then
      match advance src dptr with
      | (cptr,[]) => some cptr
      | _ => none
    else none

private theorem advance_shorter (cptr dptr : Text) : (advance cptr dptr).1.length ≤ cptr.length := by
  induction cptr generalizing dptr with
  | nil => rw [advance]; simp
  | cons c cptr ih =>
    cases dptr with
    | nil => exact le_rfl
    | cons d dptr =>
      rw [advance]
      split_ifs
      · exact (ih dptr).trans (Nat.le_succ _)
      · exact le_rfl

private theorem behind_shorter {delimiter src rest : Text} {c : Char} (found : behindDelimiter delimiter c src = some rest) :
    rest.length ≤ src.length := by
  unfold behindDelimiter at found
  split at found
  · cases found
  · rename_i d dptr
    split_ifs at found
    split at found
    · rename_i cptr ended
      obtain rfl := Option.some.inj found
      have shorter := advance_shorter src dptr
      rwa [ended] at shorter
    · cases found

/-- The loop over `src`, as far as it goes; with `ahead`, `eptr` has gone over a quote that
`src` has not come to. A delimiter is gone over whole. -/
def loop (num : Nat) (delimiter src : Text) (qc : Option Char) (count : Nat) (ahead : Bool) (element : Text) : Scan :=
  match src, qc with
  | [], _ => ⟨count,element,[]⟩
  | c :: src, some q =>
    (loop num delimiter src (if c = q then none else some q) count false (push ahead element c)).behind c
  | c :: src, none =>
    let qc := if isquote c then some c else none
    match _found : behindDelimiter delimiter (blank c) src with
    | some rest =>
      if count = num then ⟨count,element,blank c :: src⟩
      else
        let s := loop num delimiter rest qc (count + 1) (rest.head?.any isquote) []
        { s with string := blank c :: src.take (src.length - rest.length) ++ s.string }
    | none => (loop num delimiter src qc count false (push ahead element (blank c))).behind (blank c)
termination_by src.length
decreasing_by
  · exact Nat.lt_succ_self _
  · exact Nat.lt_succ_of_le (behind_shorter _found)
  · exact Nat.lt_succ_self _

/-- The element, in `return_info`, and the text as it is left. An element that does not fit
there is written behind it, which has no meaning. -/
def streleText (num : Nat) (delimiter string : Text) : Option (Text × Text) :=
  let s := loop num delimiter string none 0 false []
  let element := if s.count = num then cut s.element else []
  if element.length < 1024 then some (element,s.string) else none

/-! The fields. -/

/-- The text up to the first delimiter, and what stands between the others. -/
def split (delimiter : Text) (qc : Option Char) (src : Text) : Text × List Text :=
  match src, qc with
  | [], _ => ([],[])
  | c :: src, some q =>
    let (f,fs) := split delimiter (if c = q then none else some q) src
    (c :: f,fs)
  | c :: src, none =>
    if delimiter.isPrefixOf (c :: src) then
      let (f,fs) := split delimiter none (src.drop (delimiter.length - 1))
      ([],f :: fs)
    else
      let (f,fs) := split delimiter (if isquote c then some c else none) src
      (c :: f,fs)
termination_by src.length
decreasing_by
  · exact Nat.lt_succ_self _
  · exact Nat.lt_succ_of_le (by rw [List.length_drop]; exact Nat.sub_le _ _)
  · exact Nat.lt_succ_self _

def fieldsOf (delimiter string : Text) : List Text :=
  let (f,fs) := split delimiter none string
  f :: fs

/-- A field is read with its white space as blanks, and between its quotes when it starts
with one. -/
def reading : Text → Text
  | [] => []
  | c :: f => if isquote c then (f.takeWhile (· ≠ c)).map blank else (c :: f).map blank

/-- The loop's own reading: white space within quotes is left alone. -/
def soften : Option Char → Text → Text
  | _, [] => []
  | some q, c :: f => c :: soften (if c = q then none else some q) f
  | none, c :: f => blank c :: soften (if isquote c then some c else none) f

private theorem advance_eq (cptr dptr : Text) :
    advance cptr dptr = (cptr.drop dptr.length,[]) ∧ dptr.isPrefixOf cptr = true ∨
      (advance cptr dptr).2 ≠ [] ∧ dptr.isPrefixOf cptr = false := by
  induction cptr generalizing dptr with
  | nil =>
    cases dptr with
    | nil => exact Or.inl ⟨rfl,rfl⟩
    | cons d dptr => exact Or.inr ⟨List.cons_ne_nil d dptr,rfl⟩
  | cons c cptr ih =>
    cases dptr with
    | nil => exact Or.inl ⟨rfl,rfl⟩
    | cons d dptr =>
      by_cases same : c = d
      · subst same
        have prefixes : (c :: dptr).isPrefixOf (c :: cptr) = dptr.isPrefixOf cptr := by simp [List.isPrefixOf]
        rw [advance,if_pos rfl,prefixes]
        exact ih dptr
      · refine Or.inr ⟨by rw [advance,if_neg same]; exact List.cons_ne_nil d dptr,?_⟩
        simp [List.isPrefixOf,Ne.symm same]

private theorem behind_eq {delimiter : Text} (filled : delimiter ≠ []) (c : Char) (src : Text) :
    behindDelimiter delimiter c src =
      if delimiter.isPrefixOf (c :: src) then some (src.drop (delimiter.length - 1)) else none := by
  cases delimiter with
  | nil => exact absurd rfl filled
  | cons d dptr =>
    rw [behindDelimiter]
    by_cases same : c = d
    · subst same
      have prefixes : (c :: dptr).isPrefixOf (c :: src) = dptr.isPrefixOf src := by simp [List.isPrefixOf]
      rw [if_pos rfl,prefixes]
      rcases advance_eq src dptr with ⟨ended,hit⟩ | ⟨parted,miss⟩
      · rw [ended,if_pos hit]
        rfl
      · rw [if_neg (by simp [miss])]
        split
        · rename_i cptr ended
          rw [ended] at parted
          exact absurd rfl parted
        · rfl
    · rw [if_neg same,if_neg]
      simp [List.isPrefixOf,Ne.symm same]

/-- A delimiter that is no quote and no white space, throughout. -/
def Plain (delimiter : Text) : Prop := ∀ c ∈ delimiter, isquote c = false ∧ isspace c = false

instance (delimiter : Text) : Decidable (Plain delimiter) := List.decidableBAll _ delimiter

private theorem prefix_blank {delimiter : Text} (plain : Plain delimiter) (filled : delimiter ≠ []) (c : Char) (src : Text) :
    delimiter.isPrefixOf (blank c :: src) = delimiter.isPrefixOf (c :: src) := by
  cases delimiter with
  | nil => exact absurd rfl filled
  | cons d dptr =>
    have solid := (plain d (by simp)).2
    by_cases space : isspace c = true
    · have first : d ≠ c := fun same => by rw [same,space] at solid; exact absurd solid Bool.noConfusion
      have second : d ≠ ' ' := fun same => by rw [same] at solid; exact absurd solid (by decide)
      rw [blank,if_pos space,List.isPrefixOf_cons_cons,List.isPrefixOf_cons_cons,beq_false_of_ne first,
        beq_false_of_ne second]
    · rw [blank,if_neg space]

private theorem prefix_unquoted {delimiter : Text} (plain : Plain delimiter) (filled : delimiter ≠ []) {c : Char}
    {src : Text}
    (here : delimiter.isPrefixOf (c :: src) = true) : isquote c = false := by
  cases delimiter with
  | nil => exact absurd rfl filled
  | cons d dptr =>
    have same : d = c := by
      rw [List.isPrefixOf_cons_cons,Bool.and_eq_true,beq_iff_eq] at here
      exact here.1
    rw [← same]
    exact (plain d (by simp)).1

private theorem split_quoted (delimiter src : Text) (c q : Char) : split delimiter (some q) (c :: src) =
    (c :: (split delimiter (if c = q then none else some q) src).1,
      (split delimiter (if c = q then none else some q) src).2) := by
  rw [split]

private theorem split_delimiter {delimiter src : Text} {c : Char} (here : delimiter.isPrefixOf (c :: src) = true) :
    split delimiter none (c :: src) = ([],(split delimiter none (src.drop (delimiter.length - 1))).1 ::
      (split delimiter none (src.drop (delimiter.length - 1))).2) := by
  rw [split,if_pos here]

private theorem split_other {delimiter src : Text} {c : Char} (other : delimiter.isPrefixOf (c :: src) = false) :
    split delimiter none (c :: src) = (c :: (split delimiter (if isquote c then some c else none) src).1,
      (split delimiter (if isquote c then some c else none) src).2) := by
  rw [split,if_neg (by simp [other])]

private theorem softened (f : Text) : (if f.head?.any isquote = true then (soften none f).tail else soften none f) =
    opened (soften none f) := by
  cases f with
  | nil => rfl
  | cons c f =>
    simp only [opened,soften,List.head?_cons,Option.any_some,isquote_blank]
    rfl

section
variable (num : Nat) {delimiter : Text} (plain : Plain delimiter) (filled : delimiter ≠ [])
include plain filled

private theorem loop_delimiter {src : Text} {c : Char} (here : delimiter.isPrefixOf (c :: src) = true) (count : Nat)
    (ahead : Bool)
    (element : Text) : ∃ string, loop num delimiter (c :: src) none count ahead element =
      if count = num then ⟨count,element,string⟩
      else { loop num delimiter (src.drop (delimiter.length - 1)) none (count + 1)
        ((src.drop (delimiter.length - 1)).head?.any isquote) [] with string := string } := by
  have found : behindDelimiter delimiter (blank c) src = some (src.drop (delimiter.length - 1)) := by
    rw [behind_eq filled,prefix_blank plain filled,if_pos here]
  have unquoted := prefix_unquoted plain filled here
  rw [loop]
  split
  · rename_i rest again
    obtain rfl := Option.some.inj (again.symm.trans found)
    simp only [unquoted,Bool.false_eq_true,if_false]
    split_ifs
    · exact ⟨_,rfl⟩
    · exact ⟨_,rfl⟩
  · rename_i again
    exact absurd (again.symm.trans found) (by simp)

private theorem loop_other {src : Text} {c : Char} (other : delimiter.isPrefixOf (c :: src) = false) (count : Nat)
    (ahead : Bool)
    (element : Text) : loop num delimiter (c :: src) none count ahead element =
      (loop num delimiter src (if isquote c then some c else none) count false (push ahead element (blank c))).behind
        (blank c) := by
  have none : behindDelimiter delimiter (blank c) src = none := by
    rw [behind_eq filled,prefix_blank plain filled,if_neg (by simp [other])]
  rw [loop]
  split
  · rename_i rest again
    exact absurd (again.symm.trans none) (by simp)
  · rfl

private theorem split_quote (src : Text) : (split delimiter none src).1.head?.any isquote = src.head?.any isquote := by
  cases src with
  | nil => rw [split]
  | cons c src =>
    cases here : delimiter.isPrefixOf (c :: src) with
    | true =>
      rw [split_delimiter here,List.head?_cons,Option.any_some,prefix_unquoted plain filled here]
      rfl
    | false => rw [split_other here,List.head?_cons,List.head?_cons]

/-- The loop counts the fields as far as it goes, and is left with the one it comes to. -/
private theorem loop_eq (src : Text) (qc : Option Char) (count : Nat) (ahead : Bool) (element : Text) (bound : count ≤ num) :
    (loop num delimiter src qc count ahead element).count = min num (count + (split delimiter qc src).2.length) ∧
      ((loop num delimiter src qc count ahead element).count = num →
        (loop num delimiter src qc count ahead element).element =
          match num - count with
          | 0 => element ++ if ahead then (soften qc (split delimiter qc src).1).tail else soften qc (split delimiter qc src).1
          | k + 1 => opened (soften none ((split delimiter qc src).2[k]?.getD []))) := by
  induction size : src.length using Nat.strong_induction_on generalizing src qc count ahead element with
  | _ n ih =>
    cases src with
    | nil =>
      rw [loop,split]
      refine ⟨by simp only [List.length_nil]; omega,fun last => ?_⟩
      have same : num - count = 0 := by
        simp only at last
        omega
      rw [same]
      cases ahead <;> simp [soften]
    | cons c src =>
      have shorter : src.length < n := by rw [← size]; exact Nat.lt_succ_self _
      cases qc with
      | some q =>
        rw [loop,split_quoted]
        obtain ⟨counted,found⟩ := ih src.length shorter src (if c = q then none else some q) count false
          (push ahead element c) bound rfl
        refine ⟨counted,fun last => (found last).trans ?_⟩
        cases num - count with
        | zero => cases ahead <;> simp [push,soften]
        | succ k => rfl
      | none =>
        cases here : delimiter.isPrefixOf (c :: src) with
        | true =>
          obtain ⟨string,turn⟩ := loop_delimiter num plain filled here count ahead element
          rw [turn,split_delimiter here]
          by_cases last : count = num
          · rw [if_pos last]
            refine ⟨by simp only; omega,fun _ => ?_⟩
            rw [last,Nat.sub_self]
            cases ahead <;> simp [soften]
          · have less : (src.drop (delimiter.length - 1)).length < n := by
              rw [List.length_drop]
              omega
            obtain ⟨counted,found⟩ := ih _ less (src.drop (delimiter.length - 1)) none (count + 1)
              ((src.drop (delimiter.length - 1)).head?.any isquote) [] (by omega) rfl
            rw [if_neg last]
            refine ⟨?_,fun reached => (found reached).trans ?_⟩
            · rw [List.length_cons,← Nat.add_assoc,Nat.add_right_comm]
              exact counted
            · obtain ⟨k,left⟩ : ∃ k, num - count = k + 1 := ⟨num - count - 1,by omega⟩
              rw [left,show num - (count + 1) = k by omega]
              cases k with
              | zero =>
                rw [← split_quote plain filled,List.nil_append]
                exact softened _
              | succ k => rfl
        | false =>
          rw [loop_other num plain filled here,split_other here]
          obtain ⟨counted,found⟩ := ih src.length shorter src (if isquote c then some c else none) count false
            (push ahead element (blank c)) bound rfl
          refine ⟨counted,fun last => (found last).trans ?_⟩
          cases num - count with
          | zero => cases ahead <;> simp [push,soften]
          | succ k => rfl

end

/-- What the loop makes of a field: it stops at the first quote, an opening one included in
the first field. -/
def element (num : Nat) (f : Text) : Text := if num = 0 then cut (soften none f) else cut (opened (soften none f))

private theorem streleText_eq (num : Nat) {delimiter : Text} (plain : Plain delimiter) (filled : delimiter ≠ [])
    (string : Text) :
    ∃ left, streleText num delimiter string =
      if (((fieldsOf delimiter string)[num]?.map (element num)).getD []).length < 1024 then
        some (((fieldsOf delimiter string)[num]?.map (element num)).getD [],left) else none := by
  obtain ⟨counted,found⟩ := loop_eq num plain filled string none 0 false [] (Nat.zero_le num)
  refine ⟨(loop num delimiter string none 0 false []).string,?_⟩
  have same : (if (loop num delimiter string none 0 false []).count = num then
      cut (loop num delimiter string none 0 false []).element else []) =
        ((fieldsOf delimiter string)[num]?.map (element num)).getD [] := by
    by_cases reached : (loop num delimiter string none 0 false []).count = num
    · rw [if_pos reached,found reached]
      cases num with
      | zero => rfl
      | succ k =>
        have inside : k < (split delimiter none string).2.length := by omega
        simp [fieldsOf,element,inside]
    · have outside : (split delimiter none string).2.length + 1 ≤ num := by omega
      rw [if_neg reached,List.getElem?_eq_none (by simpa [fieldsOf] using outside)]
      rfl
  simp only [streleText,same]

private theorem cut_soften (f : Text) : cut (soften none f) = (cut f).map blank := by
  induction f with
  | nil => rfl
  | cons c f ih =>
    rw [soften,cut,cut,List.takeWhile_cons,List.takeWhile_cons,isquote_blank]
    cases quote : isquote c with
    | true => rfl
    | false => exact congrArg (blank c :: ·) ih

private theorem cut_quoted {q : Char} (quote : isquote q = true) (f : Text) : cut (soften (some q) f) = cut f := by
  induction f with
  | nil => rfl
  | cons c f ih =>
    rw [soften,cut,cut,List.takeWhile_cons,List.takeWhile_cons]
    cases stop : isquote c with
    | true => rfl
    | false =>
      have other : c ≠ q := fun same => by rw [same,quote] at stop; exact absurd stop.symm Bool.noConfusion
      rw [if_neg other]
      exact congrArg (c :: ·) ih

private theorem cut_between {q : Char} (quote : isquote q = true) (f : Text) : cut (f.takeWhile (· ≠ q)) = cut f := by
  induction f with
  | nil => rfl
  | cons c f ih =>
    by_cases same : c = q
    · subst same
      simp [cut,quote]
    · rw [List.takeWhile_cons,if_pos (by simpa using same),cut,cut,List.takeWhile_cons,List.takeWhile_cons]
      exact congrArg (fun rest => if (!isquote c) = true then c :: rest else []) ih

theorem cut_self_iff (f : Text) : cut f = f ↔ ∀ c ∈ f, isquote c = false := by
  rw [cut,List.takeWhile_eq_self_iff]
  simp only [Bool.not_eq_true']

theorem map_blank_iff (f : Text) : f.map blank = f ↔ ∀ c ∈ f, blank c = c := by
  have pointwise := List.map_inj_left (l := f) (f := blank) (g := id)
  rwa [List.map_id] at pointwise

/-- A text that is cut to a text of its own length was not cut. -/
private theorem cut_whole {f g : Text} (same : cut f = g) (size : g.length = f.length) : cut f = f :=
  (List.takeWhile_prefix _).eq_of_length (by rw [← size,← same,cut])

/-- The fields that are read as they should be. -/
def Sound (num : Nat) : Text → Prop
  | [] => True
  | c :: f =>
    if isquote c then
      if num = 0 then f.takeWhile (· ≠ c) = []
      else ∀ d ∈ f.takeWhile (· ≠ c), isquote d = false ∧ blank d = d
    else ∀ d ∈ c :: f, isquote d = false

private theorem element_eq_iff (num : Nat) (f : Text) : element num f = reading f ↔ Sound num f := by
  cases f with
  | nil => exact iff_of_true (by cases num <;> rfl) trivial
  | cons c f =>
    cases quote : isquote c with
    | false =>
      have head : element num (c :: f) = (cut (c :: f)).map blank := by
        have plain : opened (soften none (c :: f)) = soften none (c :: f) := by
          rw [soften,opened,List.head?_cons,Option.any_some,isquote_blank,quote]
          rfl
        rw [element,plain,ite_self,cut_soften]
      rw [head,reading,Sound,quote,if_neg Bool.false_ne_true,if_neg Bool.false_ne_true,← cut_self_iff]
      constructor
      · intro same
        have size := congrArg List.length same
        rw [List.length_map,List.length_map] at size
        exact cut_whole rfl size
      · exact congrArg (List.map blank)
    | true =>
      rw [reading,Sound,quote,if_pos rfl,if_pos rfl]
      by_cases first : num = 0
      · have none : element num (c :: f) = [] := by
          rw [element,if_pos first,soften,cut,List.takeWhile_cons,isquote_blank,quote]
          rfl
        rw [none,if_pos first,eq_comm,List.map_eq_nil_iff]
      · have between : element num (c :: f) = cut (f.takeWhile (· ≠ c)) := by
          rw [element,if_neg first,soften,opened,List.head?_cons,Option.any_some,isquote_blank,quote,if_pos rfl,
            List.tail_cons,if_pos rfl,cut_quoted quote,cut_between quote]
        rw [between,if_neg first]
        constructor
        · intro same
          have whole := cut_whole same (List.length_map _)
          rw [whole] at same
          have plain := (cut_self_iff _).mp whole
          exact fun d held => ⟨plain d held,((map_blank_iff _).mp same.symm d held)⟩
        · intro sound
          rw [(cut_self_iff _).mpr fun d held => (sound d held).1]
          exact ((map_blank_iff _).mpr fun d held => (sound d held).2).symm

private theorem soften_length (qc : Option Char) (f : Text) : (soften qc f).length = f.length := by
  induction f generalizing qc with
  | nil => cases qc <;> rfl
  | cons c f ih =>
    cases qc with
    | none => rw [soften,List.length_cons,List.length_cons,ih]
    | some q => rw [soften,List.length_cons,List.length_cons,ih]

private theorem element_short (num : Nat) (f : Text) : (element num f).length ≤ f.length := by
  have shorter (g : Text) : (cut g).length ≤ g.length := (List.takeWhile_prefix _).length_le
  have opening (g : Text) : (opened g).length ≤ g.length := by
    unfold opened
    split
    · exact List.length_tail ▸ Nat.sub_le _ _
    · exact le_rfl
  rw [← soften_length none f]
  unfold element
  split
  · exact shorter _
  · exact (shorter _).trans (opening _)

/-- An element is its field exactly when that is sound. -/
theorem strele_reads_iff (num : Nat) (delimiter : Text) (filled : delimiter ≠ []) (plain : Plain delimiter) (string : Text)
    (short : ∀ f ∈ fieldsOf delimiter string, f.length < 1024) :
    (streleText num delimiter string).map Prod.fst =
        some (((fieldsOf delimiter string)[num]?.map reading).getD []) ↔
      ∀ f ∈ (fieldsOf delimiter string)[num]?, Sound num f := by
  obtain ⟨left,taken⟩ := streleText_eq num plain filled string
  rw [taken]
  cases field : (fieldsOf delimiter string)[num]? with
  | none => simp
  | some f =>
    have fits : (element num f).length < 1024 :=
      lt_of_le_of_lt (element_short num f) (short f (List.mem_of_getElem? field))
    simp only [Option.map_some,Option.getD_some,if_pos fits,Option.some.injEq,Option.mem_def,forall_eq',element_eq_iff]

theorem strele_reads_second : (streleText 1 "::".toList "ab::c d::".toList).map Prod.fst =
      some (((fieldsOf "::".toList "ab::c d::".toList)[1]?.map reading).getD []) ↔
    ∀ f ∈ (fieldsOf "::".toList "ab::c d::".toList)[1]?, Sound 1 f :=
  strele_reads_iff 1 _ (by decide) (by decide) _ (by decide +kernel)

/-- The first field loses what is between its quotes, and a later one what is behind a
quote of the other kind. -/
theorem quotes_lost : ¬ (streleText 0 ",".toList "'a b',c".toList).map Prod.fst =
      some (((fieldsOf ",".toList "'a b',c".toList)[0]?.map reading).getD []) ∧
    ¬ (streleText 1 ",".toList "c,\"it's\"".toList).map Prod.fst =
      some (((fieldsOf ",".toList "c,\"it's\"".toList)[1]?.map reading).getD []) := by
  constructor <;> decide +kernel

/-- With a delimiter of one character this is the loop over single characters. -/
private theorem loop_one (num : Nat) (d : Char) (src : Text) (qc : Option Char) (count : Nat) (ahead : Bool)
    (element : Text) :
    loop num [d] src qc count ahead element = scan num d src qc count ahead element := by
  induction src generalizing qc count ahead element with
  | nil => rw [loop,scan]
  | cons c src ih =>
    cases qc with
    | some q => rw [loop,scan,ih]
    | none =>
      have step : behindDelimiter [d] (blank c) src = if blank c = d then some src else none := by
        rw [behindDelimiter]
        cases src <;> rfl
      rw [loop,scan]
      split
      · rename_i rest found
        rw [step] at found
        split_ifs at found with here
        obtain rfl := Option.some.inj found
        rw [if_pos here]
        by_cases last : count = num
        · rw [if_pos last,if_pos last]
        · simp only [if_neg last,ih,Nat.sub_self]
          rfl
      · rename_i miss
        rw [step] at miss
        split_ifs at miss with here
        rw [if_neg here,ih]

theorem streleText_one (num : Nat) (d : Char) (string : Text) (fits : (strele num d string).1.length < 1024) :
    streleText num [d] string = some (strele num d string) := by
  simp only [streleText,loop_one]
  exact if_pos fits

end Mybmm.StreleFields
