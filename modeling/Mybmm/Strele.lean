import Mybmm.Support.Libc

/-! `strele` of utils.c: an element of a text, by its number. Delimiters inside quotes do
not count, and the text is changed on the way: white space outside of quotes becomes
blanks. Every caller passes a delimiter of one character. -/
namespace Mybmm.Strele
open CString Libc

def isquote (c : Char) : Bool := c = '"' || c = '\''

def blank (c : Char) : Char := if isspace c then ' ' else c

/-- Where the loop ends: the elements passed, the characters from `eptr` to `src`, and
the text as it is then. -/
structure Scan where
  count : Nat
  element : Text
  string : Text

def Scan.behind (c : Char) (s : Scan) : Scan := { s with string := c :: s.string }

def push (ahead : Bool) (element : Text) (c : Char) : Text := if ahead then element else element ++ [c]

/-- The loop over `src`; with `ahead`, `eptr` has gone over a quote that `src` has not
come to. -/
def scan (num : Nat) (delimiter : Char) : (src : Text) → (qc : Option Char) → (count : Nat) → (ahead : Bool) →
    (element : Text) → Scan
  | [], _, count, _, element => ⟨count,element,[]⟩
  | c :: src, some q, count, ahead, element =>
    (scan num delimiter src (if c = q then none else some q) count false (push ahead element c)).behind c
  | c :: src, none, count, ahead, element =>
    let qc := if isquote c then some c else none
    if blank c = delimiter then
      if count = num then ⟨count,element,blank c :: src⟩
      else (scan num delimiter src qc (count + 1) (src.head?.any isquote) []).behind (blank c)
    else (scan num delimiter src qc count false (push ahead element (blank c))).behind (blank c)

def cut (element : Text) : Text := element.takeWhile fun c => !isquote c

def strele (num : Nat) (delimiter : Char) (string : Text) : Text × Text :=
  let s := scan num delimiter string none 0 false []
  (if s.count = num then cut s.element else [],s.string)

/-! The elements of a text, all of them at once. -/

/-- The text up to the first delimiter, and what stands between the others. -/
def fields (delimiter : Char) : Text → (qc : Option Char) → Text × List Text
  | [], _ => ([],[])
  | c :: src, some q =>
    let (f,fs) := fields delimiter src (if c = q then none else some q)
    (c :: f,fs)
  | c :: src, none =>
    let (f,fs) := fields delimiter src (if isquote c then some c else none)
    if blank c = delimiter then ([],f :: fs) else (blank c :: f,fs)

/-- An opening quote is left out, but not at the start of the text. -/
def opened (f : Text) : Text := if f.head?.any isquote then f.tail else f

def elements (delimiter : Char) (string : Text) : List Text :=
  let (f,fs) := fields delimiter string none
  cut f :: fs.map fun f => cut (opened f)

private theorem blank_blank (c : Char) : blank (blank c) = blank c := by
  unfold blank
  by_cases space : isspace c = true
  · rw [if_pos space]
    rfl
  · rw [if_neg space,if_neg space]

private theorem blank_quote {c : Char} (quote : isquote c = true) : blank c = c := by
  simp only [isquote,Bool.or_eq_true,decide_eq_true_eq] at quote
  rcases quote with rfl | rfl <;> rfl

theorem isquote_blank (c : Char) : isquote (blank c) = isquote c := by
  cases quote : isquote c with
  | true => rw [blank_quote quote,quote]
  | false =>
    unfold blank
    split
    · rfl
    · exact quote

private theorem opens_blank (c : Char) :
    (if isquote (blank c) then some (blank c) else none) = if isquote c then some c else none := by
  rw [isquote_blank]
  cases quote : isquote c with
  | true => rw [blank_quote quote]
  | false => rfl

private theorem fields_quoted (delimiter c q : Char) (src : Text) : fields delimiter (c :: src) (some q) =
    (c :: (fields delimiter src (if c = q then none else some q)).1,
      (fields delimiter src (if c = q then none else some q)).2) := rfl

theorem fields_delimiter {delimiter c : Char} (src : Text) (here : blank c = delimiter) :
    fields delimiter (c :: src) none =
      ([],(fields delimiter src (if isquote c then some c else none)).1 ::
        (fields delimiter src (if isquote c then some c else none)).2) := if_pos here

theorem fields_other {delimiter c : Char} (src : Text) (other : blank c ≠ delimiter) :
    fields delimiter (c :: src) none =
      (blank c :: (fields delimiter src (if isquote c then some c else none)).1,
        (fields delimiter src (if isquote c then some c else none)).2) := if_neg other

private theorem fields_quote {delimiter : Char} (plain : isquote delimiter = false) (src : Text) :
    (fields delimiter src none).1.head?.any isquote = src.head?.any isquote := by
  cases src with
  | nil => rfl
  | cons c src =>
    by_cases here : blank c = delimiter
    · rw [fields_delimiter src here,List.head?_cons,Option.any_some,← isquote_blank c,here,plain]
      rfl
    · rw [fields_other src here,List.head?_cons,List.head?_cons,Option.any_some,Option.any_some,isquote_blank]

theorem scan_eq {delimiter : Char} (plain : isquote delimiter = false) (num : Nat) (src : Text) (qc : Option Char)
    (count : Nat) (ahead : Bool) (element : Text) (bound : count ≤ num) :
    (scan num delimiter src qc count ahead element).count = min num (count + (fields delimiter src qc).2.length) ∧
      ((scan num delimiter src qc count ahead element).count = num →
        (scan num delimiter src qc count ahead element).element =
          match num - count with
          | 0 => element ++ if ahead then (fields delimiter src qc).1.tail else (fields delimiter src qc).1
          | k + 1 => opened ((fields delimiter src qc).2[k]?.getD [])) := by
  induction src generalizing qc count ahead element with
  | nil =>
    refine ⟨by simp only [scan,fields,List.length_nil]; omega,fun last => ?_⟩
    have same : num - count = 0 := by
      simp only [scan] at last
      omega
    rw [same]
    cases ahead <;> simp [scan,fields]
  | cons c src ih =>
    cases qc with
    | some q =>
      rw [scan,fields_quoted]
      obtain ⟨counted,found⟩ := ih (if c = q then none else some q) count false (push ahead element c) bound
      refine ⟨counted,fun last => (found last).trans ?_⟩
      cases num - count with
      | zero => cases ahead <;> simp [push]
      | succ k => rfl
    | none =>
      by_cases here : blank c = delimiter
      · have only : isquote c = false := by rw [← isquote_blank,here,plain]
        rw [scan,fields_delimiter src here,only]
        simp only [Bool.false_eq_true,if_false,if_pos here]
        by_cases last : count = num
        · rw [if_pos last]
          refine ⟨by simp only; omega,fun _ => ?_⟩
          rw [last,Nat.sub_self]
          cases ahead <;> simp
        · rw [if_neg last]
          obtain ⟨counted,found⟩ := ih none (count + 1) (src.head?.any isquote) [] (by omega)
          refine ⟨?_,fun reached => (found reached).trans ?_⟩
          · rw [List.length_cons,← Nat.add_assoc,Nat.add_right_comm]
            exact counted
          · obtain ⟨k,left⟩ : ∃ k, num - count = k + 1 := ⟨num - count - 1,by omega⟩
            rw [left,show num - (count + 1) = k by omega]
            cases k with
            | zero => simp only [List.getElem?_cons_zero,Option.getD_some,opened,fields_quote plain,List.nil_append]
            | succ k => rfl
      · rw [scan,fields_other src here]
        simp only [if_neg here]
        obtain ⟨counted,found⟩ := ih (if isquote c then some c else none) count false (push ahead element (blank c)) bound
        refine ⟨counted,fun last => (found last).trans ?_⟩
        cases num - count with
        | zero => cases ahead <;> simp [push]
        | succ k => rfl

theorem strele_element {delimiter : Char} (plain : isquote delimiter = false) (num : Nat) (string : Text) :
    (strele num delimiter string).1 = (elements delimiter string)[num]?.getD [] := by
  obtain ⟨counted,found⟩ := scan_eq plain num string none 0 false [] (Nat.zero_le num)
  simp only [strele,elements]
  by_cases reached : (scan num delimiter string none 0 false []).count = num
  · rw [if_pos reached,found reached]
    cases num with
    | zero => rfl
    | succ k =>
      have inside : k < (fields delimiter string none).2.length := by omega
      simp [inside]
  · rw [if_neg reached]
    have outside : (fields delimiter string none).2.length + 1 ≤ num := by omega
    rw [List.getElem?_eq_none (by simpa using outside)]
    rfl

private theorem scan_string (num : Nat) (delimiter : Char) (src : Text) (qc : Option Char) (count : Nat) (ahead : Bool)
    (element : Text) : fields delimiter (scan num delimiter src qc count ahead element).string qc =
      fields delimiter src qc := by
  induction src generalizing qc count ahead element with
  | nil => rfl
  | cons c src ih =>
    cases qc with
    | some q => rw [scan,Scan.behind,fields_quoted,fields_quoted,ih]
    | none =>
      rw [scan]
      by_cases here : blank c = delimiter
      · have again : blank (blank c) = delimiter := by rw [blank_blank,here]
        simp only [if_pos here]
        rw [fields_delimiter src here]
        by_cases last : count = num
        · rw [if_pos last,fields_delimiter src again,opens_blank]
        · rw [if_neg last,Scan.behind,fields_delimiter _ again,opens_blank,ih]
      · have again : blank (blank c) ≠ delimiter := by rw [blank_blank]; exact here
        simp only [if_neg here]
        rw [fields_other src here,Scan.behind,fields_other _ again,opens_blank,blank_blank,ih]

theorem strele_string (num : Nat) (delimiter : Char) (string : Text) :
    elements delimiter (strele num delimiter string).2 = elements delimiter string := by
  rw [elements,elements,strele,scan_string]

end Mybmm.Strele
