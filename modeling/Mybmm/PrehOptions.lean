import Mybmm.Preh
import Mybmm.Strele

/-! The list of CMUs that `preh_new` reads out of the options of a pack. The loop goes one
element further than the array, and the numbers are taken as they come. -/
namespace Mybmm.PrehOptions
open CString Libc Strele Preh

/-- `cmus[ncmu++] = cmu`, when the array goes that far. -/
def storeCmu (info : PrehInfo) (cmu : Int) : Option PrehInfo :=
  if inside : info.cmus.length < 15 then
    some { cmus := info.cmus ++ [cmu], room := by rw [List.length_append]; exact inside }
  else none

def storeCmus : (left i : Nat) → (opts : Text) → PrehInfo → Option PrehInfo
  | 0, _, _, info => some info
  | left + 1, i, opts, info =>
    let (p,opts) := strele i ',' opts
    if p = [] then some info else (storeCmu info (atoi p)).bind (storeCmus left (i + 1) opts)

def noCmus : PrehInfo where
  cmus := []
  room := by decide

def prehNewCmus (opts : Text) : Option PrehInfo := storeCmus 16 0 opts noCmus

/-- What `preh_read` adds the number of a CMU to. -/
def groups : List Int := [0x100,0x170,0x120,0x130,0x140,0x150,0x160]

/-- An identifier has a message of its own, and no other CMU has it for another frame:
none of the list, and none of the sixteen that the identifiers have room for. -/
structure Distinct (cmus : List Int) (c g : Int) : Prop where
  index : 0 ≤ g + c - 0x100 ∧ g + c - 0x100 ≤ 255
  apart : ∀ c' g', c' ∈ cmus ∨ 0 ≤ c' ∧ c' < 16 → c' ≠ c → g' ∈ groups → g' ≠ g → g + c ≠ g' + c'

def SafeList (opts : Text) : Prop :=
  ∃ info, prehNewCmus opts = some info ∧ ∀ c ∈ info.cmus, ∀ g ∈ groups, Distinct info.cmus c g

/-! The loop. -/

/-- The elements up to the first that is empty. -/
def leading (es : List Text) : List Text := es.takeWhile fun e => decide (e ≠ [])

private theorem leading_some {e : Text} (es : List Text) (some : e ≠ []) : leading (e :: es) = e :: leading es := by
  simp [leading,some]

private theorem leading_empty (es : List Text) : leading ([] :: es) = [] := rfl

private theorem leading_drop {es : List Text} {i : Nat} {e : Text} (here : es[i]? = some e) (some : e ≠ []) :
    leading (es.drop i) = e :: leading (es.drop (i + 1)) := by
  obtain ⟨inside,rfl⟩ := List.getElem?_eq_some_iff.mp here
  rw [List.drop_eq_getElem_cons inside,leading_some _ some]

private theorem leading_ends {es : List Text} {i : Nat} (none : es[i]?.getD [] = []) : leading (es.drop i) = [] := by
  cases here : es[i]? with
  | none =>
    rw [List.drop_eq_nil_of_le (List.getElem?_eq_none_iff.mp here)]
    rfl
  | some e =>
    obtain ⟨inside,rfl⟩ := List.getElem?_eq_some_iff.mp here
    have empty : es[i] = [] := by simpa [here] using none
    rw [List.drop_eq_getElem_cons inside,empty,leading_empty]

private theorem storeCmus_eq (left i : Nat) (opts : Text) (info : PrehInfo) (sixteen : left + i = 16)
    (stored : info.cmus.length = i) :
    (storeCmus left i opts info).map PrehInfo.cmus =
      if i + (leading ((elements ',' opts).drop i)).length ≤ 15 then
        some (info.cmus ++ (leading ((elements ',' opts).drop i)).map atoi)
      else none := by
  induction left generalizing i opts info with
  | zero =>
    have room := info.room
    omega
  | succ left ih =>
    have element := strele_element (by decide : isquote ',' = false) i opts
    rw [storeCmus]
    simp only
    by_cases empty : (strele i ',' opts).1 = []
    · have room := info.room
      rw [if_pos empty,leading_ends (element.symm.trans empty),List.length_nil,if_pos (by omega),List.map_nil,
        List.append_nil]
      rfl
    · obtain ⟨e,here⟩ : ∃ e, (elements ',' opts)[i]? = some e := by
        cases here : (elements ',' opts)[i]? with
        | none =>
          rw [here] at element
          exact absurd element empty
        | some e => exact ⟨e,rfl⟩
      have same : (strele i ',' opts).1 = e := by rw [element,here,Option.getD_some]
      rw [if_neg empty,same,leading_drop here (by rw [← same]; exact empty),List.length_cons,List.map_cons]
      by_cases inside : info.cmus.length < 15
      · rw [storeCmu,dif_pos inside,Option.bind_some,
          ih (i + 1) (strele i ',' opts).2 _ (by omega) (by simp [stored]),strele_string]
        simp only [List.append_assoc,List.singleton_append,Nat.add_assoc,Nat.add_comm 1]
      · rw [storeCmu,dif_neg inside,if_neg (by omega)]
        rfl

private theorem prehNewCmus_eq (opts : Text) : (prehNewCmus opts).map PrehInfo.cmus =
    if (leading (elements ',' opts)).length ≤ 15 then some ((leading (elements ',' opts)).map atoi) else none := by
  have run := storeCmus_eq 16 0 opts noCmus rfl rfl
  rw [List.drop_zero,Nat.zero_add] at run
  exact run

/-! The numbers. -/

private theorem group_bounds {g : Int} (group : g ∈ groups) : 0x100 ≤ g ∧ g ≤ 0x170 ∧ g % 16 = 0 := by
  simp only [groups,List.mem_cons,List.not_mem_nil,or_false] at group
  omega

def Numbered (c : Int) : Prop := 0 ≤ c ∧ c ≤ 15 ∨ 128 ≤ c ∧ c ≤ 143

private theorem numbered_of_distinct {cmus : List Int} {c : Int} (distinct : ∀ g ∈ groups, Distinct cmus c g) :
    Numbered c := by
  have low := (distinct 0x100 (by decide)).index.1
  have high := (distinct 0x170 (by decide)).index.2
  by_contra between
  rw [Numbered] at between
  obtain ⟨q,digit⟩ : ∃ q, q = c / 16 := ⟨_,rfl⟩
  -- With a second hexadecimal digit the first two groups run into later ones.
  have collide (g g' : Int) (left : g ∈ groups) (right : g' ∈ groups) (other : g' ≠ g) (met : g' - g = 16 * q) : False :=
    (distinct g left).apart (c % 16) g' (Or.inr (by omega)) (by omega) right other (by omega)
  obtain one | two | three | four | five | six | seven :
      q = 1 ∨ q = 2 ∨ q = 3 ∨ q = 4 ∨ q = 5 ∨ q = 6 ∨ q = 7 := by omega
  · exact collide 0x120 0x130 (by decide) (by decide) (by decide) (by omega)
  · exact collide 0x100 0x120 (by decide) (by decide) (by decide) (by omega)
  · exact collide 0x100 0x130 (by decide) (by decide) (by decide) (by omega)
  · exact collide 0x100 0x140 (by decide) (by decide) (by decide) (by omega)
  · exact collide 0x100 0x150 (by decide) (by decide) (by decide) (by omega)
  · exact collide 0x100 0x160 (by decide) (by decide) (by decide) (by omega)
  · exact collide 0x100 0x170 (by decide) (by decide) (by decide) (by omega)

private theorem distinct_of_numbered {cmus : List Int} (all : ∀ c ∈ cmus, Numbered c) {c g : Int} (listed : c ∈ cmus)
    (group : g ∈ groups) : Distinct cmus c g := by
  have own := all c listed
  obtain ⟨low,high,whole⟩ := group_bounds group
  refine ⟨by rw [Numbered] at own; omega,fun c' g' another other group' different same => ?_⟩
  obtain ⟨low',high',whole'⟩ := group_bounds group'
  have number : Numbered c' := by
    rcases another with listed' | small
    · exact all c' listed'
    · exact Or.inl (by omega)
  rw [Numbered] at own number
  omega

/-- The list is safe exactly when it has no more than fifteen numbers, all of one
hexadecimal digit or of the eight times sixteen and one digit. -/
theorem safeList_iff (opts : Text) : SafeList opts ↔
    (leading (elements ',' opts)).length ≤ 15 ∧ ∀ e ∈ leading (elements ',' opts), Numbered (atoi e) := by
  have run := prehNewCmus_eq opts
  by_cases few : (leading (elements ',' opts)).length ≤ 15
  · rw [if_pos few] at run
    obtain ⟨info,read,cmus⟩ := Option.map_eq_some_iff.mp run
    simp only [SafeList,read,Option.some.injEq,exists_eq_left',few,true_and,cmus]
    constructor
    · intro distinct e listed
      exact numbered_of_distinct fun g group => distinct (atoi e) (List.mem_map_of_mem listed) g group
    · intro all c listed g group
      refine distinct_of_numbered (fun c listed => ?_) listed group
      obtain ⟨e,listed',rfl⟩ := List.mem_map.mp listed
      exact all e listed'
  · rw [if_neg few,Option.map_eq_none_iff] at run
    simp [SafeList,run,few]

theorem sixteen_cmus : ¬ ∀ opts : Text, opts.length ≤ 63 → SafeList opts := by
  intro safe
  obtain ⟨info,read,_⟩ := safe "0,1,2,3,4,5,6,7,8,9,10,11,12,13,14,15".toList (by decide)
  have outside : prehNewCmus "0,1,2,3,4,5,6,7,8,9,10,11,12,13,14,15".toList = none := by
    rw [← Option.map_eq_none_iff (f := PrehInfo.cmus),prehNewCmus_eq]
    exact if_neg (by decide)
  rw [outside] at read
  contradiction

end Mybmm.PrehOptions
