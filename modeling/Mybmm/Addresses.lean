import Mathlib.Data.List.Count
import Mathlib.Tactic.Tauto
import Mybmm.Streams

/-! `is_ip` of utils.c against what an address is: four groups of digits with three dots
between them. The recogniser counts the dots, and passes over what is neither dot nor
digit. -/
namespace Mybmm.Addresses
open CString Libc Streams

def Group (g : Text) : Prop := g ≠ [] ∧ g.length ≤ 3 ∧ ∀ c ∈ g, isdigit c = true

instance (g : Text) : Decidable (Group g) :=
  decidable_of_iff (g ≠ [] ∧ g.length ≤ 3 ∧ g.all isdigit = true) (by simp only [Group,List.all_eq_true])

def DottedQuad (s : Text) : Prop :=
  ∃ a b c d, Group a ∧ Group b ∧ Group c ∧ Group d ∧ s = a ++ '.' :: (b ++ '.' :: (c ++ '.' :: d))

/-- The characters that `is_ip` looks at. -/
def mark (c : Char) : Bool := c = '.' || isdigit c

def marks (s : Text) : Text := s.filter mark

/-- So many groups with a dot behind each, and digits after the last; `digits` have been read
of the first. -/
def Groups : (left digits : Nat) → Text → Prop
  | 0, digits, s => (∀ c ∈ s, isdigit c = true) ∧ digits + s.length ≤ 3
  | left + 1, digits, s => ∃ g rest, s = g ++ '.' :: rest ∧ (∀ c ∈ g, isdigit c = true) ∧ 0 < digits + g.length ∧
      digits + g.length ≤ 3 ∧ Groups left 0 rest

/-- What `is_ip` takes for an address: the dots and digits of the text are four groups that
each have a dot behind them, and then up to three digits more. -/
def FourDots (s : Text) : Prop :=
  ∃ a b c d e, Group a ∧ Group b ∧ Group c ∧ Group d ∧ e.length ≤ 3 ∧ (∀ x ∈ e, isdigit x = true) ∧
    marks s = a ++ '.' :: (b ++ '.' :: (c ++ '.' :: (d ++ '.' :: e)))

private theorem isdigit_ne_dot {c : Char} (digit : isdigit c = true) : c ≠ '.' := by
  rintro rfl
  exact absurd digit (by decide)

private theorem groups_le {left digits : Nat} {s : Text} (groups : Groups left digits s) : digits ≤ 3 := by
  cases left with
  | zero => exact (Nat.le_add_right _ _).trans groups.2
  | succ left =>
    obtain ⟨g,_,_,_,_,few,_⟩ := groups
    exact (Nat.le_add_right _ _).trans few

private theorem groups_dot (left digits : Nat) (rest : Text) :
    Groups left digits ('.' :: rest) ↔ ∃ l, left = l + 1 ∧ 0 < digits ∧ digits ≤ 3 ∧ Groups l 0 rest := by
  cases left with
  | zero =>
    refine iff_of_false (fun groups => ?_) (fun ⟨l,same,_⟩ => Nat.succ_ne_zero l same.symm)
    exact isdigit_ne_dot (groups.1 '.' (by simp)) rfl
  | succ left =>
    constructor
    · rintro ⟨g,after,same,digit,some,few,later⟩
      cases g with
      | nil =>
        obtain rfl : rest = after := (List.cons.inj same).2
        exact ⟨left,rfl,some,few,later⟩
      | cons c g => exact absurd (List.cons.inj same).1.symm (isdigit_ne_dot (digit c (by simp)))
    · rintro ⟨l,same,some,few,later⟩
      obtain rfl := Nat.succ.inj same
      exact ⟨[],rest,rfl,nofun,some,few,later⟩

private theorem groups_digit (left digits : Nat) {c : Char} (digit : isdigit c = true) (rest : Text) :
    Groups left digits (c :: rest) ↔ Groups left (digits + 1) rest := by
  cases left with
  | zero =>
    rw [Groups,Groups,List.forall_mem_cons,List.length_cons,Nat.add_right_comm,Nat.add_assoc]
    exact and_congr_left fun _ => and_iff_right digit
  | succ left =>
    constructor
    · rintro ⟨g,after,same,digits',_,few,later⟩
      cases g with
      | nil => exact absurd (List.cons.inj same).1 (isdigit_ne_dot digit)
      | cons d g =>
        obtain ⟨rfl,rfl⟩ := List.cons.inj same
        rw [List.length_cons] at few
        exact ⟨g,after,rfl,fun x held => digits' x (by simp [held]),by omega,by omega,later⟩
    · rintro ⟨g,after,rfl,digits',_,few,later⟩
      refine ⟨c :: g,after,rfl,?_,by simp,by rw [List.length_cons]; omega,later⟩
      exact List.forall_mem_cons.mpr ⟨digit,digits'⟩

/-- The recogniser counts down the groups. -/
private theorem isIpFrom_iff (s : Text) (looked : ∀ c ∈ s, mark c = true) (dots digits : Nat) (few : dots ≤ 4)
    (short : digits ≤ 3) : isIpFrom dots digits s = true ↔ Groups (4 - dots) digits s := by
  induction s generalizing dots digits with
  | nil =>
    rw [isIpFrom,decide_eq_true_iff]
    cases left : 4 - dots with
    | zero => exact iff_of_true (by omega) ⟨nofun,short⟩
    | succ l =>
      refine iff_of_false (by omega) ?_
      rintro ⟨g,rest,same,_⟩
      exact List.append_ne_nil_of_right_ne_nil g (List.cons_ne_nil _ _) same.symm
  | cons c rest ih =>
    have tail : ∀ c ∈ rest, mark c = true := fun c held => looked c (by simp [held])
    rw [isIpFrom]
    by_cases dot : c = '.'
    · subst dot
      rw [if_pos rfl,groups_dot]
      split_ifs with none many
      · exact iff_of_false id fun ⟨_,_,read,_⟩ => absurd none (Nat.ne_of_gt read)
      · refine iff_of_false id fun ⟨l,left,_⟩ => ?_
        omega
      · rw [ih tail (dots + 1) 0 (by omega) (Nat.zero_le 3)]
        constructor
        · exact fun groups => ⟨4 - (dots + 1),by omega,Nat.pos_of_ne_zero none,short,groups⟩
        · rintro ⟨l,left,_,_,groups⟩
          rwa [show 4 - (dots + 1) = l by omega]
    · have digit : isdigit c = true := by simpa [mark,dot] using looked c (by simp)
      rw [if_neg dot,if_pos digit,groups_digit _ _ digit]
      split_ifs with full
      · exact iff_of_false id fun groups => absurd (groups_le groups) (by omega)
      · exact ih tail dots (digits + 1) few (by omega)

private theorem isIpFrom_marks (s : Text) (dots digits : Nat) : isIpFrom dots digits s = isIpFrom dots digits (marks s) := by
  induction s generalizing dots digits with
  | nil => rfl
  | cons c rest ih =>
    by_cases looked : mark c = true
    · rw [marks,List.filter_cons_of_pos looked,isIpFrom,isIpFrom]
      simp only [ih,marks]
    · have other : c ≠ '.' ∧ isdigit c = false := by simpa [mark] using looked
      rw [marks,List.filter_cons_of_neg looked,isIpFrom,if_neg other.1,if_neg (by simp [other.2])]
      exact ih dots digits

private theorem group_iff (g : Text) : (∀ c ∈ g, isdigit c = true) ∧ 0 < 0 + g.length ∧ 0 + g.length ≤ 3 ↔ Group g := by
  rw [Nat.zero_add,List.length_pos_iff,Group]
  tauto

private theorem groups_four (s : Text) : Groups 4 0 s ↔ ∃ a b c d e, Group a ∧ Group b ∧ Group c ∧ Group d ∧ e.length ≤ 3 ∧
    (∀ x ∈ e, isdigit x = true) ∧ s = a ++ '.' :: (b ++ '.' :: (c ++ '.' :: (d ++ '.' :: e))) := by
  constructor
  · rintro ⟨a,_,rfl,a₁,a₂,a₃,b,_,rfl,b₁,b₂,b₃,c,_,rfl,c₁,c₂,c₃,d,e,rfl,d₁,d₂,d₃,e₁,e₂⟩
    exact ⟨a,b,c,d,e,(group_iff a).mp ⟨a₁,a₂,a₃⟩,(group_iff b).mp ⟨b₁,b₂,b₃⟩,(group_iff c).mp ⟨c₁,c₂,c₃⟩,
      (group_iff d).mp ⟨d₁,d₂,d₃⟩,by omega,e₁,rfl⟩
  · rintro ⟨a,b,c,d,e,first,second,third,fourth,short,digits,rfl⟩
    obtain ⟨a₁,a₂,a₃⟩ := (group_iff a).mpr first
    obtain ⟨b₁,b₂,b₃⟩ := (group_iff b).mpr second
    obtain ⟨c₁,c₂,c₃⟩ := (group_iff c).mpr third
    obtain ⟨d₁,d₂,d₃⟩ := (group_iff d).mpr fourth
    exact ⟨a,_,rfl,a₁,a₂,a₃,b,_,rfl,b₁,b₂,b₃,c,_,rfl,c₁,c₂,c₃,d,e,rfl,d₁,d₂,d₃,digits,by omega⟩

private theorem isIp_iff (s : Text) : isIp s = true ↔ FourDots s := by
  have looked : ∀ c ∈ marks s, mark c = true := fun c held => List.of_mem_filter held
  rw [isIp,isIpFrom_marks,isIpFrom_iff _ looked 0 0 (Nat.zero_le 4) (Nat.zero_le 3)]
  exact groups_four (marks s)

private theorem group_dots {g : Text} (group : Group g) : g.count '.' = 0 :=
  List.count_eq_zero.mpr fun held => isdigit_ne_dot (group.2.2 '.' held) rfl

private theorem quad_marks {s : Text} (quad : DottedQuad s) : marks s = s := by
  obtain ⟨a,b,c,d,first,second,third,fourth,rfl⟩ := quad
  have all {g : Text} (group : Group g) : g.filter mark = g :=
    List.filter_eq_self.mpr fun x held => by simp [mark,group.2.2 x held]
  rw [marks,List.filter_append,all first,List.filter_cons_of_pos rfl,List.filter_append,all second,
    List.filter_cons_of_pos rfl,List.filter_append,all third,List.filter_cons_of_pos rfl,all fourth]

/-- Three dots are not four. -/
private theorem quad_not_four {s : Text} (quad : DottedQuad s) : ¬ FourDots s := by
  rintro ⟨a,b,c,d,e,first,second,third,fourth,_,digits,four⟩
  rw [quad_marks quad] at four
  obtain ⟨a',b',c',d',first',second',third',fourth',three⟩ := quad
  have last : e.count '.' = 0 := List.count_eq_zero.mpr fun held => isdigit_ne_dot (digits '.' held) rfl
  have counted := congrArg (List.count '.') (four.symm.trans three)
  simp only [List.count_append,List.count_cons_self,group_dots first,group_dots second,group_dots third,
    group_dots fourth,group_dots first',group_dots second',group_dots third',group_dots fourth',last] at counted
  omega

/-- The recogniser is right only about texts that are neither an address nor taken for one:
no address is recognised. -/
theorem isIp_right_iff (s : Text) : (isIp s = true ↔ DottedQuad s) ↔ ¬ DottedQuad s ∧ ¬ FourDots s := by
  have apart : DottedQuad s → ¬ FourDots s := quad_not_four
  rw [isIp_iff]
  tauto

/-- So a session looks every address up as if it were a name. -/
theorem peer_quad {target : Text} (quad : DottedQuad target) (gethostbyname : Text → Option Text) :
    peer gethostbyname target =
      (gethostbyname target).or (if target.length < Streams.targetLen then some target else none) := by
  have missed : isIp target = false := Bool.eq_false_of_not_eq_true fun hit => quad_not_four quad ((isIp_iff target).mp hit)
  rw [peer,missed,if_neg Bool.false_ne_true]
  cases gethostbyname target <;> rfl

private theorem loopback_quad : DottedQuad "127.0.0.1".toList :=
  ⟨"127".toList,"0".toList,"0".toList,"1".toList,by decide,by decide,by decide,by decide,rfl⟩

theorem loopback_missed : ¬ (isIp "127.0.0.1".toList = true ↔ DottedQuad "127.0.0.1".toList) := by
  intro right
  exact absurd (right.mpr loopback_quad) (by decide)

end Mybmm.Addresses
