import Mathlib.Tactic.Common

/-! What a descriptor brings to the calls of `read`, piece by piece: a failed call,
the end of the stream, or data, of which a call takes as much as it asks for. -/
namespace Mybmm.Feed

variable {α : Type*}

abbrev Pieces (α : Type*) : Type _ := List (Option (List α))

/-- One call; `none` is a failure and no data the end. -/
def read (n : Nat) : Pieces α → Option (List α) × Pieces α
  | [] => (some [],[])
  | none :: f => (none,f)
  | some bs :: f => (some (bs.take n),if bs.length ≤ n then f else some (bs.drop n) :: f)

def contents (f : Pieces α) : List α := f.flatMap fun piece => piece.getD []

/-- Calls that ask for one element each, with whatever they bring thrown away. -/
def advance : Nat → Pieces α → Pieces α
  | 0, f => f
  | k + 1, f => advance k (read 1 f).2

/-- Every call succeeds and brings something, as long as there is something. -/
def Steady (f : Pieces α) : Prop := ∀ piece ∈ f, ∃ b bs, piece = some (b :: bs)

def Joined (f : Pieces α) (start n : Nat) : Prop :=
  ∀ before after, f = before ++ after → ¬ (start < (contents before).length ∧ (contents before).length < start + n)

@[simp] theorem contents_nil : contents ([] : Pieces α) = [] := rfl

@[simp] theorem contents_cons (piece : Option (List α)) (f : Pieces α) :
    contents (piece :: f) = piece.getD [] ++ contents f := rfl

theorem read_contents (n : Nat) (f : Pieces α) : contents f = (read n f).1.getD [] ++ contents (read n f).2 := by
  cases f with
  | nil => rfl
  | cons piece f =>
    cases piece with
    | none => rfl
    | some bs =>
      by_cases all : bs.length ≤ n
      · simp [read,all,List.take_of_length_le all]
      · simp only [read,if_neg all,contents_cons,Option.getD_some,← List.append_assoc,List.take_append_drop]

theorem read_length (n : Nat) (f : Pieces α) : ((read n f).1.getD []).length ≤ n := by
  cases f with
  | nil => simp [read]
  | cons piece f =>
    cases piece with
    | none => simp [read]
    | some bs =>
      simp only [read,Option.getD_some,List.length_take]
      omega

theorem read_shorter {n : Nat} {f g : Pieces α} {b : α} {bs : List α} (brought : read n f = (some (b :: bs),g)) :
    (contents g).length < (contents f).length := by
  have parts := read_contents n f
  rw [brought] at parts
  rw [parts]
  simp only [Option.getD_some,List.length_append,List.length_cons]
  omega

theorem steady_read {f : Pieces α} (steady : Steady f) (n : Nat) : Steady (read n f).2 := by
  cases f with
  | nil => exact steady
  | cons piece f =>
    have rest : Steady f := fun piece held => steady piece (by simp [held])
    obtain ⟨b,bs,rfl⟩ := steady piece (by simp)
    simp only [read]
    split_ifs with all
    · exact rest
    · intro piece held
      rcases List.mem_cons.mp held with rfl | later
      · obtain ⟨c,cs,left⟩ := List.exists_cons_of_ne_nil (List.drop_eq_nil_iff.not.mpr all)
        exact ⟨c,cs,by rw [left]⟩
      · exact rest piece later

theorem read_some {f : Pieces α} (steady : Steady f) {n : Nat} (asks : 0 < n) (filled : contents f ≠ []) :
    ∃ b bs, (read n f).1 = some (b :: bs) := by
  cases f with
  | nil => exact absurd rfl filled
  | cons piece f =>
    obtain ⟨b,bs,rfl⟩ := steady piece (by simp)
    obtain ⟨k,rfl⟩ : ∃ k, n = k + 1 := ⟨n - 1,by omega⟩
    exact ⟨b,bs.take k,rfl⟩

theorem read_one {f : Pieces α} (steady : Steady f) {b : α} {rest : List α} (first : contents f = b :: rest) :
    ∃ g, read 1 f = (some [b],g) ∧ Steady g ∧ contents g = rest := by
  obtain ⟨c,cs,brought⟩ := read_some steady Nat.one_pos (by simp [first])
  have short := read_length 1 f
  have parts := read_contents 1 f
  rw [brought] at short parts
  obtain rfl : cs = [] := by
    cases cs with
    | nil => rfl
    | cons d cs => simp at short
  rw [first] at parts
  obtain ⟨rfl,after⟩ := List.cons.inj parts
  exact ⟨(read 1 f).2,Prod.ext brought rfl,steady_read steady 1,after.symm⟩

theorem joined_read_one {f g : Pieces α} (steady : Steady f) {b : α} (brought : read 1 f = (some [b],g)) (k n : Nat) :
    Joined f (k + 1) n ↔ Joined g k n := by
  cases f with
  | nil => simp [read] at brought
  | cons piece f =>
    obtain ⟨c,cs,rfl⟩ := steady piece (by simp)
    simp only [read,Prod.mk.injEq] at brought
    obtain ⟨_,rfl⟩ := brought
    by_cases single : cs = []
    · subst single
      rw [if_pos (by simp)]
      constructor
      · intro joined before after same
        have := joined (some [c] :: before) after (by rw [same]; rfl)
        simp only [contents_cons,Option.getD_some,List.length_append,List.length_cons,List.length_nil] at this
        omega
      · intro joined before after same
        cases before with
        | nil => simp
        | cons first before =>
          obtain ⟨rfl,rfl⟩ := List.cons.inj same
          have := joined before after rfl
          simp only [contents_cons,Option.getD_some,List.length_append,List.length_cons,List.length_nil]
          omega
    · have more : ¬ (c :: cs).length ≤ 1 := by
        have := List.length_pos_iff.mpr single
        simp only [List.length_cons]
        omega
      rw [if_neg more]
      constructor
      · intro joined before after same
        cases before with
        | nil => simp
        | cons first before =>
          obtain ⟨rfl,rfl⟩ := List.cons.inj same
          have := joined (some (c :: cs) :: before) after rfl
          simp only [contents_cons,Option.getD_some,List.length_append,List.length_cons,List.drop_one,List.tail_cons] at *
          omega
      · intro joined before after same
        cases before with
        | nil => simp
        | cons first before =>
          obtain ⟨rfl,rfl⟩ := List.cons.inj same
          have := joined (some cs :: before) after rfl
          simp only [contents_cons,Option.getD_some,List.length_append,List.length_cons] at *
          omega

/-- A call gets all it asks for exactly when no piece ends before. -/
theorem read_whole_iff {f : Pieces α} (steady : Steady f) (n : Nat) (enough : n ≤ (contents f).length) :
    ((read n f).1.getD []).length = n ↔ Joined f 0 n := by
  cases f with
  | nil =>
    obtain rfl : n = 0 := by simpa using enough
    exact iff_of_true rfl fun before after _ => by omega
  | cons piece f =>
    obtain ⟨b,bs,rfl⟩ := steady piece (by simp)
    simp only [read,Option.getD_some,List.length_take]
    constructor
    · intro whole before after same
      cases before with
      | nil => simp
      | cons first before =>
        obtain ⟨rfl,_⟩ := List.cons.inj same
        simp only [contents_cons,Option.getD_some,List.length_append]
        omega
    · intro joined
      have := joined [some (b :: bs)] f rfl
      simp only [contents_cons,contents_nil,Option.getD_some,List.append_nil,List.length_cons] at this ⊢
      omega

theorem advance_steady {f : Pieces α} (steady : Steady f) (xs rest : List α) (ahead : contents f = xs ++ rest) :
    Steady (advance xs.length f) ∧ contents (advance xs.length f) = rest ∧
      ∀ k n, Joined f (xs.length + k) n ↔ Joined (advance xs.length f) k n := by
  induction xs generalizing f with
  | nil => exact ⟨steady,ahead,fun k n => by simp [advance]⟩
  | cons x xs ih =>
    obtain ⟨g,brought,still,left⟩ := read_one steady ahead
    obtain ⟨last,empty,joined⟩ := ih still left
    have next : advance (x :: xs).length f = advance xs.length g := by
      rw [List.length_cons,advance,brought]
    rw [next]
    refine ⟨last,empty,fun k n => ?_⟩
    rw [← joined k n,← joined_read_one steady brought,List.length_cons,Nat.add_right_comm]

end Mybmm.Feed
