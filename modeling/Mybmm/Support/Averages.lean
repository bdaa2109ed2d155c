import Mathlib.Algebra.BigOperators.Group.List.Basic
import Mathlib.Algebra.Order.BigOperators.Group.List
import Mathlib.Algebra.Order.Field.Basic
import Mathlib.Order.Bounds.Basic
import Mathlib.Tactic.Linarith

/-! Figures taken from a list in one pass: the mean, and the least and the greatest
as they come up. -/
namespace Mybmm.Averages

section Mean

variable {K : Type*} [Field K] [LinearOrder K] [IsStrictOrderedRing K]

def mean (xs : List K) : K := xs.sum / xs.length

def Between (xs : List K) (v : K) : Prop := (∃ lo ∈ xs, lo ≤ v) ∧ ∃ hi ∈ xs, v ≤ hi

theorem length_pos {xs : List K} (filled : xs ≠ []) : (0 : K) < xs.length :=
  Nat.cast_pos.mpr (List.length_pos_iff.mpr filled)

theorem sum_eq_mean {xs : List K} (filled : xs ≠ []) : xs.sum = xs.length * mean xs :=
  (mul_div_cancel₀ _ (length_pos filled).ne').symm

theorem mean_between {xs : List K} (filled : xs ≠ []) : Between xs (mean xs) := by
  have level : (xs.map fun _ => mean xs).sum = xs.sum := by
    rw [List.map_const',List.sum_replicate,nsmul_eq_mul,sum_eq_mean filled]
  constructor
  · refine List.exists_le_of_sum_le filled _ _ ?_
    rw [level,List.map_id']
  · refine List.exists_le_of_sum_le filled _ _ ?_
    rw [level,List.map_id']

/-- A multiple of the mean, one or more: it lies between the values as long as the
factor is within what the value farthest out is of the mean. -/
theorem scaled_between_iff {xs : List K} (filled : xs ≠ []) {k : K} (more : 1 ≤ k) :
    Between xs (k * mean xs) ↔
      (0 < mean xs → ∃ hi ∈ xs, k ≤ hi / mean xs) ∧ (mean xs < 0 → ∃ lo ∈ xs, k ≤ lo / mean xs) := by
  obtain ⟨⟨lo,low,under⟩,hi,high,above⟩ := mean_between filled
  rcases lt_trichotomy (mean xs) 0 with negative | zero | positive
  · have farther : k * mean xs ≤ mean xs := by nlinarith
    simp only [negative,negative.not_gt,false_implies,true_and,true_implies]
    constructor
    · rintro ⟨⟨v,member,below⟩,_⟩
      exact ⟨v,member,(le_div_iff_of_neg negative).mpr below⟩
    · rintro ⟨v,member,within⟩
      exact ⟨⟨v,member,(le_div_iff_of_neg negative).mp within⟩,hi,high,farther.trans above⟩
  · simp only [zero,lt_irrefl,false_implies,and_self,mul_zero,iff_true]
    rw [zero] at under above
    exact ⟨⟨lo,low,under⟩,hi,high,above⟩
  · have farther : mean xs ≤ k * mean xs := by nlinarith
    simp only [positive,positive.not_gt,false_implies,and_true,true_implies]
    constructor
    · rintro ⟨_,v,member,far⟩
      exact ⟨v,member,(le_div_iff₀ positive).mpr far⟩
    · rintro ⟨v,member,within⟩
      exact ⟨⟨lo,low,under.trans farther⟩,v,member,(le_div_iff₀ positive).mp within⟩

end Mean

section Running

variable {α : Type*} [LinearOrder α]

def least (start : α) (xs : List α) : α := xs.foldl (fun m v => if v < m then v else m) start

def greatest (start : α) (xs : List α) : α := xs.foldl (fun m v => if v > m then v else m) start

theorem least_spec (start : α) (xs : List α) :
    (least start xs = start ∨ least start xs ∈ xs) ∧ least start xs ≤ start ∧ ∀ v ∈ xs, least start xs ≤ v := by
  induction xs generalizing start with
  | nil => simp [least]
  | cons x xs ih =>
    have next : least start (x :: xs) = least (if x < start then x else start) xs := rfl
    obtain ⟨found,under,all⟩ := ih (if x < start then x else start)
    rw [next]
    split_ifs at found under all ⊢ with less
    · refine ⟨Or.inr ?_,under.trans less.le,List.forall_mem_cons.mpr ⟨under,all⟩⟩
      rcases found with same | member
      · exact List.mem_cons.mpr (Or.inl same)
      · exact List.mem_cons_of_mem x member
    · refine ⟨found.imp id (List.mem_cons_of_mem x),under,List.forall_mem_cons.mpr ⟨?_,all⟩⟩
      exact under.trans (not_lt.mp less)

/-- What comes up as the least is the least value once the start is no less than some
value. -/
theorem least_isLeast_iff (start : α) (xs : List α) : IsLeast {v | v ∈ xs} (least start xs) ↔ ∃ v ∈ xs, v ≤ start := by
  obtain ⟨found,under,all⟩ := least_spec start xs
  constructor
  · exact fun is => ⟨_,is.1,under⟩
  · rintro ⟨v,member,below⟩
    refine ⟨found.elim (fun same => ?_) id,all⟩
    have equal : least start xs = v := le_antisymm (all v member) (below.trans same.ge)
    exact equal ▸ member

theorem greatest_isGreatest_iff (start : α) (xs : List α) :
    IsGreatest {v | v ∈ xs} (greatest start xs) ↔ ∃ v ∈ xs, start ≤ v :=
  least_isLeast_iff (α := αᵒᵈ) start xs

end Running

end Mybmm.Averages
