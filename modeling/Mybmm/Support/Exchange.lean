import Mathlib.Data.List.Perm.Basic
import Mathlib.Data.List.Count

/-! Sorting by exchanges. The first of the items left is exchanged with the first one
behind it that may not stand there, as long as there is one; then it is settled. -/
namespace Mybmm.Exchange

variable {α : Type}

section Order

variable (wrong : α → α → Prop)

/-- How a list is sorted in a number of turns; `wrong a b` says that `a` may not stand before `b`. -/
inductive Sorts : List α → Nat → List α → Prop
  | done : Sorts [] 0 []
  | settle {x : α} {rest sorted : List α} {turns : Nat} (fine : ∀ z ∈ rest, ¬ wrong x z)
      (later : Sorts rest turns sorted) : Sorts (x :: rest) (turns + 1) (x :: sorted)
  | exchange {x y : α} {between rest sorted : List α} {turns : Nat} (fine : ∀ z ∈ between, ¬ wrong x z)
      (found : wrong x y) (later : Sorts (y :: (between ++ x :: rest)) turns sorted) :
      Sorts (x :: (between ++ y :: rest)) (turns + 1) sorted

/-- A strict order on the items of a list. -/
structure Strict (items : List α) : Prop where
  asymm : ∀ a ∈ items, ∀ b ∈ items, wrong a b → ¬ wrong b a
  trans : ∀ a ∈ items, ∀ b ∈ items, ∀ c ∈ items, wrong a b → wrong b c → wrong a c

end Order

variable {wrong : α → α → Prop}

theorem strict_subset {items fewer : List α} (strict : Strict wrong items) (within : fewer ⊆ items) :
    Strict wrong fewer where
  asymm := fun a left b right => strict.asymm a (within left) b (within right)
  trans := fun a left b middle c right => strict.trans a (within left) b (within middle) c (within right)

theorem perm_exchange (x y : α) (between rest : List α) :
    (y :: (between ++ x :: rest)).Perm (x :: (between ++ y :: rest)) :=
  calc
    (y :: (between ++ x :: rest)).Perm (y :: x :: (between ++ rest)) := List.perm_middle.cons y
    List.Perm _ (x :: y :: (between ++ rest)) := List.Perm.swap x y _
    List.Perm _ (x :: (between ++ y :: rest)) := List.perm_middle.symm.cons x

theorem sorts_perm {items sorted : List α} {turns : Nat} (sorts : Sorts wrong items turns sorted) : sorted.Perm items := by
  induction sorts with
  | done => exact List.Perm.refl []
  | settle _ _ ih => exact ih.cons _
  | exchange _ _ _ ih => exact ih.trans (perm_exchange _ _ _ _)

/-- What is settled stands right before all that is left, in whatever order that ends. -/
theorem sorts_ordered {items sorted : List α} {turns : Nat} (sorts : Sorts wrong items turns sorted) :
    sorted.Pairwise fun a b => ¬ wrong a b := by
  induction sorts with
  | done => exact List.Pairwise.nil
  | settle fine later ih => exact List.pairwise_cons.mpr ⟨fun z member => fine z ((sorts_perm later).subset member),ih⟩
  | exchange _ _ _ ih => exact ih

variable [DecidableRel wrong]

/-- An exchange leaves fewer items that the first one may not stand before. -/
theorem exchange_fewer {x y : α} {between rest : List α} (strict : Strict wrong (x :: (between ++ y :: rest)))
    (found : wrong x y) : (between ++ x :: rest).countP (wrong y ·) < (between ++ y :: rest).countP (wrong x ·) := by
  have first : x ∈ x :: (between ++ y :: rest) := List.mem_cons_self
  have second : y ∈ x :: (between ++ y :: rest) := by simp
  have onward (part : List α) (within : part ⊆ x :: (between ++ y :: rest)) :
      part.countP (wrong y ·) ≤ part.countP (wrong x ·) := by
    apply List.countP_mono_left
    intro z member behind
    have next := of_decide_eq_true behind
    exact decide_eq_true (strict.trans x first y second z (within member) found next)
  have before := onward between fun z member => by simp [member]
  have after := onward rest fun z member => by simp [member]
  have back : ¬ wrong y x := strict.asymm x first y second found
  rw [List.countP_append,List.countP_append,List.countP_cons_of_neg (by simpa using back),
    List.countP_cons_of_pos (by simpa using found)]
  omega

theorem first_wrong (wrong : α → α → Prop) [DecidableRel wrong] (x : α) (rest : List α) : (∀ z ∈ rest, ¬ wrong x z) ∨
    ∃ between y later, rest = between ++ y :: later ∧ (∀ z ∈ between, ¬ wrong x z) ∧ wrong x y := by
  induction rest with
  | nil => exact Or.inl (by simp)
  | cons z rest ih =>
    by_cases found : wrong x z
    · exact Or.inr ⟨[],z,rest,rfl,by simp,found⟩
    · rcases ih with fine | ⟨between,y,later,rfl,fine,wrongly⟩
      · exact Or.inl (List.forall_mem_cons.mpr ⟨found,fine⟩)
      · exact Or.inr ⟨z :: between,y,later,rfl,List.forall_mem_cons.mpr ⟨found,fine⟩,wrongly⟩

/-- The first item is settled after as many exchanges as there are items that it may not
stand before, at most. -/
theorem sorts_first {size turns : Nat} (sorts : ∀ items : List α, items.length = size → Strict wrong items →
      ∃ n sorted, n ≤ turns ∧ Sorts wrong items n sorted)
    (few : Nat) (x : α) (rest : List α) (length : rest.length = size) (strict : Strict wrong (x :: rest))
    (count : rest.countP (wrong x ·) ≤ few) : ∃ n sorted, n ≤ few + (turns + 1) ∧ Sorts wrong (x :: rest) n sorted := by
  induction few generalizing x rest with
  | zero =>
    have fine : ∀ z ∈ rest, ¬ wrong x z := by
      simpa using List.countP_eq_zero.mp (Nat.le_zero.mp count)
    obtain ⟨n,sorted,bound,later⟩ := sorts rest length (strict_subset strict (List.subset_cons_self x rest))
    exact ⟨n + 1,x :: sorted,by omega,.settle fine later⟩
  | succ few ih =>
    rcases first_wrong wrong x rest with fine | ⟨between,y,later,rfl,fine,found⟩
    · obtain ⟨n,sorted,bound,later⟩ := sorts rest length (strict_subset strict (List.subset_cons_self x rest))
      exact ⟨n + 1,x :: sorted,by omega,.settle fine later⟩
    · have fewer := exchange_fewer strict found
      obtain ⟨n,sorted,bound,next⟩ := ih y (between ++ x :: later) (by simpa using length)
        (strict_subset strict (perm_exchange x y between later).subset) (by omega)
      exact ⟨n + 1,sorted,by omega,.exchange fine found next⟩

theorem sorts_exists (size : Nat) (items : List α) (length : items.length = size) (strict : Strict wrong items) :
    ∃ n sorted, n ≤ size * size ∧ Sorts wrong items n sorted := by
  induction size generalizing items with
  | zero =>
    obtain rfl := List.eq_nil_of_length_eq_zero length
    exact ⟨0,[],Nat.le_refl _,.done⟩
  | succ size ih =>
    cases items with
    | nil => simp at length
    | cons x rest =>
      have tail : rest.length = size := by simpa using length
      obtain ⟨n,sorted,bound,sorts⟩ := sorts_first ih size x rest tail strict (tail ▸ List.countP_le_length)
      refine ⟨n,sorted,?_,sorts⟩
      calc
        n ≤ size + (size * size + 1) := bound
        _ ≤ (size + 1) * (size + 1) := by
          rw [Nat.add_mul,Nat.mul_add]
          omega

end Mybmm.Exchange
