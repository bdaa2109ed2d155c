import Mathlib.Data.List.Basic

/-! Arrays of a fixed size the way C indexes them: an index outside has no
meaning. Writing from some index on is defined exactly when it ends inside. -/
namespace Mybmm.Arrays

abbrev Byte := BitVec 8

variable {α : Type*} {n : Nat}

def put (v : Vector α n) (i : Nat) (x : α) : Option (Vector α n) :=
  if inside : i < n then some (v.set i x inside) else none

/-- Writes the elements one after the other from an index on. -/
def putAll (v : Vector α n) : Nat → List α → Option (Vector α n)
  | _, [] => some v
  | i, x :: xs => (put v i x).bind fun v => putAll v (i + 1) xs

/-- `memset` and then `memcpy` from its start. -/
def filled (n : Nat) (blank : α) (xs : List α) : Option (Vector α n) := putAll (Vector.replicate n blank) 0 xs

theorem putAll_isSome_iff (v : Vector α n) (i : Nat) (xs : List α) :
    (putAll v i xs).isSome ↔ xs = [] ∨ i + xs.length ≤ n := by
  induction xs generalizing v i with
  | nil => simp [putAll]
  | cons x xs ih =>
    by_cases inside : i < n
    · have tail : xs = [] ∨ i + 1 + xs.length ≤ n ↔ i + (x :: xs).length ≤ n := by
        simp only [List.length_cons]
        refine ⟨?_,fun bound => Or.inr (by omega)⟩
        rintro (rfl | bound)
        · exact Nat.succ_le_of_lt inside
        · omega
      simp only [putAll,put,inside,dif_pos,Option.bind_some,ih,tail]
      simp
    · have beyond : ¬ i + (x :: xs).length ≤ n := by
        simp only [List.length_cons]
        omega
      simpa [putAll,put,inside] using beyond

theorem putAll_some (v : Vector α n) (i : Nat) (xs : List α) (bound : i + xs.length ≤ n) :
    ∃ w, putAll v i xs = some w := Option.isSome_iff_exists.mp ((putAll_isSome_iff v i xs).mpr (Or.inr bound))

theorem putAll_getElem {v w : Vector α n} {i : Nat} {xs : List α} (done : putAll v i xs = some w) (k : Nat)
    (inside : k < n) : w[k] = if i ≤ k then xs[k - i]?.getD v[k] else v[k] := by
  induction xs generalizing v i with
  | nil =>
    obtain rfl : v = w := Option.some.inj done
    simp
  | cons x xs ih =>
    obtain ⟨first,written,later⟩ := Option.bind_eq_some_iff.mp done
    unfold put at written
    split at written
    · rename_i bound
      obtain rfl := Option.some.inj written
      rw [ih later]
      by_cases here : i = k
      · subst here
        have later : ¬ i + 1 ≤ i := by omega
        simp [later]
      · by_cases after : i ≤ k
        · obtain ⟨d,rfl⟩ : ∃ d, k = i + 1 + d := ⟨k - i - 1,by omega⟩
          have next : i + 1 + d - i = d + 1 := by omega
          simp [next,after,Vector.getElem_set_ne,here]
        · have before : ¬ i + 1 ≤ k := by omega
          simp [before,after,Vector.getElem_set_ne,here]
    · contradiction

theorem putAll_append (v : Vector α n) (i : Nat) (xs ys : List α) :
    putAll v i (xs ++ ys) = (putAll v i xs).bind fun w => putAll w (i + xs.length) ys := by
  induction xs generalizing v i with
  | nil => rfl
  | cons x xs ih =>
    have shift : i + (x :: xs).length = i + 1 + xs.length := by
      simp only [List.length_cons]
      omega
    simp only [List.cons_append,putAll,shift,Option.bind_assoc]
    exact congrArg _ (funext fun w => ih w (i + 1))

theorem filled_isSome_iff (blank : α) (xs : List α) : (filled n blank xs).isSome ↔ xs.length ≤ n := by
  rw [filled,putAll_isSome_iff]
  simp only [Nat.zero_add]
  exact ⟨fun either => either.elim (fun empty => by simp [empty]) id,Or.inr⟩

theorem filled_getElem {blank : α} {xs : List α} {v : Vector α n} (done : filled n blank xs = some v) (k : Nat)
    (inside : k < n) : v[k] = xs[k]?.getD blank := by
  rw [putAll_getElem done k inside]
  simp

end Mybmm.Arrays
