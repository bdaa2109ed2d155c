import Mathlib.Tactic.Common

/-! Loops that try again while a counter lasts. The counter tells afterwards whether a
try was taken, if the loop does not leave it at the same value in both cases. -/
namespace Mybmm.Retries

variable {α : Type*}

/-- A try fails for good, is not taken, or is. -/
inductive Try (α : Type*) where
  | failed
  | refused
  | taken (a : α)

inductive Exit (α : Type*) where
  | failed
  | left (retries : Int) (got : Option α)

/-- `while (retries--)` around a try that breaks when it is taken. -/
def countDown (tries : Nat → Try α) : (retries k : Nat) → Exit α
  | 0, _ => .left (-1) none
  | retries + 1, k =>
    match tries k with
    | .failed => .failed
    | .refused => countDown tries retries (k + 1)
    | .taken a => .left retries (some a)

/-- `do … while (retries--)` around such a try. -/
def tryAndCount (tries : Nat → Try α) (retries k : Nat) : Exit α :=
  match tries k with
  | .failed => .failed
  | .taken a => .left retries (some a)
  | .refused =>
    match retries with
    | 0 => .left (-1) none
    | retries + 1 => tryAndCount tries retries (k + 1)

/-- The first try that is taken, none having failed before it. -/
structure First (tries : Nat → Try α) (j : Nat) (a : α) : Prop where
  taken : tries j = .taken a
  before : ∀ i < j, tries i = .refused

def Accepts (tries : Nat → Try α) (budget : Nat) : Prop := ∃ j a, j < budget ∧ First tries j a

theorem First.reaches {tries : Nat → Try α} {j k : Nat} {a : α} (first : First tries j a)
    (before : ∀ i < k, tries i = .refused) : k ≤ j := by
  by_contra past
  have refused := before j (by omega)
  rw [first.taken] at refused
  contradiction

theorem First.unique {tries : Nat → Try α} {j k : Nat} {a b : α} (first : First tries j a) (other : First tries k b) :
    j = k ∧ a = b := by
  have order : j = k := Nat.le_antisymm (other.reaches first.before) (first.reaches other.before)
  subst order
  exact ⟨rfl,Try.taken.inj (first.taken.symm.trans other.taken)⟩

theorem countDown_congr {tries others : Nat → Try α} (retries k : Nat) (same : ∀ i, k ≤ i → tries i = others i) :
    countDown tries retries k = countDown others retries k := by
  induction retries generalizing k with
  | zero => rfl
  | succ retries ih => rw [countDown,countDown,same k (Nat.le_refl k),ih (k + 1) fun i later => same i (by omega)]

/-- With one more try in the body than the counter says, the two loops are one. -/
theorem tryAndCount_eq (tries : Nat → Try α) (retries k : Nat) :
    tryAndCount tries retries k = countDown tries (retries + 1) k := by
  induction retries generalizing k with
  | zero =>
    rw [tryAndCount,countDown]
    cases tries k <;> rfl
  | succ retries ih =>
    rw [tryAndCount,countDown]
    cases tries k with
    | failed => rfl
    | refused => exact ih (k + 1)
    | taken a => rfl

/-- After `k` tries that were not taken, the loop is left with the first that is, and
as many tries as it had left; or with none, and the counter below zero if it did
not fail. -/
theorem countDown_ends (tries : Nat → Try α) (retries k : Nat) (before : ∀ i < k, tries i = .refused) :
    (∃ j a, j < k + retries ∧ First tries j a ∧
        countDown tries retries k = .left ((k + retries : Int) - 1 - j) (some a)) ∨
      (¬ Accepts tries (k + retries) ∧
        (countDown tries retries k = .failed ∨ countDown tries retries k = .left (-1) none)) := by
  induction retries generalizing k with
  | zero =>
    refine Or.inr ⟨?_,Or.inr rfl⟩
    rintro ⟨j,a,below,first⟩
    have reached := first.reaches before
    omega
  | succ retries ih =>
    rw [countDown]
    cases ends : tries k with
    | failed =>
      refine Or.inr ⟨?_,Or.inl rfl⟩
      rintro ⟨j,a,_,first⟩
      rcases Nat.lt_or_eq_of_le (first.reaches before) with past | rfl
      · have refused := first.before k past
        rw [ends] at refused
        contradiction
      · have taken := first.taken
        rw [ends] at taken
        contradiction
    | refused =>
      have shift : k + 1 + retries = k + (retries + 1) := by omega
      have next := ih (k + 1) fun i below => by
        rcases Nat.lt_succ_iff_lt_or_eq.mp below with earlier | rfl
        · exact before i earlier
        · exact ends
      rw [shift] at next
      rcases next with ⟨j,a,inside,first,left⟩ | none
      · refine Or.inl ⟨j,a,inside,first,left.trans ?_⟩
        congr 1
        push_cast
        omega
      · exact Or.inr none
    | taken a =>
      refine Or.inl ⟨k,a,by omega,⟨ends,before⟩,?_⟩
      dsimp only
      congr 1
      push_cast
      omega

theorem left_positive_iff (tries : Nat → Try α) (retries : Nat) {v : Int} {got : Option α}
    (left : countDown tries (retries + 1) 0 = .left v got) : 1 ≤ v ↔ Accepts tries retries := by
  rcases countDown_ends tries (retries + 1) 0 (by simp) with ⟨j,a,below,first,ends⟩ | ⟨none,ends⟩
  · obtain ⟨rfl,_⟩ := Exit.left.inj (left.symm.trans ends)
    constructor
    · intro early
      exact ⟨j,a,by omega,first⟩
    · rintro ⟨k,b,earlier,other⟩
      have same := (first.unique other).1
      push_cast
      omega
  · have fewer : ¬ Accepts tries retries := fun ⟨j,a,below,first⟩ => none ⟨j,a,by omega,first⟩
    rw [left] at ends
    have exhausted := (Exit.left.inj (ends.resolve_left (by simp))).1
    exact iff_of_false (by omega) fewer

/-- A loop that takes the counter's last value for a failure misses the last try, and
no other. -/
theorem accepts_iff_not_last (tries : Nat → Try α) (budget : Nat) :
    (Accepts tries budget ↔ Accepts tries (budget + 1)) ↔ ∀ a, ¬ First tries budget a := by
  constructor
  · intro same a last
    obtain ⟨j,b,below,first⟩ := same.mpr ⟨budget,a,by omega,last⟩
    have order := (first.unique last).1
    omega
  · intro none
    constructor
    · rintro ⟨j,a,below,first⟩
      exact ⟨j,a,by omega,first⟩
    · rintro ⟨j,a,below,first⟩
      rcases Nat.lt_succ_iff_lt_or_eq.mp below with earlier | rfl
      · exact ⟨j,a,earlier,first⟩
      · exact absurd first (none a)

end Mybmm.Retries
