import Mathlib.Tactic.Common

/-! Words of named flags. A flag set fixes one non-empty mask a name, the masks
of different names sharing no bit, so that setting, clearing and testing one
flag is independent of every other. Width and names are arbitrary. -/
namespace Mybmm.Flags

class FlagSet (φ : Type) (w : outParam Nat) where
  mask : φ → BitVec w
  mask_ne_zero : ∀ a, mask a ≠ 0
  mask_disjoint : ∀ a b, a ≠ b → mask a &&& mask b = 0

variable {φ : Type} {w : Nat} [FlagSet φ w]

def set (s : BitVec w) (a : φ) : BitVec w := s ||| FlagSet.mask a

def clear (s : BitVec w) (a : φ) : BitVec w := s &&& ~~~FlagSet.mask a

def check (s : BitVec w) (a : φ) : Bool := s &&& FlagSet.mask a != 0

private theorem mask_bits {a b : φ} (ne : a ≠ b) (i : Nat) (bound : i < w) :
    ((FlagSet.mask a : BitVec w)[i] && (FlagSet.mask b)[i]) = false := by
  have bit := congrArg (fun v : BitVec w => v[i]) (FlagSet.mask_disjoint a b ne)
  simpa using bit

@[simp] theorem check_zero (a : φ) : check (0#w) a = false := by
  simp [check]

theorem check_set_self (s : BitVec w) (a : φ) : check (set s a) a = true := by
  have kept : (s ||| FlagSet.mask a) &&& FlagSet.mask a = FlagSet.mask a := by
    ext i bound
    cases h : (FlagSet.mask a)[i] <;> simp [h]
  have nonzero : FlagSet.mask a ≠ (0 : BitVec w) := FlagSet.mask_ne_zero a
  simp only [check,set,kept,bne_iff_ne]
  exact nonzero

theorem check_set_ne (s : BitVec w) {a b : φ} (ne : a ≠ b) : check (set s a) b = check s b := by
  have outside : (s ||| FlagSet.mask a) &&& FlagSet.mask b = s &&& FlagSet.mask b := by
    ext i bound
    have bit := mask_bits ne i bound
    cases h : (FlagSet.mask b)[i] <;> simp_all
  simp only [check,set,outside]

theorem check_clear_self (s : BitVec w) (a : φ) : check (clear s a) a = false := by
  have none : s &&& ~~~FlagSet.mask a &&& FlagSet.mask a = 0 := by
    ext i bound
    cases h : (FlagSet.mask a)[i] <;> simp [h]
  simp [check,clear,none]

theorem check_clear_ne (s : BitVec w) {a b : φ} (ne : a ≠ b) : check (clear s a) b = check s b := by
  have outside : s &&& ~~~FlagSet.mask a &&& FlagSet.mask b = s &&& FlagSet.mask b := by
    ext i bound
    have bit := mask_bits ne i bound
    cases h : (FlagSet.mask b)[i] <;> simp_all
  simp only [check,clear,outside]

theorem clear_clear (s : BitVec w) (a : φ) : clear (clear s a) a = clear s a := by
  simp [clear,BitVec.and_assoc]

theorem clear_set (s : BitVec w) (a : φ) : clear (set s a) a = clear s a := by
  ext i bound
  cases h : (FlagSet.mask a)[i] <;> simp [clear,set,h]

variable [DecidableEq φ]

@[simp] theorem check_set (s : BitVec w) (a b : φ) :
    check (set s a) b = (decide (a = b) || check s b) := by
  by_cases same : a = b
  · subst same
    simp [check_set_self]
  · simp [same,check_set_ne s same]

@[simp] theorem check_clear (s : BitVec w) (a b : φ) :
    check (clear s a) b = (!decide (a = b) && check s b) := by
  by_cases same : a = b
  · subst same
    simp [check_clear_self]
  · simp [same,check_clear_ne s same]

end Mybmm.Flags
