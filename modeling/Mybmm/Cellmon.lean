import Mybmm.Config
import Mybmm.Support.Arrays
import Mybmm.Support.Routine

/-! What the cell monitor drivers share: the part of a pack they fill in, with
its arrays at their sizes, and the words they read out of a reply. -/
namespace Mybmm.Cellmon
open Config Flags Arrays Routine

abbrev Frame := Vector Byte 8

def maxTemps : Nat := 8

def maxCells : Nat := 32

/-- The fields of `mybmm_pack_t` that a driver's `read` fills in. -/
structure PackInfo where
  state : BitVec 16
  error : BitVec 32
  capacity : ℚ
  voltage : ℚ
  current : ℚ
  ntemps : Int
  temps : Vector ℚ maxTemps
  cells : Int
  cellvolt : Vector ℚ maxCells
  balancebits : BitVec 32

def blankPack : PackInfo where
  state := 0
  error := 0
  capacity := 0
  voltage := 0
  current := 0
  ntemps := 0
  temps := Vector.replicate maxTemps 0
  cells := 0
  cellvolt := Vector.replicate maxCells 0
  balancebits := 0

/-- The counts stay inside the arrays they count, as every reader of a pack takes
for granted. -/
structure Fits (pp : PackInfo) : Prop where
  cells : 0 ≤ pp.cells ∧ pp.cells ≤ maxCells
  ntemps : 0 ≤ pp.ntemps ∧ pp.ntemps ≤ maxTemps

def withTemps (pp : PackInfo) (temps : Vector ℚ maxTemps) : PackInfo := { pp with temps := temps }

def withCellvolt (pp : PackInfo) (cellvolt : Vector ℚ maxCells) : PackInfo := { pp with cellvolt := cellvolt }

def putIn {n : Nat} (get : PackInfo → Vector ℚ n) (replace : PackInfo → Vector ℚ n → PackInfo) (i : Nat) (v : ℚ)
    (pp : PackInfo) : Option PackInfo := (put (get pp) i v).map (replace pp)

def putTemp : Nat → ℚ → PackInfo → Option PackInfo := putIn PackInfo.temps withTemps

def putCell : Nat → ℚ → PackInfo → Option PackInfo := putIn PackInfo.cellvolt withCellvolt

def setPackState (v : PackState) (pp : PackInfo) : PackInfo := { pp with state := set pp.state v }

def clearPackState (v : PackState) (pp : PackInfo) : PackInfo := { pp with state := clear pp.state v }

def putPackState (v : PackState) (on : Bool) (pp : PackInfo) : PackInfo :=
  if on then setPackState v pp else clearPackState v pp

@[simp] theorem putPackState_balancebits (v : PackState) (on : Bool) (pp : PackInfo) :
    (putPackState v on pp).balancebits = pp.balancebits := by
  cases on <;> rfl

@[simp] theorem check_putPackState (v w : PackState) (on : Bool) (pp : PackInfo) :
    check (putPackState v on pp).state w = if v = w then on else check pp.state w := by
  cases on <;> by_cases same : v = w <;> simp [putPackState,setPackState,clearPackState,same]

/-- Safe and, when it succeeds, within the counts. -/
def Safe (result : Option (Int × PackInfo)) : Prop :=
  ∃ code pp, result = some (code,pp) ∧ (code = 0 → Fits pp)

theorem safe_error {m : Routine PackInfo Unit} {pp t : PackInfo} {code : Int} (ends : m pp = some (.error code,t))
    (fails : code ≠ 0) : Safe (returns m pp) :=
  ⟨code,t,by rw [returns,ends]; rfl,fun zero => absurd zero fails⟩

theorem safe_ok_iff {m : Routine PackInfo Unit} {pp t : PackInfo} (ends : m pp = some (.ok (),t)) :
    Safe (returns m pp) ↔ Fits t := by
  simp [Safe,returns,ends]

theorem safe_none {m : Routine PackInfo Unit} {pp : PackInfo} (outside : m pp = none) : ¬ Safe (returns m pp) := by
  simp [Safe,returns,outside]

/-! A driver's loops write one value after the other. -/

def writeAll (write : Nat → ℚ → PackInfo → Option PackInfo) : Nat → List ℚ → PackInfo → Option PackInfo
  | _, [], pp => some pp
  | i, v :: vs, pp => (write i v pp).bind (writeAll write (i + 1) vs)

theorem writeAll_append (write : Nat → ℚ → PackInfo → Option PackInfo) (i : Nat) (vs ws : List ℚ) (pp : PackInfo) :
    writeAll write i (vs ++ ws) pp = (writeAll write i vs pp).bind (writeAll write (i + vs.length) ws) := by
  induction vs generalizing i pp with
  | nil => rfl
  | cons v vs ih =>
    have shift : i + (v :: vs).length = i + 1 + vs.length := by
      simp only [List.length_cons]
      omega
    simp only [List.cons_append,writeAll,shift,Option.bind_assoc]
    exact congrArg _ (funext fun next => ih (i + 1) next)

theorem writeAll_keeps {β : Type} (f : PackInfo → β) (write : Nat → ℚ → PackInfo → Option PackInfo)
    (keeps : ∀ i v pp t, write i v pp = some t → f t = f pp) (i : Nat) (vs : List ℚ) (pp t : PackInfo)
    (done : writeAll write i vs pp = some t) : f t = f pp := by
  induction vs generalizing i pp with
  | nil => exact congrArg f (Option.some.inj done).symm
  | cons v vs ih =>
    obtain ⟨next,written,later⟩ := Option.bind_eq_some_iff.mp done
    exact (ih (i + 1) next later).trans (keeps i v pp next written)

private theorem writeAll_putIn {n : Nat} (get : PackInfo → Vector ℚ n) (replace : PackInfo → Vector ℚ n → PackInfo)
    (same : ∀ pp, replace pp (get pp) = pp) (reads : ∀ pp v, get (replace pp v) = v)
    (twice : ∀ pp v w, replace (replace pp v) w = replace pp w) (i : Nat) (vs : List ℚ) (pp : PackInfo) :
    writeAll (putIn get replace) i vs pp = (putAll (get pp) i vs).map (replace pp) := by
  induction vs generalizing i pp with
  | nil => simp [writeAll,putAll,same]
  | cons v vs ih =>
    simp only [writeAll,putIn,putAll]
    cases put (get pp) i v with
    | none => rfl
    | some first =>
      have outer : replace (replace pp first) = replace pp := funext (twice pp first)
      simp [ih,reads,outer]

theorem writeAll_temps (i : Nat) (vs : List ℚ) (pp : PackInfo) :
    writeAll putTemp i vs pp = (putAll pp.temps i vs).map (withTemps pp) :=
  writeAll_putIn PackInfo.temps withTemps (fun _ => rfl) (fun _ _ => rfl) (fun _ _ _ => rfl) i vs pp

theorem writeAll_cells (i : Nat) (vs : List ℚ) (pp : PackInfo) :
    writeAll putCell i vs pp = (putAll pp.cellvolt i vs).map (withCellvolt pp) :=
  writeAll_putIn PackInfo.cellvolt withCellvolt (fun _ => rfl) (fun _ _ => rfl) (fun _ _ _ => rfl) i vs pp

theorem putTemp_keeps (i : Nat) (v : ℚ) (pp t : PackInfo) (done : putTemp i v pp = some t) :
    t.cells = pp.cells ∧ t.ntemps = pp.ntemps := by
  obtain ⟨temps,_,rfl⟩ := Option.map_eq_some_iff.mp done
  exact ⟨rfl,rfl⟩

theorem putCell_keeps (i : Nat) (v : ℚ) (pp t : PackInfo) (done : putCell i v pp = some t) :
    t.cells = pp.cells ∧ t.ntemps = pp.ntemps := by
  obtain ⟨cellvolt,_,rfl⟩ := Option.map_eq_some_iff.mp done
  exact ⟨rfl,rfl⟩

theorem putTemp_total (i : Nat) (v : ℚ) (pp : PackInfo) (inside : i < maxTemps) : ∃ t, putTemp i v pp = some t :=
  ⟨withTemps pp (pp.temps.set i v inside),by simp [putTemp,putIn,put,inside]⟩

theorem putCell_total (i : Nat) (v : ℚ) (pp : PackInfo) (inside : i < maxCells) : ∃ t, putCell i v pp = some t :=
  ⟨withCellvolt pp (pp.cellvolt.set i v inside),by simp [putCell,putIn,put,inside]⟩

theorem putTemp_outside (i : Nat) (v : ℚ) (pp : PackInfo) (outside : maxTemps ≤ i) : putTemp i v pp = none := by
  simp [putTemp,putIn,put,Nat.not_lt.mpr outside]

theorem putCell_outside (i : Nat) (v : ℚ) (pp : PackInfo) (outside : maxCells ≤ i) : putCell i v pp = none := by
  simp [putCell,putIn,put,Nat.not_lt.mpr outside]

theorem writeAll_total (write : Nat → ℚ → PackInfo → Option PackInfo) (size : Nat)
    (total : ∀ i v pp, i < size → ∃ t, write i v pp = some t) (i : Nat) (vs : List ℚ) (pp : PackInfo)
    (fits : i + vs.length ≤ size) : ∃ t, writeAll write i vs pp = some t := by
  induction vs generalizing i pp with
  | nil => exact ⟨pp,rfl⟩
  | cons v vs ih =>
    simp only [List.length_cons] at fits
    obtain ⟨next,written⟩ := total i v pp (by omega)
    obtain ⟨t,done⟩ := ih (i + 1) next (by omega)
    exact ⟨t,by simp [writeAll,written,done]⟩

end Mybmm.Cellmon
