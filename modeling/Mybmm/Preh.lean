import Mybmm.Cellmon

/-! preh.c: a pack of several CMUs, each with frames of its own on the CAN bus. A
frame that does not come is left out; the cells of all CMUs are counted on. -/
namespace Mybmm.Preh
open Config Arrays Cellmon Routine

structure PrehInfo where
  cmus : List Int
  room : cmus.length ≤ 15

/-- What `get_data` gives for the CMU at a place of the list, by identifier. -/
abbrev Answers := Nat → Int → Option Frame

def getshort (lo hi : Byte) : BitVec 16 := (hi &&& 0x0F) ++ lo

def prehNew (pp : PackInfo) : PackInfo := { pp with cells := 14 }

def byteAt (data : Frame) (i : Nat) : Byte := data[i]?.getD 0

def errorBits (data : Frame) (pp : PackInfo) : PackInfo :=
  { pp with
    error := byteAt data 3 ++ byteAt data 2 ++ byteAt data 1 ++ byteAt data 0
    balancebits := (byteAt data 4).setWidth 32 ||| (((byteAt data 5).setWidth 32 * 0x0F) <<< 8) }

/-- The probes above 40; in C the mean of none is no number. -/
def average (data : Frame) : ℚ :=
  let probes := (data.toList.take 4).filter fun b => 40 < b.toNat
  (probes.map fun b => (b.toNat - 40 : ℚ)).sum / probes.length

def addTemp (v : ℚ) (pp : PackInfo) : Option PackInfo :=
  (putTemp pp.ntemps.toNat v pp).map fun pp => { pp with ntemps := pp.ntemps + 1 }

/-- The words of a frame; the next cell, and whether the loop over the frames is
left. -/
def frameCells : List (Byte × Byte) → Nat → Routine PackInfo (Nat × Bool)
  | [], cell => return (cell,false)
  | (lo,hi) :: ws, cell =>
    if hi &&& 0x0F = 0 then return (cell,true) else do
      update (putCell cell ((getshort lo hi).toInt / 1000))
      let cells ← gets PackInfo.cells
      if (cell + 1 : Int) ≥ cells then return (cell + 1,true) else frameCells ws (cell + 1)

def pairs (data : Frame) : List (Byte × Byte) := [(byteAt data 0,byteAt data 1),(byteAt data 2,byteAt data 3),(byteAt data 4,byteAt data 5)]

def prehCells (answers : Answers) (i : Nat) (cmu : Int) : (left j cell : Nat) → Routine PackInfo Nat
  | 0, _, cell => return cell
  | left + 1, j, cell =>
    match answers i (0x100 + (j * 16 : Nat) + cmu) with
    | none => prehCells answers i cmu left (j + 1) cell
    | some data => do
      let (cell,stop) ← frameCells (pairs data) cell
      if stop then return cell else prehCells answers i cmu left (j + 1) cell

def prehCmu (answers : Answers) (i : Nat) (cmu : Int) (cell : Nat) : Routine PackInfo Nat := do
  let data ← orReturn 1 (answers i (0x100 + cmu))
  modify (errorBits data)
  match answers i (0x170 + cmu) with
  | none => prehCells answers i cmu 5 2 cell
  | some data => do
    update (addTemp (average data))
    prehCells answers i cmu 5 2 cell

def prehCmus (answers : Answers) : List Int → (i cell : Nat) → Routine PackInfo Unit
  | [], _, _ => return ()
  | cmu :: cmus, i, cell => do
    let cell ← prehCmu answers i cmu cell
    prehCmus answers cmus (i + 1) cell

def prehRead (info : PrehInfo) (answers : Answers) : Routine PackInfo Unit := do
  modify fun pp => { pp with ntemps := 0 }
  prehCmus answers info.cmus 0 0

/-! Where it stays inside its arrays. Each CMU that is reached adds a temperature
when it has one to give; the cells have room for all of them. -/

def probed (answers : Answers) : List Int → (i : Nat) → Nat
  | [], _ => 0
  | cmu :: cmus, i =>
    match answers i (0x100 + cmu) with
    | none => 0
    | some _ => (if (answers i (0x170 + cmu)).isSome then 1 else 0) + probed answers cmus (i + 1)

def SameCounts (pp t : PackInfo) : Prop := t.cells = pp.cells ∧ t.ntemps = pp.ntemps

private theorem frameCells_inside (ws : List (Byte × Byte)) (cell : Nat) (pp : PackInfo) (full : pp.cells = 14)
    (room : cell < maxCells) (goes : ws ≠ [] ∨ cell < 14) : ∃ last stop t,
      frameCells ws cell pp = some (.ok (last,stop),t) ∧ SameCounts pp t ∧ last ≤ max 14 (cell + 1) ∧
        (stop = false → last < 14) := by
  induction ws generalizing cell pp with
  | nil => exact ⟨cell,false,pp,rfl,⟨rfl,rfl⟩,by omega,fun _ => goes.resolve_left fun ne => ne rfl⟩
  | cons w ws ih =>
    obtain ⟨lo,hi⟩ := w
    by_cases zero : hi &&& 0x0F = 0
    · exact ⟨cell,true,pp,by rw [frameCells,if_pos zero]; rfl,⟨rfl,rfl⟩,by omega,by simp⟩
    · obtain ⟨next,written⟩ := putCell_total cell ((getshort lo hi).toInt / 1000) pp room
      obtain ⟨cells,ntemps⟩ := putCell_keeps cell _ pp next written
      have fourteen : next.cells = 14 := cells.trans full
      rw [frameCells,if_neg zero,bind_update_some written,bind_gets,fourteen]
      by_cases enough : (cell + 1 : Int) ≥ 14
      · exact ⟨cell + 1,true,next,by rw [if_pos enough]; rfl,⟨cells,ntemps⟩,by omega,by simp⟩
      · rw [if_neg enough]
        obtain ⟨last,stop,t,done,same,bound,stops⟩ := ih (cell + 1) next fourteen (by simp only [maxCells]; omega)
          (Or.inr (by omega))
        exact ⟨last,stop,t,done,⟨same.1.trans cells,same.2.trans ntemps⟩,by omega,stops⟩

private theorem prehCells_inside (answers : Answers) (i : Nat) (cmu : Int) (left j cell : Nat) (pp : PackInfo)
    (full : pp.cells = 14) (room : cell < maxCells) : ∃ last t,
      prehCells answers i cmu left j cell pp = some (.ok last,t) ∧ SameCounts pp t ∧ last ≤ max 14 (cell + 1) := by
  induction left generalizing j cell pp with
  | zero => exact ⟨cell,pp,rfl,⟨rfl,rfl⟩,by omega⟩
  | succ left ih =>
    rw [prehCells]
    cases answers i (0x100 + (j * 16 : Nat) + cmu) with
    | none => exact ih (j + 1) cell pp full room
    | some data =>
      obtain ⟨next,stop,mid,read,same,bound,stops⟩ := frameCells_inside (pairs data) cell pp full room
        (Or.inl (by simp [pairs]))
      simp only [bind_ok read]
      cases stop with
      | true => exact ⟨next,mid,rfl,same,bound⟩
      | false =>
        have below := stops rfl
        obtain ⟨last,t,done,kept,later⟩ := ih (j + 1) next mid (same.1.trans full) (by simp only [maxCells]; omega)
        exact ⟨last,t,done,⟨kept.1.trans same.1,kept.2.trans same.2⟩,by omega⟩

private theorem addTemp_some (v : ℚ) (pp : PackInfo) (m : Nat) (counted : pp.ntemps = m) (room : m < maxTemps) :
    ∃ t, addTemp v pp = some t ∧ t.cells = pp.cells ∧ t.ntemps = (m + 1 : Nat) := by
  obtain ⟨t,written⟩ := putTemp_total m v pp room
  obtain ⟨cells,ntemps⟩ := putTemp_keeps m v pp t written
  refine ⟨{ t with ntemps := t.ntemps + 1 },?_,cells,?_⟩
  · rw [addTemp,counted,Int.toNat_natCast,written]
    rfl
  · change t.ntemps + 1 = _
    rw [ntemps,counted]
    rfl

private theorem addTemp_full (v : ℚ) (pp : PackInfo) (counted : pp.ntemps = maxTemps) : addTemp v pp = none := by
  rw [addTemp,counted,Int.toNat_natCast,putTemp_outside _ _ _ le_rfl]
  rfl

/-- The CMUs from the one at `i` on, with `m` temperatures so far. -/
private theorem prehCmus_cases (answers : Answers) (cmus : List Int) (i cell m : Nat) (pp : PackInfo) (full : pp.cells = 14)
    (counted : pp.ntemps = m) (few : m ≤ maxTemps) (cells : cell ≤ 14 + i) (room : i + cmus.length ≤ 15) :
    (m + probed answers cmus i ≤ maxTemps ∧ ∃ t, prehCmus answers cmus i cell pp = some (.error 1,t) ∨
      prehCmus answers cmus i cell pp = some (.ok (),t) ∧ t.cells = 14 ∧ t.ntemps = (m + probed answers cmus i : Nat)) ∨
    (maxTemps < m + probed answers cmus i ∧ prehCmus answers cmus i cell pp = none) := by
  induction cmus generalizing i cell m pp with
  | nil => exact Or.inl ⟨few,pp,Or.inr ⟨rfl,full,counted⟩⟩
  | cons cmu cmus ih =>
    simp only [List.length_cons] at room
    have inside : cell < maxCells := by
      simp only [maxCells]
      omega
    simp only [probed]
    cases status : answers i (0x100 + cmu) with
    | none => exact Or.inl ⟨few,pp,Or.inl (bind_error (by rw [prehCmu,status]; rfl))⟩
    | some data =>
      -- Its cells, and then the CMUs after it.
      have rest (mid : PackInfo) (k : Nat) (full : mid.cells = 14) (counted : mid.ntemps = k) (few : k ≤ maxTemps)
          (start : prehCmu answers i cmu cell pp = prehCells answers i cmu 5 2 cell mid) :
          (k + probed answers cmus (i + 1) ≤ maxTemps ∧ ∃ t, prehCmus answers (cmu :: cmus) i cell pp = some (.error 1,t) ∨
            prehCmus answers (cmu :: cmus) i cell pp = some (.ok (),t) ∧ t.cells = 14 ∧
              t.ntemps = (k + probed answers cmus (i + 1) : Nat)) ∨
          (maxTemps < k + probed answers cmus (i + 1) ∧ prehCmus answers (cmu :: cmus) i cell pp = none) := by
        obtain ⟨last,t,read,same,bound⟩ := prehCells_inside answers i cmu 5 2 cell mid full inside
        rw [prehCmus,bind_ok (start.trans read)]
        exact ih (i + 1) last k t (same.1.trans full) (same.2.trans counted) few (by omega) (by omega)
      cases temps : answers i (0x170 + cmu) with
      | none =>
        have start : prehCmu answers i cmu cell pp = prehCells answers i cmu 5 2 cell (errorBits data pp) := by
          rw [prehCmu,status,bind_some,bind_modify,temps]
        simpa using rest (errorBits data pp) m full counted few start
      | some probes =>
        simp only [Option.isSome_some,if_true,← Nat.add_assoc]
        rcases Nat.lt_or_eq_of_le few with below | rfl
        · obtain ⟨mid,added,cells,ntemps⟩ := addTemp_some (average probes) (errorBits data pp) m counted below
          refine rest mid (m + 1) (cells.trans full) ntemps (by omega) ?_
          rw [prehCmu,status,bind_some,bind_modify,temps]
          exact bind_update_some added
        · refine Or.inr ⟨by omega,bind_none ?_⟩
          rw [prehCmu,status,bind_some,bind_modify,temps]
          exact bind_update_none (addTemp_full _ _ counted)

theorem prehRead_cases (info : PrehInfo) (answers : Answers) (pp : PackInfo) :
    (probed answers info.cmus 0 ≤ maxTemps ∧ ∃ t, prehRead info answers (prehNew pp) = some (.error 1,t) ∨
      prehRead info answers (prehNew pp) = some (.ok (),t) ∧ Fits t) ∨
    (maxTemps < probed answers info.cmus 0 ∧ prehRead info answers (prehNew pp) = none) := by
  have start : prehRead info answers (prehNew pp) = prehCmus answers info.cmus 0 0 { prehNew pp with ntemps := 0 } := by
    rw [prehRead,bind_modify]
  rw [start]
  have bound := info.room
  rcases prehCmus_cases answers info.cmus 0 0 0 { prehNew pp with ntemps := 0 } rfl rfl (by decide) (by decide) (by omega)
    with ⟨few,t,done | ⟨done,cells,ntemps⟩⟩ | ⟨many,done⟩
  · exact Or.inl ⟨by omega,t,Or.inl done⟩
  · refine Or.inl ⟨by omega,t,Or.inr ⟨done,?_,?_⟩⟩
    · simp only [cells,maxCells]
      omega
    · simp only [ntemps]
      omega
  · exact Or.inr ⟨by omega,done⟩

theorem preh_safe_iff (info : PrehInfo) (answers : Answers) (pp : PackInfo) :
    Safe (returns (prehRead info answers) (prehNew pp)) ↔ probed answers info.cmus 0 ≤ maxTemps := by
  rcases prehRead_cases info answers pp with ⟨few,t,done | ⟨done,fits⟩⟩ | ⟨many,done⟩
  · exact iff_of_true (safe_error done one_ne_zero) few
  · exact iff_of_true ((safe_ok_iff done).mpr fits) few
  · exact iff_of_false (safe_none done) (by omega)

end Mybmm.Preh
