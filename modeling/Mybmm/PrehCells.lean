import Mybmm.Preh

/-! Which cells the voltages of preh.c end up in. The cells are counted over the frames
that come, so the voltages behind a missing frame move up; and a CMU that is read when
the cells are full still writes one. -/
namespace Mybmm.PrehCells
open Config Arrays Cellmon Routine Preh

def cellFrame (answers : Answers) (i : Nat) (cmu : Int) (j : Nat) : Option Frame :=
  answers i (0x100 + (j * 16 : Nat) + cmu)

def decode (w : Byte × Byte) : ℚ := (getshort w.1 w.2).toInt / 1000

def voltage (data : Frame) (m : Nat) : ℚ := decode (byteAt data (2 * m),byteAt data (2 * m + 1))

def present (frames : Nat → Option Frame) (left j : Nat) : List Frame := (List.range' j left).filterMap frames

/-- The words up to the first without a value, which ends the frames of its CMU. -/
def valued (ws : List (Byte × Byte)) : List (Byte × Byte) := ws.takeWhile fun w => decide (w.2 &&& 0x0F ≠ 0)

def readings (answers : Answers) (i : Nat) (cmu : Int) : List (Byte × Byte) :=
  valued ((present (cellFrame answers i cmu) 5 2).flatMap pairs)

/-! What one CMU writes. -/

/-- At least one, even when the cells are full. -/
def written (ws : List (Byte × Byte)) (cell : Nat) : List (Byte × Byte) := (valued ws).take (max 1 (14 - cell))

private theorem valued_cons_value {w : Byte × Byte} (ws : List (Byte × Byte)) (value : w.2 &&& 0x0F ≠ 0) :
    valued (w :: ws) = w :: valued ws := List.takeWhile_cons_of_pos (decide_eq_true value)

private theorem valued_cons_zero {w : Byte × Byte} (ws : List (Byte × Byte)) (zero : w.2 &&& 0x0F = 0) :
    valued (w :: ws) = [] := List.takeWhile_cons_of_neg (by simpa using zero)

private theorem frameCells_eq (ws : List (Byte × Byte)) (cell : Nat) (pp : PackInfo) (full : pp.cells = 14)
    (goes : ws ≠ [] ∨ cell < 14) : frameCells ws cell pp =
      (writeAll putCell cell ((written ws cell).map decode) pp).map fun t =>
        (.ok (cell + (written ws cell).length,
          decide ((valued ws).length < ws.length ∨ 14 ≤ cell + (valued ws).length)),t) := by
  induction ws generalizing cell pp with
  | nil =>
    have below : cell < 14 := goes.resolve_left fun ne => ne rfl
    have goes_on : ¬ 14 ≤ cell := by omega
    simp only [frameCells,written,valued,List.takeWhile_nil,List.take_nil,List.map_nil,writeAll,Option.map_some,
      List.length_nil,Nat.add_zero,Nat.lt_irrefl,goes_on,or_self,decide_false]
    rfl
  | cons w ws ih =>
    obtain ⟨lo,hi⟩ := w
    by_cases zero : hi &&& 0x0F = 0
    · have none := valued_cons_zero (w := (lo,hi)) ws zero
      simp only [frameCells,if_pos zero,written,none,List.take_nil,List.map_nil,writeAll,Option.map_some,
        List.length_nil,Nat.add_zero,List.length_cons,Nat.zero_lt_succ,true_or,decide_true]
      rfl
    · have more := valued_cons_value (w := (lo,hi)) ws zero
      obtain ⟨k,size⟩ : ∃ k, max 1 (14 - cell) = k + 1 := ⟨max 1 (14 - cell) - 1,by omega⟩
      simp only [frameCells,if_neg zero,written,more,size,List.take_succ_cons,List.map_cons,writeAll]
      cases stored : putCell cell (decode (lo,hi)) pp with
      | none => exact bind_update_none stored
      | some next =>
        have fourteen : next.cells = 14 := (putCell_keeps cell _ pp next stored).1.trans full
        have here : putCell cell ((getshort lo hi).toInt / 1000) pp = some next := stored
        rw [bind_update_some here,bind_gets,fourteen,Option.bind_some]
        by_cases enough : 14 ≤ cell + 1
        · have none : k = 0 := by omega
          have ends : 14 ≤ cell + ((valued ws).length + 1) := by omega
          rw [if_pos (by omega),none]
          simp only [List.take_zero,List.map_nil,writeAll,Option.map_some,List.length_cons,List.length_nil,ends,or_true,
            decide_true]
          rfl
        · have rest : k = max 1 (14 - (cell + 1)) := by omega
          have shift (n : Nat) : cell + (n + 1) = cell + 1 + n := by omega
          have tail : written ws (cell + 1) = (valued ws).take k := by rw [written,rest]
          rw [if_neg (by omega),ih (cell + 1) next fourteen (Or.inr (by omega)),tail]
          simp only [List.length_cons,Nat.add_lt_add_iff_right]
          rw [shift ((valued ws).take k).length,shift (valued ws).length]

private theorem valued_append (ws vs : List (Byte × Byte)) :
    valued (ws ++ vs) = if (valued ws).length = ws.length then ws ++ valued vs else valued ws := List.takeWhile_append

private theorem valued_short (ws : List (Byte × Byte)) : (valued ws).length ≤ ws.length :=
    (List.takeWhile_sublist _).length_le

private theorem valued_whole {ws : List (Byte × Byte)} (whole : (valued ws).length = ws.length) : valued ws = ws :=
  List.IsPrefix.eq_of_length (List.takeWhile_prefix _) whole

private theorem written_nil (cell : Nat) : written [] cell = [] := List.take_nil

/-- A frame that ends the loop leaves nothing for those behind it. -/
private theorem written_ends {ws : List (Byte × Byte)} {cell : Nat} (some : ws ≠ [])
    (ends : (valued ws).length < ws.length ∨ 14 ≤ cell + (valued ws).length) (vs : List (Byte × Byte)) :
    written (ws ++ vs) cell = written ws cell := by
  rw [written,written,valued_append]
  by_cases whole : (valued ws).length = ws.length
  · have nonempty := List.length_pos_of_ne_nil some
    rw [if_pos whole,valued_whole whole,List.take_append_of_le_length (by omega)]
  · rw [if_neg whole]

private theorem written_goes_on {ws : List (Byte × Byte)} {cell : Nat}
    (goes : ¬ ((valued ws).length < ws.length ∨ 14 ≤ cell + (valued ws).length)) (vs : List (Byte × Byte)) :
    written ws cell = ws ∧ written (ws ++ vs) cell = ws ++ written vs (cell + ws.length) := by
  obtain ⟨long,below⟩ := not_or.mp goes
  have whole : (valued ws).length = ws.length := Nat.le_antisymm (valued_short ws) (by omega)
  rw [written,written,written,valued_append,if_pos whole,valued_whole whole]
  refine ⟨List.take_of_length_le (by omega),?_⟩
  have rest : max 1 (14 - cell) = ws.length + max 1 (14 - (cell + ws.length)) := by omega
  rw [rest,List.take_length_add_append]

theorem prehCells_eq (answers : Answers) (i : Nat) (cmu : Int) (left j cell : Nat) (pp : PackInfo)
    (full : pp.cells = 14) : prehCells answers i cmu left j cell pp =
      (writeAll putCell cell ((written ((present (cellFrame answers i cmu) left j).flatMap pairs) cell).map decode) pp).map
        fun t => (.ok (cell + (written ((present (cellFrame answers i cmu) left j).flatMap pairs) cell).length),t) := by
  induction left generalizing j cell pp with
  | zero =>
    rw [present,List.range'_zero,List.filterMap_nil,List.flatMap_nil,written_nil]
    rfl
  | succ left ih =>
    have shown : answers i (0x100 + (j * 16 : Nat) + cmu) = cellFrame answers i cmu j := rfl
    rw [prehCells,shown,present,List.range'_succ]
    cases came : cellFrame answers i cmu j with
    | none =>
      rw [List.filterMap_cons_none came]
      exact ih (j + 1) cell pp full
    | some data =>
      rw [List.filterMap_cons_some came,List.flatMap_cons]
      have three : (pairs data).length = 3 := rfl
      have entered := frameCells_eq (pairs data) cell pp full (Or.inl (by simp [pairs]))
      rw [← present]
      by_cases ends : (valued (pairs data)).length < (pairs data).length ∨ 14 ≤ cell + (valued (pairs data)).length
      · rw [written_ends (by simp [pairs]) ends]
        rw [decide_eq_true ends] at entered
        cases stored : writeAll putCell cell ((written (pairs data) cell).map decode) pp with
        | none =>
          rw [stored] at entered
          exact bind_none entered
        | some next =>
          rw [stored] at entered
          exact bind_ok entered
      · obtain ⟨whole,behind⟩ := written_goes_on ends ((present (cellFrame answers i cmu) left (j + 1)).flatMap pairs)
        rw [decide_eq_false ends,whole] at entered
        rw [behind,List.map_append,writeAll_append,List.length_map,three]
        cases stored : writeAll putCell cell ((pairs data).map decode) pp with
        | none =>
          rw [stored] at entered
          exact bind_none entered
        | some next =>
          rw [stored] at entered
          have fourteen : next.cells = 14 :=
            (writeAll_keeps PackInfo.cells putCell (fun i v pp t done => (putCell_keeps i v pp t done).1) _ _ _ _ stored).trans full
          refine (bind_ok entered).trans ?_
          simp only [Bool.false_eq_true,if_false,Option.bind_some,three]
          rw [ih (j + 1) (cell + 3) next fourteen,List.length_append,three,Nat.add_assoc]

/-! What a whole read writes. -/

def cmuWords (answers : Answers) (i : Nat) (cmu : Int) (cell : Nat) : List (Byte × Byte) :=
  written ((present (cellFrame answers i cmu) 5 2).flatMap pairs) cell

/-- Up to the first CMU without a status, at which the read fails. -/
def allWords (answers : Answers) : List Int → (i cell : Nat) → List (Byte × Byte)
  | [], _, _ => []
  | cmu :: cmus, i, cell =>
    match answers i (0x100 + cmu) with
    | none => []
    | some _ =>
      let ws := cmuWords answers i cmu cell
      ws ++ allWords answers cmus (i + 1) (cell + ws.length)

private theorem prehCmu_cells (answers : Answers) (i : Nat) (cmu : Int) (cell : Nat) (pp t : PackInfo) (r : Except Int Nat)
    (full : pp.cells = 14) (data : Frame) (status : answers i (0x100 + cmu) = some data)
    (done : prehCmu answers i cmu cell pp = some (r,t)) :
    r = .ok (cell + (cmuWords answers i cmu cell).length) ∧ t.cells = 14 ∧
      putAll pp.cellvolt cell ((cmuWords answers i cmu cell).map decode) = some t.cellvolt := by
  -- The status and the temperature leave the cells alone.
  have rest (mid : PackInfo) (cells : mid.cells = 14) (same : mid.cellvolt = pp.cellvolt)
      (start : prehCells answers i cmu 5 2 cell mid = some (r,t)) :
      r = .ok (cell + (cmuWords answers i cmu cell).length) ∧ t.cells = 14 ∧
        putAll pp.cellvolt cell ((cmuWords answers i cmu cell).map decode) = some t.cellvolt := by
    rw [prehCells_eq answers i cmu 5 2 cell mid cells,← cmuWords,writeAll_cells,Option.map_map] at start
    obtain ⟨w,stored,ends⟩ := Option.map_eq_some_iff.mp start
    obtain ⟨rfl,rfl⟩ := Prod.mk.inj ends
    rw [same] at stored
    exact ⟨rfl,cells,stored⟩
  rw [prehCmu,status,bind_some,bind_modify] at done
  cases temps : answers i (0x170 + cmu) with
  | none =>
    rw [temps] at done
    exact rest (errorBits data pp) full rfl done
  | some probes =>
    rw [temps] at done
    obtain ⟨mid,added,goes⟩ := bind_update_inv done
    have kept : mid.cells = pp.cells ∧ mid.cellvolt = pp.cellvolt := by
      obtain ⟨u,stored,rfl⟩ := Option.map_eq_some_iff.mp added
      obtain ⟨temps,_,rfl⟩ := Option.map_eq_some_iff.mp stored
      exact ⟨rfl,rfl⟩
    exact rest mid (kept.1.trans full) kept.2 goes

private theorem prehCmus_cells (answers : Answers) (cmus : List Int) (i cell : Nat) (pp t : PackInfo) (r : Except Int Unit)
    (full : pp.cells = 14) (done : prehCmus answers cmus i cell pp = some (r,t)) :
    putAll pp.cellvolt cell ((allWords answers cmus i cell).map decode) = some t.cellvolt := by
  induction cmus generalizing i cell pp with
  | nil =>
    obtain ⟨_,rfl⟩ := Prod.mk.inj (Option.some.inj done)
    rfl
  | cons cmu cmus ih =>
    rw [prehCmus] at done
    cases status : answers i (0x100 + cmu) with
    | none =>
      have fails : prehCmu answers i cmu cell pp = some (.error 1,pp) := by
        rw [prehCmu,status]
        rfl
      obtain ⟨_,rfl⟩ := Prod.mk.inj (Option.some.inj ((bind_error fails).symm.trans done))
      rw [allWords,status]
      rfl
    | some data =>
      rw [allWords,status]
      rcases bind_inv done with ⟨code,failed,_⟩ | ⟨last,mid,ran,goes⟩
      · obtain ⟨same,_⟩ := prehCmu_cells answers i cmu cell pp t (.error code) full data status failed
        contradiction
      · obtain ⟨same,cells,stored⟩ := prehCmu_cells answers i cmu cell pp mid (.ok last) full data status ran
        obtain rfl := Except.ok.inj same
        simp only [List.map_append,putAll_append,stored,Option.bind_some,List.length_map]
        exact ih (i + 1) _ mid cells goes

private theorem prehRead_cells (info : PrehInfo) (answers : Answers) (pp t : PackInfo) (code : Int)
    (returned : returns (prehRead info answers) (prehNew pp) = some (code,t)) :
    putAll pp.cellvolt 0 ((allWords answers info.cmus 0 0).map decode) = some t.cellvolt := by
  obtain ⟨⟨r,u⟩,ran,same⟩ := Option.map_eq_some_iff.mp returned
  rw [prehRead,bind_modify] at ran
  have stored := prehCmus_cells answers info.cmus 0 0 { prehNew pp with ntemps := 0 } u r rfl ran
  cases r with
  | error code' =>
    obtain ⟨_,rfl⟩ := Prod.mk.inj same
    exact stored
  | ok a =>
    obtain ⟨_,rfl⟩ := Prod.mk.inj same
    exact stored

/-! The voltages by their place. -/

private theorem pairs_at (data : Frame) (m : Nat) (inside : m < 3) :
    (pairs data)[m]? = some (byteAt data (2 * m),byteAt data (2 * m + 1)) := by
  match m with
  | 0 => rfl
  | 1 => rfl
  | 2 => rfl

private theorem word_at (fs : List Frame) (c : Nat) : (fs.flatMap pairs)[c]? =
    fs[c / 3]?.map fun data => (byteAt data (2 * (c % 3)),byteAt data (2 * (c % 3) + 1)) := by
  induction fs generalizing c with
  | nil => simp
  | cons data fs ih =>
    have three : (pairs data).length = 3 := rfl
    rw [List.flatMap_cons]
    by_cases own : c < 3
    · rw [List.getElem?_append_left (by omega),pairs_at data c own,Nat.div_eq_of_lt own,Nat.mod_eq_of_lt own]
      rfl
    · obtain ⟨d,rfl⟩ : ∃ d, c = d + 3 := ⟨c - 3,by omega⟩
      rw [List.getElem?_append_right (by omega),three,Nat.add_sub_cancel,ih,Nat.add_div_right d (by decide),
        Nat.add_mod_right,List.getElem?_cons_succ]

private theorem present_append (frames : Nat → Option Frame) (m n j : Nat) :
    present frames (m + n) j = present frames m j ++ present frames n (j + m) := by
  rw [present,present,present,← List.filterMap_append,List.range'_append_1]

private theorem present_all (frames : Nat → Option Frame) (left j : Nat)
    (all : ∀ k, j ≤ k → k < j + left → frames k ≠ none) :
    (present frames left j).length = left ∧ ∀ k < left, (present frames left j)[k]? = frames (j + k) := by
  induction left generalizing j with
  | zero => exact ⟨rfl,fun k below => absurd below (by omega)⟩
  | succ left ih =>
    obtain ⟨data,came⟩ := Option.ne_none_iff_exists'.mp (all j le_rfl (by omega))
    obtain ⟨length,rest⟩ := ih (j + 1) fun k above below => all k (by omega) (by omega)
    have starts : present frames (left + 1) j = data :: present frames left (j + 1) := by
      rw [present,List.range'_succ,List.filterMap_cons_some came,present]
    rw [starts]
    refine ⟨by rw [List.length_cons,length],fun k below => ?_⟩
    cases k with
    | zero => exact came.symm
    | succ k =>
      rw [List.getElem?_cons_succ,rest k (by omega)]
      congr 1
      omega

private theorem cell_after {info : PrehInfo} {answers : Answers} {cmu : Int} (only : info.cmus = [cmu]) {pp t : PackInfo}
    {code : Int} (returned : returns (prehRead info answers) (prehNew pp) = some (code,t)) (data : Frame)
    (status : answers 0 (0x100 + cmu) = some data) (c : Nat) (inside : c < 14) :
    t.cellvolt[c]? = match (readings answers 0 cmu)[c]? with
      | none => pp.cellvolt[c]?
      | some w => some (decode w) := by
  have stored := prehRead_cells info answers pp t code returned
  have small : c < maxCells := by
    simp only [maxCells]
    omega
  have listed : allWords answers info.cmus 0 0 = (readings answers 0 cmu).take 14 := by
    rw [only,allWords,status]
    simp only [allWords,List.append_nil]
    rfl
  have taken : ((readings answers 0 cmu).take 14)[c]? = (readings answers 0 cmu)[c]? := List.getElem?_take_of_lt inside
  rw [Vector.getElem?_eq_getElem small,putAll_getElem stored c small,if_pos (Nat.zero_le c),Nat.sub_zero,listed,
    List.getElem?_map,taken]
  cases (readings answers 0 cmu)[c]? with
  | none => exact (Vector.getElem?_eq_getElem small).symm
  | some w => rfl

/-! One CMU. -/

/-- The voltages of a read from `pp` to `t`: what is changed is the cell's own value, and
a cell whose frame is missing holds neither that of a later cell nor what it held. -/
structure Positioned (frames : Nat → Option Frame) (pp t : PackInfo) : Prop where
  placed : ∀ c < 14, ∀ data, frames (2 + c / 3) = some data → t.cellvolt[c]? ≠ pp.cellvolt[c]? →
    t.cellvolt[c]? = some (voltage data (c % 3))
  own : ∀ c < 14, frames (2 + c / 3) = none → ∀ d, c < d → d < 15 → ∀ data, frames (2 + d / 3) = some data →
    t.cellvolt[c]? ≠ some (voltage data (d % 3))
  fresh : ∀ c < 14, frames (2 + c / 3) = none → t.cellvolt[c]? ≠ pp.cellvolt[c]?

private theorem readings_at {answers : Answers} {i : Nat} {cmu : Int} {c : Nat} {w : Byte × Byte}
    (read : (readings answers i cmu)[c]? = some w) :
    ∃ data, (present (cellFrame answers i cmu) 5 2)[c / 3]? = some data ∧ decode w = voltage data (c % 3) := by
  obtain ⟨inside,same⟩ := List.getElem?_eq_some_iff.mp read
  have starts : readings answers i cmu <+: (present (cellFrame answers i cmu) 5 2).flatMap pairs :=
    List.takeWhile_prefix _
  have word : ((present (cellFrame answers i cmu) 5 2).flatMap pairs)[c]? = some w := by
    rw [List.getElem?_eq_getElem (Nat.lt_of_lt_of_le inside starts.length_le),← starts.getElem inside,same]
  rw [word_at] at word
  obtain ⟨data,here,rfl⟩ := Option.map_eq_some_iff.mp word
  exact ⟨data,here,rfl⟩

private theorem positioned_of_all {info : PrehInfo} {answers : Answers} {cmu : Int} (only : info.cmus = [cmu])
    {pp t : PackInfo}
    {code : Int} (returned : returns (prehRead info answers) (prehNew pp) = some (code,t)) (data : Frame)
    (status : answers 0 (0x100 + cmu) = some data) (all : ∀ j, 2 ≤ j → j ≤ 6 → cellFrame answers 0 cmu j ≠ none) :
    Positioned (cellFrame answers 0 cmu) pp t := by
  obtain ⟨_,listed⟩ := present_all (cellFrame answers 0 cmu) 5 2
    fun k above below => all k above (by omega)
  refine ⟨fun c inside own came changed => ?_,fun c inside missing => ?_,fun c inside missing => ?_⟩
  · rw [cell_after only returned data status c inside] at changed ⊢
    cases read : (readings answers 0 cmu)[c]? with
    | none =>
      rw [read] at changed
      exact absurd rfl changed
    | some w =>
      obtain ⟨found,here,value⟩ := readings_at read
      rw [listed (c / 3) (by omega),came] at here
      obtain rfl := Option.some.inj here
      simp only [value]
  · exact absurd missing (all (2 + c / 3) (by omega) (by omega))
  · exact absurd missing (all (2 + c / 3) (by omega) (by omega))

/-- The first cell of the first frame that is missing is not filled, or is filled with
the voltage of a later one. -/
private theorem not_positioned_of_first {info : PrehInfo} {answers : Answers} {cmu : Int} (only : info.cmus = [cmu])
    {pp t : PackInfo} {code : Int} (returned : returns (prehRead info answers) (prehNew pp) = some (code,t))
    (data : Frame) (status : answers 0 (0x100 + cmu) = some data) {j : Nat} (low : 2 ≤ j) (high : j ≤ 6)
    (missing : cellFrame answers 0 cmu j = none) (before : ∀ k, 2 ≤ k → k < j → cellFrame answers 0 cmu k ≠ none) :
    ¬ Positioned (cellFrame answers 0 cmu) pp t := by
  intro positioned
  obtain ⟨c,place⟩ : ∃ c, c = 3 * (j - 2) := ⟨_,rfl⟩
  have digit : 2 + c / 3 = j := by omega
  have none : cellFrame answers 0 cmu (2 + c / 3) = none := by rw [digit,missing]
  have after := cell_after only returned data status c (by omega)
  cases read : (readings answers 0 cmu)[c]? with
  | none =>
    rw [read] at after
    exact positioned.fresh c (by omega) none after
  | some w =>
    rw [read] at after
    obtain ⟨found,here,value⟩ := readings_at read
    obtain ⟨length,_⟩ := present_all (cellFrame answers 0 cmu) (j - 2) 2
      fun l above under => before l above (by omega)
    have split : present (cellFrame answers 0 cmu) 5 2 =
        present (cellFrame answers 0 cmu) (j - 2) 2 ++ present (cellFrame answers 0 cmu) (7 - j) j := by
      have parts := present_append (cellFrame answers 0 cmu) (j - 2) (7 - j) 2
      rwa [show j - 2 + (7 - j) = 5 by omega,show 2 + (j - 2) = j by omega] at parts
    rw [split,List.getElem?_append_right (by omega)] at here
    obtain ⟨l,listed,came⟩ := List.mem_filterMap.mp (List.mem_of_getElem? here)
    obtain ⟨above,under⟩ := List.mem_range'_1.mp listed
    have later : j < l := by
      refine Nat.lt_of_le_of_ne above fun same => ?_
      rw [← same,missing] at came
      contradiction
    refine positioned.own c (by omega) none (3 * (l - 2)) (by omega) (by omega) found ?_ ?_
    · rw [show 2 + 3 * (l - 2) / 3 = l by omega,came]
    · rw [after]
      simp only [value]
      rw [show 3 * (l - 2) % 3 = c % 3 by omega]

private theorem not_positioned_of_missing {info : PrehInfo} {answers : Answers} {cmu : Int} (only : info.cmus = [cmu])
    {pp t : PackInfo} {code : Int} (returned : returns (prehRead info answers) (prehNew pp) = some (code,t))
    (data : Frame) (status : answers 0 (0x100 + cmu) = some data) {j : Nat} (low : 2 ≤ j) (high : j ≤ 6)
    (missing : cellFrame answers 0 cmu j = none) : ¬ Positioned (cellFrame answers 0 cmu) pp t := by
  intro positioned
  induction j using Nat.strong_induction_on with
  | h j ih =>
    by_cases earlier : ∃ k < j, 2 ≤ k ∧ cellFrame answers 0 cmu k = none
    · obtain ⟨k,less,two,none⟩ := earlier
      exact ih k less two (by omega) none
    · refine not_positioned_of_first only returned data status low high missing (fun k two less none => ?_) positioned
      exact earlier ⟨k,less,two,none⟩

/-! Several CMUs. -/

/-- A CMU whose status comes after fourteen voltages or more brings none. -/
def NoneLate (answers : Answers) : List Int → (i total : Nat) → Prop
  | [], _, _ => True
  | cmu :: cmus, i, total => answers i (0x100 + cmu) ≠ none →
      (14 ≤ total → readings answers i cmu = []) ∧
        NoneLate answers cmus (i + 1) (total + (readings answers i cmu).length)

private theorem noneLate_iff (answers : Answers) (cmus : List Int) (i total : Nat) :
    NoneLate answers cmus i total ↔ min 14 total + (allWords answers cmus i (min 14 total)).length ≤ 14 := by
  induction cmus generalizing i total with
  | nil =>
    simp only [NoneLate,allWords,List.length_nil,true_iff]
    omega
  | cons cmu cmus ih =>
    rw [NoneLate,allWords]
    cases status : answers i (0x100 + cmu) with
    | none =>
      simp only [ne_eq,not_true_eq_false,false_imp_iff,List.length_nil,true_iff]
      omega
    | some data =>
      have taken : (cmuWords answers i cmu (min 14 total)).length =
          min (max 1 (14 - min 14 total)) (readings answers i cmu).length := List.length_take
      simp only [ne_eq,reduceCtorEq,not_false_eq_true,true_imp_iff,List.length_append]
      by_cases late : 14 ≤ total
      · by_cases brings : readings answers i cmu = []
        · have same : min 14 total + (cmuWords answers i cmu (min 14 total)).length =
              min 14 (total + (readings answers i cmu).length) := by
            rw [taken,brings,List.length_nil]
            omega
          rw [ih,← Nat.add_assoc,same]
          exact and_iff_right fun _ => brings
        · have some := List.length_pos_of_ne_nil brings
          exact iff_of_false (fun both => brings (both.1 late)) (by omega)
      · have same : min 14 total + (cmuWords answers i cmu (min 14 total)).length =
            min 14 (total + (readings answers i cmu).length) := by
          rw [taken]
          omega
        rw [ih,← Nat.add_assoc,same]
        exact and_iff_right fun full => absurd full late

private theorem getshort_value {lo hi : Byte} (value : hi &&& 0x0F ≠ 0) : getshort lo hi ≠ 0 := by
  intro zero
  have high : (getshort lo hi).extractLsb' 8 8 = hi &&& 0x0F := BitVec.extractLsb'_append_eq_left
  rw [zero] at high
  exact value high.symm

private theorem decode_value {w : Byte × Byte} (value : w.2 &&& 0x0F ≠ 0) : decode w ≠ 0 := by
  have word : (getshort w.1 w.2).toInt ≠ 0 := fun zero => getshort_value value (BitVec.eq_of_toInt_eq zero)
  rw [decode]
  exact div_ne_zero (by exact_mod_cast word) (by simp)

private theorem allWords_value (answers : Answers) (cmus : List Int) (i cell : Nat) :
    ∀ w ∈ allWords answers cmus i cell, w.2 &&& 0x0F ≠ 0 := by
  induction cmus generalizing i cell with
  | nil => simp [allWords]
  | cons cmu cmus ih =>
    intro w listed
    rw [allWords] at listed
    cases status : answers i (0x100 + cmu) with
    | none =>
      rw [status] at listed
      contradiction
    | some data =>
      rw [status] at listed
      rcases List.mem_append.mp listed with own | later
      · exact of_decide_eq_true (List.all_eq_true.mp List.all_takeWhile w (List.mem_of_mem_take own))
      · exact ih _ _ w later

def Bounded (pp t : PackInfo) : Prop := ∀ c, 14 ≤ c → t.cellvolt[c]? = pp.cellvolt[c]?

private theorem bounded_of_few {info : PrehInfo} {answers : Answers} {pp t : PackInfo} {code : Int}
    (few : (allWords answers info.cmus 0 0).length ≤ 14)
    (returned : returns (prehRead info answers) (prehNew pp) = some (code,t)) : Bounded pp t := by
  have stored := prehRead_cells info answers pp t code returned
  intro c above
  by_cases inside : c < maxCells
  · have none : ((allWords answers info.cmus 0 0).map decode)[c - 0]? = none :=
      List.getElem?_eq_none (by rw [List.length_map]; omega)
    rw [Vector.getElem?_eq_getElem inside,Vector.getElem?_eq_getElem inside,putAll_getElem stored c inside,
      if_pos (Nat.zero_le c),none,Option.getD_none]
  · rw [Vector.getElem?_eq_none (by omega),Vector.getElem?_eq_none (by omega)]

private theorem few_of_bounded {info : PrehInfo} {answers : Answers} {t : PackInfo} {code : Int}
    (returned : returns (prehRead info answers) (prehNew blankPack) = some (code,t)) (bounded : Bounded blankPack t) :
    (allWords answers info.cmus 0 0).length ≤ 14 := by
  by_contra many
  have stored := prehRead_cells info answers blankPack t code returned
  have inside : 14 < (allWords answers info.cmus 0 0).length := by omega
  have value := decode_value (allWords_value answers info.cmus 0 0 _ (List.getElem_mem inside))
  have same := bounded 14 le_rfl
  rw [Vector.getElem?_eq_getElem (by decide),putAll_getElem stored 14 (by decide),if_pos (Nat.zero_le 14),Nat.sub_zero,
    List.getElem?_map,List.getElem?_eq_getElem inside] at same
  exact value (Option.some.inj same)

/-! Together. -/

theorem returns_iff (info : PrehInfo) (answers : Answers) (pp : PackInfo) :
    (∃ code t, returns (prehRead info answers) (prehNew pp) = some (code,t)) ↔
      probed answers info.cmus 0 ≤ maxTemps := by
  rcases prehRead_cases info answers pp with ⟨few,t,done | ⟨done,_⟩⟩ | ⟨many,done⟩
  · exact iff_of_true ⟨1,t,by rw [returns,done]; rfl⟩ few
  · exact iff_of_true ⟨0,t,by rw [returns,done]; rfl⟩ few
  · exact iff_of_false (by simp [returns,done]) (by omega)

private theorem one_returns {info : PrehInfo} {answers : Answers} {cmu : Int} (only : info.cmus = [cmu]) (data : Frame)
    (status : answers 0 (0x100 + cmu) = some data) (pp : PackInfo) :
    ∃ t, returns (prehRead info answers) (prehNew pp) = some (0,t) := by
  have few : probed answers info.cmus 0 ≤ maxTemps := by
    rw [only,probed,status,probed]
    simp only [maxTemps]
    split <;> omega
  obtain ⟨code,t,returned⟩ := (returns_iff info answers pp).mpr few
  have ran := returned
  rw [returns,prehRead,bind_modify,only,prehCmus] at ran
  cases first : prehCmu answers 0 cmu 0 { prehNew pp with ntemps := 0 } with
  | none =>
    rw [bind_none first] at ran
    contradiction
  | some ends =>
    obtain ⟨r,mid⟩ := ends
    obtain ⟨rfl,_⟩ := prehCmu_cells answers 0 cmu 0 { prehNew pp with ntemps := 0 } mid r rfl data status first
    rw [bind_ok first] at ran
    obtain ⟨rfl,rfl⟩ := Prod.mk.inj (Option.some.inj ran)
    exact ⟨mid,returned⟩

/-- The cells of one CMU are in their places, and no read leaves the cells that are
counted. -/
def InPlace (info : PrehInfo) (answers : Answers) : Prop :=
  (∀ cmu, info.cmus = [cmu] → ∀ pp t, returns (prehRead info answers) (prehNew pp) = some (0,t) →
    Positioned (cellFrame answers 0 cmu) pp t) ∧
  ∀ pp, ∃ code t, returns (prehRead info answers) (prehNew pp) = some (code,t) ∧ Bounded pp t

/-- All of the frames of a single CMU have to come once it has a status; of several, none
may bring a voltage behind fourteen others. -/
theorem inPlace_iff (info : PrehInfo) (answers : Answers) : InPlace info answers ↔
    (∀ cmu, info.cmus = [cmu] → answers 0 (0x100 + cmu) ≠ none →
      ∀ j, 2 ≤ j → j ≤ 6 → answers 0 (0x100 + (j * 16 : Nat) + cmu) ≠ none) ∧
    probed answers info.cmus 0 ≤ maxTemps ∧ NoneLate answers info.cmus 0 0 := by
  have length : NoneLate answers info.cmus 0 0 ↔ (allWords answers info.cmus 0 0).length ≤ 14 := by
    rw [noneLate_iff,Nat.min_zero,Nat.zero_add]
  rw [length]
  constructor
  · rintro ⟨positioned,bounded⟩
    refine ⟨fun cmu only asked j low high missing => ?_,?_,?_⟩
    · obtain ⟨data,status⟩ := Option.ne_none_iff_exists'.mp asked
      obtain ⟨t,returned⟩ := one_returns only data status blankPack
      exact not_positioned_of_missing only returned data status low high missing (positioned cmu only blankPack t returned)
    · obtain ⟨code,t,returned,_⟩ := bounded blankPack
      exact (returns_iff info answers blankPack).mp ⟨code,t,returned⟩
    · obtain ⟨code,t,returned,kept⟩ := bounded blankPack
      exact few_of_bounded returned kept
  · rintro ⟨all,few,room⟩
    refine ⟨fun cmu only pp t returned => ?_,fun pp => ?_⟩
    · cases status : answers 0 (0x100 + cmu) with
      | none =>
        -- Without a status the read fails.
        have fails : returns (prehRead info answers) (prehNew pp) = some (1,{ prehNew pp with ntemps := 0 }) := by
          rw [returns,prehRead,bind_modify,only,prehCmus,bind_error (by rw [prehCmu,status]; rfl)]
          rfl
        exact absurd (Prod.mk.inj (Option.some.inj (fails.symm.trans returned))).1 (by decide)
      | some data =>
        exact positioned_of_all only returned data status (all cmu only (by rw [status]; simp))
    · obtain ⟨code,t,returned⟩ := (returns_iff info answers pp).mpr few
      exact ⟨code,t,returned,bounded_of_few room returned⟩

/-- The first frame with voltages is missing, and the second takes its place. -/
theorem missing_frame : ¬ ∀ (info : PrehInfo) (answers : Answers), InPlace info answers := by
  intro claimed
  obtain ⟨info,only⟩ : ∃ info : PrehInfo, info.cmus = [0] := ⟨⟨[0],by decide⟩,rfl⟩
  obtain ⟨answers,sent⟩ : ∃ answers : Answers, answers = fun _ id =>
      if id = 0x100 then some (Vector.replicate 8 0) else if id = 0x130 then some #v[0xE4,0x0C,0xE4,0x0C,0xE4,0x0C,0,0]
      else none := ⟨_,rfl⟩
  have status : answers 0 (0x100 + 0) = some (Vector.replicate 8 0) := by rw [sent]; rfl
  have missing : cellFrame answers 0 0 2 = none := by rw [cellFrame,sent]; rfl
  obtain ⟨t,returned⟩ := one_returns only _ status blankPack
  have positioned := (claimed info answers).1 0 only blankPack t returned
  exact not_positioned_of_missing only returned _ status (by decide) (by decide) missing positioned

end Mybmm.PrehCells
