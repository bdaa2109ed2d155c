import Mybmm.Jbd

/-! The same registers of a battery monitor, sent in packets over the serial line
and in frames over CAN, and the packs that jbd.c makes of them. -/
namespace Mybmm.JbdAgree
open Config Flags Arrays Cellmon Routine Jbd

structure Registers where
  voltage : BitVec 16
  current : BitVec 16
  remaining : BitVec 16
  nominal : BitVec 16
  cycles : BitVec 16
  date : BitVec 16
  balanceLow : BitVec 16
  balanceHigh : BitVec 16
  protection : BitVec 16
  version : Byte
  percent : Byte
  fetbits : Byte
  temps : List (BitVec 16)
  cells : List (BitVec 16)
  probes : 1 ≤ temps.length ∧ temps.length ≤ 6
  strings : cells.length ≤ 30

def bytes (w : BitVec 16) : List Byte := [w.extractLsb' 8 8,w.extractLsb' 0 8]

@[simp] theorem getshort_bytes (w : BitVec 16) : getshort (w.extractLsb' 8 8) (w.extractLsb' 0 8) = w :=
  BitVec.extractLsb'_append_extractLsb'

private theorem bytes_at (ws : List (BitVec 16)) (k : Nat) (inside : k < ws.length) :
    (ws.flatMap bytes)[2 * k]? = some (ws[k].extractLsb' 8 8) ∧
      (ws.flatMap bytes)[2 * k + 1]? = some (ws[k].extractLsb' 0 8) := by
  induction ws generalizing k with
  | nil => simp at inside
  | cons w ws ih =>
    cases k with
    | zero => simp [bytes]
    | succ k =>
      have next := ih k (by simpa using inside)
      have double : 2 * (k + 1) = 2 * k + 2 := by omega
      simpa [bytes,double] using next

private theorem words_of_bytes {n : Nat} (data : Vector Byte n) (base : Nat) (ws : List (BitVec 16))
    (holds : ∀ k, k < 2 * ws.length → data[base + k]? = (ws.flatMap bytes)[k]?) :
    (List.range' 0 ws.length).map (fun k => wordAt data (base + 2 * k)) = ws := by
  apply List.ext_getElem
  · simp
  · intro k left right
    obtain ⟨hi,lo⟩ := bytes_at ws k right
    have first : data[base + 2 * k]? = some (ws[k].extractLsb' 8 8) := (holds (2 * k) (by omega)).trans hi
    have second : data[base + 2 * k + 1]? = some (ws[k].extractLsb' 0 8) :=
      (holds (2 * k + 1) (by omega)).trans lo
    simp [wordAt,first,second]

theorem serialWords_holds (write : Nat → ℚ → PackInfo → Option PackInfo) (decode : BitVec 16 → ℚ)
    (data : Vector Byte 128) (base : Nat) (ws : List (BitVec 16)) (pp : PackInfo) (fits : base + 2 * ws.length ≤ 128)
    (holds : ∀ k, k < 2 * ws.length → data[base + k]? = (ws.flatMap bytes)[k]?) :
    serialWords write decode data base ws.length 0 pp = writeAll write 0 (ws.map decode) pp := by
  have same := congrArg (List.map decode) (words_of_bytes data base ws holds)
  rw [List.map_map] at same
  rw [serialWords_inside write decode data base ws.length 0 pp (by omega),← same]
  rfl

private theorem filled_behind {n : Nat} {v : Vector Byte n} (before after : List Byte)
    (held : filled n 0 (before ++ after) = some v) (k : Nat) (inside : k < after.length)
    (fits : before.length + after.length ≤ n) : v[before.length + k]? = after[k]? := by
  have bound : before.length + k < n := by omega
  rw [Vector.getElem?_eq_getElem bound,filled_getElem held _ bound,List.getElem?_append_right (by omega),
    Nat.add_sub_cancel_left,List.getElem?_eq_getElem inside,Option.getD_some]

/-! Packets. -/

def packet (reg : Byte) (data : List Byte) : List Byte :=
  0xDD :: reg :: 0 :: BitVec.ofNat 8 data.length ::
    (data ++ bytes (jbdCrc (0 :: BitVec.ofNat 8 data.length :: data)) ++ [0x77])

private theorem jbdVerify_packet (reg : Byte) (data : List Byte) (fits : data.length ≤ 249) :
    jbdVerify (packet reg data) = some data := by
  have length : (BitVec.ofNat 8 data.length).toNat = data.length := by
    rw [BitVec.toNat_ofNat]
    omega
  simp [jbdVerify,packet,bytes,length]

def hwinfoHeader (r : Registers) : List Byte :=
  bytes r.voltage ++ bytes r.current ++ bytes r.remaining ++ bytes r.nominal ++ bytes r.cycles ++ bytes r.date ++
    bytes r.balanceLow ++ bytes r.balanceHigh ++ bytes r.protection ++
    [r.version,r.percent,r.fetbits,BitVec.ofNat 8 r.cells.length,BitVec.ofNat 8 r.temps.length]

def hwinfoData (r : Registers) : List Byte := hwinfoHeader r ++ r.temps.flatMap bytes

def serial (r : Registers) : Replies := fun reg _ =>
  if reg = jbdCmdHwinfo then some (packet 0x03 (hwinfoData r)) else some (packet 0x04 (r.cells.flatMap bytes))

/-! Frames. -/

def frame (a b c : BitVec 16) : List Byte :=
  let body := bytes a ++ bytes b ++ bytes c
  body ++ bytes (jbdCanCrc (padded body))

/-- The words three to a frame, and zeros in the room that is left. -/
def frames : Nat → List (BitVec 16) → List (List Byte)
  | 0, _ => []
  | q + 1, ws => frame (ws[0]?.getD 0) (ws[1]?.getD 0) (ws[2]?.getD 0) :: frames q (ws.drop 3)

def can (r : Registers) : Replies := fun id _ =>
  if id = 0x102 then some (frame r.balanceLow r.balanceHigh r.protection)
  else if id = 0x103 then some (frame (r.fetbits.setWidth 16) r.date (r.version ++ r.percent))
  else if id = 0x104 then some (frame (BitVec.ofNat 8 r.cells.length ++ BitVec.ofNat 8 r.temps.length) 0 0)
  else (frames 2 r.temps ++ frames 10 r.cells)[id - 0x105]?

private theorem jbdCanCrc_prefix (body tail : List Byte) (six : body.length = 6) :
    jbdCanCrc (padded (body ++ tail)) = jbdCanCrc (padded body) := by
  have same : (padded (body ++ tail)).toList.take 6 = (padded body).toList.take 6 := by
    apply List.ext_getElem
    · simp
    · intro k left right
      have inside : k < body.length := by
        simp only [List.length_take,Vector.length_toList] at left
        omega
      simp [padded,List.getElem?_append_left inside]
  rw [jbdCanCrc,jbdCanCrc,same]

private theorem jbdCanVerify_frame (a b c : BitVec 16) : jbdCanVerify (padded (frame a b c)) =
    some (padded (frame a b c)) := by
  have crc : getshort (padded (frame a b c))[6] (padded (frame a b c))[7] =
      jbdCanCrc (padded (bytes a ++ bytes b ++ bytes c)) := by
    simp [padded,frame,bytes]
  have covered : jbdCanCrc (padded (frame a b c)) = jbdCanCrc (padded (bytes a ++ bytes b ++ bytes c)) :=
    jbdCanCrc_prefix _ _ rfl
  rw [jbdCanVerify,if_pos (Or.inr (crc.trans covered.symm))]

theorem words_frame (a b c : BitVec 16) : words (padded (frame a b c)) = [a,b,c] := by
  simp [words,padded,frame,bytes]

theorem frame_bytes (x y : Byte) (b c : BitVec 16) :
    (padded (frame (x ++ y) b c)).get 0 = x ∧ (padded (frame (x ++ y) b c)).get 1 = y := by
  change (padded (frame (x ++ y) b c))[0] = x ∧ (padded (frame (x ++ y) b c))[1] = y
  simp only [padded,frame,bytes,Vector.getElem_ofFn]
  exact ⟨BitVec.extractLsb'_append_eq_left,BitVec.extractLsb'_append_eq_right⟩

private theorem frames_words (q : Nat) (ws : List (BitVec 16)) (fits : ws.length ≤ 3 * q) :
    (((frames q ws).map padded).flatMap words).take ws.length = ws := by
  induction q generalizing ws with
  | zero =>
    have none : ws = [] := List.length_eq_zero_iff.mp (by omega)
    simp [none]
  | succ q ih =>
    match ws with
    | [] => simp
    | [a] => simp [frames,words_frame]
    | [a,b] => simp [frames,words_frame]
    | a :: b :: c :: rest =>
      have later := ih rest (by simp only [List.length_cons] at fits; omega)
      simpa [frames,words_frame] using later

private theorem frames_length (q : Nat) (ws : List (BitVec 16)) : (frames q ws).length = q := by
  induction q generalizing ws with
  | zero => rfl
  | succ q ih => simp [frames,ih]

private theorem frames_frame (q : Nat) (ws : List (BitVec 16)) : ∀ bytes ∈ frames q ws, ∃ a b c, bytes = frame a b c := by
  induction q generalizing ws with
  | zero => simp [frames]
  | succ q ih =>
    intro bytes member
    rcases List.mem_cons.mp member with rfl | later
    · exact ⟨_,_,_,rfl⟩
    · exact ih _ bytes later

theorem jbdCanGetCrc_frame (bus : Replies) (id : Nat) (a b c : BitVec 16) (sent : bus id 0 = some (frame a b c)) :
    jbdCanGetCrc bus id = some (padded (frame a b c)) := by
  simp [jbdCanGetCrc,attempt,sent,jbdCanVerify_frame]

private theorem frames_available (bus : Replies) (id q : Nat) (ws : List (BitVec 16))
    (sent : ∀ j, j < q → bus (id + j) 0 = (frames q ws)[j]?) (j : Nat) (inside : j < ((frames q ws).map padded).length) :
    jbdCanGetCrc bus (id + j) = some ((frames q ws).map padded)[j] := by
  have bound : j < (frames q ws).length := by simpa using inside
  obtain ⟨a,b,c,same⟩ := frames_frame q ws _ (List.getElem_mem bound)
  have reply := sent j (by rwa [frames_length] at bound)
  rw [List.getElem?_eq_getElem bound,same] at reply
  rw [jbdCanGetCrc_frame bus _ a b c reply,List.getElem_map,same]

/-! What the decoders make of them. -/

private theorem packet_whole (reg : Byte) (data : List Byte) (fits : data.length ≤ 249) :
    jbdVerify ((packet reg data).take 256) = some data := by
  have short : (packet reg data).length ≤ 256 := by
    simp [packet,bytes]
    omega
  rw [List.take_of_length_le short,jbdVerify_packet reg data fits]

theorem bytes_length (ws : List (BitVec 16)) : (ws.flatMap bytes).length = 2 * ws.length := by
  induction ws with
  | nil => rfl
  | cons w ws ih =>
    simp only [List.flatMap_cons,List.length_append,ih,List.length_cons,bytes,List.length_nil]
    omega

private theorem hwinfoData_length (r : Registers) : (hwinfoData r).length = 23 + 2 * r.temps.length := by
  rw [hwinfoData,List.length_append,bytes_length]
  rfl

/-- What both decoders agree on whatever the registers are. -/
structure Decoded (s : JbdSession) (r : Registers) (pp : PackInfo) : Prop where
  balancebits : pp.balancebits = r.balanceLow.signExtend 32 ||| (r.balanceHigh.signExtend 32 <<< 16)
  charging : check pp.state PackState.charging = decide (r.fetbits.setWidth 16 &&& jbdMosCharge ≠ 0)
  balancing : check pp.state PackState.balancing = decide (s.balancing ≠ 0)
  cells : pp.cells = r.cells.length
  ntemps : pp.ntemps = r.temps.length
  temps : ∀ i (inside : i < r.temps.length), pp.temps[i]? = some (ctemp r.temps[i])
  cellvolt : ∀ i (inside : i < r.cells.length), pp.cellvolt[i]? = some (millivolts r.cells[i])

private theorem written_at {n : Nat} {v w : Vector ℚ n} {vs : List ℚ} (done : putAll v 0 vs = some w) (i : Nat)
    (listed : i < vs.length) (inside : i < n) : w[i]? = some vs[i] := by
  rw [Vector.getElem?_eq_getElem inside,putAll_getElem done i inside]
  simp [listed]

private theorem hwinfo_fields (s : JbdSession) (r : Registers) (data : Vector Byte 128)
    (held : filled 128 0 (hwinfoData r) = some data) (pp : PackInfo) :
    (hwinfo s data pp).balancebits = r.balanceLow.signExtend 32 ||| (r.balanceHigh.signExtend 32 <<< 16) ∧
      check (hwinfo s data pp).state PackState.charging = decide (r.fetbits.setWidth 16 &&& jbdMosCharge ≠ 0) ∧
      check (hwinfo s data pp).state PackState.discharging = true ∧
      check (hwinfo s data pp).state PackState.balancing = decide (s.balancing ≠ 0) ∧
      (hwinfo s data pp).cells = r.cells.length ∧ (hwinfo s data pp).ntemps = r.temps.length := by
  have reads (k : Nat) (inside : k < 128) : data[k] = (hwinfoData r)[k]?.getD 0 := filled_getElem held k inside
  have cells : (BitVec.ofNat 8 r.cells.length).toNat = r.cells.length := by
    have strings := r.strings
    rw [BitVec.toNat_ofNat]
    omega
  have ntemps : (BitVec.ofNat 8 r.temps.length).toNat = r.temps.length := by
    have probes := r.probes
    rw [BitVec.toNat_ofNat]
    omega
  have low : getshort data[12] data[13] = r.balanceLow := by simp [reads,hwinfoData,hwinfoHeader,bytes]
  have high : getshort data[14] data[15] = r.balanceHigh := by simp [reads,hwinfoData,hwinfoHeader,bytes]
  have fetbits : data[20] = r.fetbits := by simp [reads,hwinfoData,hwinfoHeader,bytes]
  have counts : data[21].toNat = r.cells.length ∧ data[22].toNat = r.temps.length := by
    simp [reads,hwinfoData,hwinfoHeader,bytes,cells,ntemps]
  refine ⟨?_,?_,?_,?_,congrArg Nat.cast counts.1,congrArg Nat.cast counts.2⟩
  · simp [hwinfo,setPackState,balance,low,high]
  · simp [hwinfo,setPackState,fetbits]
  · simp [hwinfo,setPackState]
  · simp [hwinfo]

private theorem serial_decoded (s : JbdSession) (r : Registers) (pp : PackInfo) :
    ∃ a, jbdGetPack s (serial r) pp = some (.ok (),a) ∧ Decoded s r a ∧
      check a.state PackState.discharging = true := by
  obtain ⟨_,few⟩ := r.probes
  have strings := r.strings
  have short : (hwinfoData r).length ≤ 128 := by rw [hwinfoData_length]; omega
  have short' : (r.cells.flatMap bytes).length ≤ 128 := by rw [bytes_length]; omega
  have first : jbdRw (serial r) jbdCmdHwinfo = some (hwinfoData r) := by
    simp [jbdRw,attempt,serial,packet_whole _ (hwinfoData r) (by omega)]
  have second : jbdRw (serial r) jbdCmdCellinfo = some (r.cells.flatMap bytes) := by
    simp [jbdRw,attempt,serial,jbdCmdCellinfo,jbdCmdHwinfo,packet_whole _ (r.cells.flatMap bytes) (by omega)]
  obtain ⟨data,held⟩ := Option.isSome_iff_exists.mp ((filled_isSome_iff 0 (hwinfoData r)).mpr short)
  obtain ⟨data',held'⟩ := Option.isSome_iff_exists.mp ((filled_isSome_iff 0 (r.cells.flatMap bytes)).mpr short')
  obtain ⟨balancebits,charging,discharging,balancing,cells,ntemps⟩ := hwinfo_fields s r data held pp
  obtain ⟨temps,wrote⟩ := putAll_some (hwinfo s data pp).temps 0 (r.temps.map ctemp)
    (by simp only [List.length_map,maxTemps]; omega)
  obtain ⟨cellvolt,wrote'⟩ := putAll_some (hwinfo s data pp).cellvolt 0 (r.cells.map millivolts)
    (by simp only [List.length_map,maxCells]; omega)
  have read : serialTemps data (hwinfo s data pp) = some (withTemps (hwinfo s data pp) temps) := by
    rw [serialTemps,ntemps,Int.toNat_natCast,serialWords_holds _ _ _ _ _ _ (by omega) fun k inside => ?_,
      writeAll_temps,wrote]
    · rfl
    · exact filled_behind (hwinfoHeader r) _ held k (by rwa [bytes_length]) (by rwa [hwinfoData,List.length_append] at short)
  have read' : serialCells data' (withTemps (hwinfo s data pp) temps) =
      some (withCellvolt (withTemps (hwinfo s data pp) temps) cellvolt) := by
    have counted : (withTemps (hwinfo s data pp) temps).cells = r.cells.length := cells
    rw [serialCells,counted,Int.toNat_natCast,serialWords_holds _ _ _ _ _ _ (by omega) fun k inside => ?_,
      writeAll_cells]
    · exact congrArg (Option.map _) wrote'
    · exact filled_behind [] (r.cells.flatMap bytes) held' k (by rwa [bytes_length]) (by rwa [List.length_nil,Nat.zero_add])
  refine ⟨withCellvolt (withTemps (hwinfo s data pp) temps) cellvolt,?_,?_,discharging⟩
  · rw [jbdGetPack,first,bind_some,held,bind_index,bind_modify,bind_update_some read,second,bind_some,held',bind_index,
      update,read']
    rfl
  · refine ⟨balancebits,charging,balancing,cells,ntemps,fun i inside => ?_,fun i inside => ?_⟩
    · have value := written_at wrote i (by simpa using inside) (by simp only [maxTemps]; omega)
      exact value.trans (by simp)
    · have value := written_at wrote' i (by simpa using inside) (by simp only [maxCells]; omega)
      exact value.trans (by simp)

private theorem canWords_sent (bus : Replies) (write : Nat → ℚ → PackInfo → Option PackInfo) (decode : BitVec 16 → ℚ)
    (count : PackInfo → Int) (keeps : ∀ i v pp t, write i v pp = some t → count t = count pp) (id q : Nat)
    (ws : List (BitVec 16)) (pp : PackInfo) (counted : count pp = ws.length) (positive : 0 < q) (fits : ws.length ≤ 3 * q)
    (sent : ∀ j, j < q → bus (id + j) 0 = (frames q ws)[j]?) :
    canWords bus write decode count q id 0 pp =
      (writeAll write 0 ((if ws = [] then [0] else ws).map decode) pp).map fun t => (.ok (),t) := by
  have all := canWords_available bus write decode count keeps ws.length ((frames q ws).map padded) id 0 pp counted
    (frames_available bus id q ws sent)
  have taken : (((frames q ws).map padded).flatMap words).take (max 1 (ws.length - 0)) = if ws = [] then [0] else ws := by
    cases ws with
    | nil =>
      obtain ⟨p,rfl⟩ : ∃ p, q = p + 1 := ⟨q - 1,by omega⟩
      simp [frames,words_frame]
    | cons w ws =>
      have whole := frames_words q (w :: ws) fits
      have size : max 1 ((w :: ws).length - 0) = (w :: ws).length := by simp
      rw [size,whole]
      simp
  rw [List.length_map,frames_length,taken] at all
  exact all

def headed (s : JbdSession) (r : Registers) (pp : PackInfo) : PackInfo :=
  { canState s (r.fetbits.setWidth 16) (balance r.balanceLow r.balanceHigh pp) with
    cells := r.cells.length, ntemps := r.temps.length }

private theorem can_temps (r : Registers) (j : Nat) (inside : j < 2) : can r (0x105 + j) 0 = (frames 2 r.temps)[j]? := by
  have index : 0x105 + j - 0x105 = j := by omega
  rw [can,if_neg (by omega),if_neg (by omega),if_neg (by omega),index,
    List.getElem?_append_left (by rwa [frames_length])]

private theorem can_cells (r : Registers) (j : Nat) : can r (0x107 + j) 0 = (frames 10 r.cells)[j]? := by
  have index : 0x107 + j - 0x105 - 2 = j := by omega
  rw [can,if_neg (by omega),if_neg (by omega),if_neg (by omega),
    List.getElem?_append_right (by rw [frames_length]; omega),frames_length,index]

theorem can_decoded (s : JbdSession) (r : Registers) (pp : PackInfo) :
    ∃ b, jbdCanGetPack s (can r) pp = some (.ok (),b) ∧ Decoded s r b ∧
      check b.state PackState.discharging = decide (r.fetbits.setWidth 16 &&& jbdMosDischarge ≠ 0) := by
  obtain ⟨probe,few⟩ := r.probes
  have strings := r.strings
  have nonempty : r.temps ≠ [] := List.ne_nil_of_length_pos probe
  obtain ⟨temps,wrote⟩ := putAll_some (headed s r pp).temps 0 (r.temps.map ctemp)
    (by simp only [List.length_map,maxTemps]; omega)
  obtain ⟨cellvolt,wrote'⟩ := putAll_some (headed s r pp).cellvolt 0 ((if r.cells = [] then [0] else r.cells).map millivolts)
    (by simp only [List.length_map,maxCells]; split <;> simp; omega)
  have first := jbdCanGetCrc_frame (can r) 0x102 r.balanceLow r.balanceHigh r.protection rfl
  have second := jbdCanGetCrc_frame (can r) 0x103 (r.fetbits.setWidth 16) r.date (r.version ++ r.percent) rfl
  have third := jbdCanGetCrc_frame (can r) 0x104 (BitVec.ofNat 8 r.cells.length ++ BitVec.ofNat 8 r.temps.length) 0 0 rfl
  have read : canTemps (can r) (headed s r pp) = some (.ok (),withTemps (headed s r pp) temps) := by
    rw [canTemps,canWords_sent (can r) putTemp ctemp _ (fun i v pp t done => (putTemp_keeps i v pp t done).2) 0x105 2
      r.temps _ rfl (by decide) few fun j inside => ?_,if_neg nonempty,writeAll_temps,wrote]
    · rfl
    · exact can_temps r j inside
  have read' : canCells (can r) (withTemps (headed s r pp) temps) =
      some (.ok (),withCellvolt (withTemps (headed s r pp) temps) cellvolt) := by
    rw [canCells,canWords_sent (can r) putCell millivolts _ (fun i v pp t done => (putCell_keeps i v pp t done).1) 0x107 10
      r.cells _ rfl (by decide) strings fun j _ => can_cells r j,writeAll_cells]
    exact congrArg (Option.map _) (congrArg (Option.map _) wrote')
  have cells : (BitVec.ofNat 8 r.cells.length).toNat = r.cells.length := by
    rw [BitVec.toNat_ofNat]
    omega
  have ntemps : (BitVec.ofNat 8 r.temps.length).toNat = r.temps.length := by
    rw [BitVec.toNat_ofNat]
    omega
  refine ⟨withCellvolt (withTemps (headed s r pp) temps) cellvolt,?_,?_,?_⟩
  · rw [jbdCanGetPack,first,bind_some,bind_modify,second,bind_some,bind_modify,third,bind_some,bind_modify]
    have word (a b c : BitVec 16) : getshort (padded (frame a b c))[0] (padded (frame a b c))[1] = a ∧
        getshort (padded (frame a b c))[2] (padded (frame a b c))[3] = b := by
      obtain ⟨one,rest⟩ := List.cons.inj (words_frame a b c)
      exact ⟨one,(List.cons.inj rest).1⟩
    have byte (x y : Byte) (b c : BitVec 16) : (padded (frame (x ++ y) b c))[0] = x ∧ (padded (frame (x ++ y) b c))[1] = y :=
      frame_bytes x y b c
    simp only [(word _ _ _).1,(word _ _ _).2,(byte _ _ _ _).1,(byte _ _ _ _).2,cells,ntemps]
    change (canTemps (can r) >>= fun _ => canCells (can r)) (headed s r pp) = _
    rw [bind_ok read]
    exact read'
  · refine ⟨?_,?_,?_,rfl,rfl,fun i inside => ?_,fun i inside => ?_⟩
    · simp [withCellvolt,withTemps,headed,canState,balance]
    · simp [withCellvolt,withTemps,headed,canState]
    · simp [withCellvolt,withTemps,headed,canState]
    · have value := written_at wrote i (by simpa using inside) (by simp only [maxTemps]; omega)
      exact value.trans (by simp)
    · have some : r.cells ≠ [] := List.ne_nil_of_length_pos (by omega)
      rw [if_neg some] at wrote'
      have value := written_at wrote' i (by simpa using inside) (by simp only [maxCells]; omega)
      exact value.trans (by simp)
  · simp [withCellvolt,withTemps,headed,canState]

/-! The two packs. -/

structure Agree (r : Registers) (a b : PackInfo) : Prop where
  balancebits : a.balancebits = b.balancebits
  charging : check a.state PackState.charging = check b.state PackState.charging
  discharging : check a.state PackState.discharging = check b.state PackState.discharging
  balancing : check a.state PackState.balancing = check b.state PackState.balancing
  cells : a.cells = b.cells
  ntemps : a.ntemps = b.ntemps
  temps : ∀ i, i < r.temps.length → a.temps[i]? = b.temps[i]?
  cellvolt : ∀ i, i < r.cells.length → a.cellvolt[i]? = b.cellvolt[i]?

private theorem agree_iff (s : JbdSession) (r : Registers) (a b : PackInfo) (left : Decoded s r a) (right : Decoded s r b) :
    Agree r a b ↔ check a.state PackState.discharging = check b.state PackState.discharging := by
  refine ⟨Agree.discharging,fun same => ?_⟩
  exact ⟨left.balancebits.trans right.balancebits.symm,left.charging.trans right.charging.symm,same,
    left.balancing.trans right.balancing.symm,left.cells.trans right.cells.symm,left.ntemps.trans right.ntemps.symm,
    fun i inside => (left.temps i inside).trans (right.temps i inside).symm,
    fun i inside => (left.cellvolt i inside).trans (right.cellvolt i inside).symm⟩

/-- Both ways of reading a monitor succeed, and agree exactly when it lets the
battery discharge. -/
theorem decoders_agree_iff (s : JbdSession) (r : Registers) (pp : PackInfo) :
    ∃ a b, returns (jbdRead s false (serial r)) pp = some (0,a) ∧ returns (jbdRead s true (can r)) pp = some (0,b) ∧
      (Agree r a b ↔ r.fetbits.setWidth 16 &&& jbdMosDischarge ≠ 0) := by
  obtain ⟨a,first,left,on⟩ := serial_decoded s r pp
  obtain ⟨b,second,right,told⟩ := can_decoded s r pp
  refine ⟨a,b,?_,?_,?_⟩
  · rw [returns,jbdRead,if_neg Bool.false_ne_true,first]
    rfl
  · rw [returns,jbdRead,if_pos rfl,second]
    rfl
  · rw [agree_iff s r a b left right,on,told,eq_comm,decide_eq_true_iff]

def switchedOff : Registers :=
  { voltage := 5000, current := 0, remaining := 0, nominal := 20000, cycles := 0, date := 0, balanceLow := 0
    balanceHigh := 0, protection := 0, version := 0, percent := 0, fetbits := 0, temps := [3031], cells := [3600]
    probes := by decide, strings := by decide }

/-- The serial line has the pack discharging all the same. -/
theorem decoders_disagree :
    (returns (jbdRead ⟨0⟩ false (serial switchedOff)) blankPack).map
        (fun result => (result.1,check result.2.state PackState.discharging)) = some (0,true) ∧
      (returns (jbdRead ⟨0⟩ true (can switchedOff)) blankPack).map
        (fun result => (result.1,check result.2.state PackState.discharging)) = some (0,false) := by
  decide +kernel

end Mybmm.JbdAgree
