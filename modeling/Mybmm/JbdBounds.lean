import Mybmm.Jbd

/-! Where jbd.c stays inside its arrays. Both decoders take the numbers of cells
and probes from the wire; the serial one uses them as they are for its loops. -/
namespace Mybmm.JbdBounds
open Config Flags Arrays Cellmon Routine Jbd

/-! The serial line. -/

def cellsByte (reply : List Byte) : Nat := (reply[21]?.getD 0).toNat

def ntempsByte (reply : List Byte) : Nat := (reply[22]?.getD 0).toNat

/-- The data of each packet fits the buffer, and the counts fit the arrays as soon
as they are used. -/
def SerialWithin (replies : Replies) : Prop :=
  ∀ reply, jbdRw replies jbdCmdHwinfo = some reply → reply.length ≤ 128 ∧ ntempsByte reply ≤ maxTemps ∧
    ∀ volts, jbdRw replies jbdCmdCellinfo = some volts → volts.length ≤ 128 ∧ cellsByte reply ≤ maxCells

theorem hwinfo_counts (s : JbdSession) (reply : List Byte) (data : Vector Byte 128) (held : filled 128 0 reply = some data)
    (pp : PackInfo) : (hwinfo s data pp).cells = cellsByte reply ∧ (hwinfo s data pp).ntemps = ntempsByte reply := by
  have reads (k : Nat) (inside : k < 128) : data[k] = reply[k]?.getD 0 := filled_getElem held k inside
  exact ⟨congrArg Nat.cast (congrArg BitVec.toNat (reads 21 (by decide))),
    congrArg Nat.cast (congrArg BitVec.toNat (reads 22 (by decide)))⟩

def cellinfo (replies : Replies) : Routine PackInfo Unit := do
  let reply ← orReturn 1 (jbdRw replies jbdCmdCellinfo)
  let data ← index (filled 128 0 reply)
  update (serialCells data)

/-- What a driver writes element by element keeps its counts. -/
def KeepsCounts (write : Nat → ℚ → PackInfo → Option PackInfo) : Prop :=
  ∀ i v pp t, write i v pp = some t → t.cells = pp.cells ∧ t.ntemps = pp.ntemps

private theorem writeAll_counts (write : Nat → ℚ → PackInfo → Option PackInfo) (keeps : KeepsCounts write) (i : Nat)
    (vs : List ℚ) (pp t : PackInfo) (done : writeAll write i vs pp = some t) :
    t.cells = pp.cells ∧ t.ntemps = pp.ntemps := by
  have kept := writeAll_keeps (fun pp => (pp.cells,pp.ntemps)) write
    (fun i v pp t done => Prod.ext (keeps i v pp t done).1 (keeps i v pp t done).2) i vs pp t done
  exact ⟨congrArg Prod.fst kept,congrArg Prod.snd kept⟩

private theorem serialWords_cases (write : Nat → ℚ → PackInfo → Option PackInfo) (decode : BitVec 16 → ℚ)
    (data : Vector Byte 128) (base size n : Nat) (room : base + 2 * size ≤ 128)
    (total : ∀ i v pp, i < size → ∃ t, write i v pp = some t) (stuck : ∀ v pp, write size v pp = none)
    (keeps : KeepsCounts write) (pp : PackInfo) :
    (n ≤ size ∧ ∃ t, serialWords write decode data base n 0 pp = some t ∧ t.cells = pp.cells ∧ t.ntemps = pp.ntemps) ∨
      (size < n ∧ serialWords write decode data base n 0 pp = none) := by
  by_cases few : n ≤ size
  · obtain ⟨t,done⟩ := writeAll_total write size total 0
      ((List.range' 0 n).map fun k => decode (wordAt data (base + 2 * k))) pp (by simpa using few)
    rw [serialWords_inside _ _ _ _ _ _ _ (by omega)]
    exact Or.inl ⟨few,t,done,writeAll_counts write keeps 0 _ pp t done⟩
  · exact Or.inr ⟨by omega,serialWords_outside write decode data base size stuck n 0 pp (by omega) (by omega)⟩

theorem serialTemps_cases (data : Vector Byte 128) (n : Nat) (pp : PackInfo) (counted : pp.ntemps = n) :
    (n ≤ maxTemps ∧ ∃ t, serialTemps data pp = some t ∧ t.cells = pp.cells ∧ t.ntemps = pp.ntemps) ∨
      (maxTemps < n ∧ serialTemps data pp = none) := by
  have loop : serialTemps data pp = serialWords putTemp ctemp data 23 n 0 pp := by
    rw [serialTemps,counted,Int.toNat_natCast]
  rw [loop]
  exact serialWords_cases putTemp ctemp data 23 maxTemps n (by decide) putTemp_total
    (fun v pp => putTemp_outside _ v pp le_rfl) putTemp_keeps pp

private theorem serialCells_cases (data : Vector Byte 128) (n : Nat) (pp : PackInfo) (counted : pp.cells = n) :
    (n ≤ maxCells ∧ ∃ t, serialCells data pp = some t ∧ t.cells = pp.cells ∧ t.ntemps = pp.ntemps) ∨
      (maxCells < n ∧ serialCells data pp = none) := by
  have loop : serialCells data pp = serialWords putCell millivolts data 0 n 0 pp := by
    rw [serialCells,counted,Int.toNat_natCast]
  rw [loop]
  exact serialWords_cases putCell millivolts data 0 maxCells n (by decide) putCell_total
    (fun v pp => putCell_outside _ v pp le_rfl) putCell_keeps pp

private theorem filled_cases {n : Nat} (reply : List Byte) :
    (reply.length ≤ n ∧ ∃ data : Vector Byte n, filled n 0 reply = some data) ∨
      (n < reply.length ∧ filled n (0 : Byte) reply = none) := by
  by_cases fits : reply.length ≤ n
  · exact Or.inl ⟨fits,Option.isSome_iff_exists.mp ((filled_isSome_iff 0 reply).mpr fits)⟩
  · refine Or.inr ⟨by omega,?_⟩
    rw [← Option.not_isSome_iff_eq_none,filled_isSome_iff]
    exact fits

private theorem cellinfo_ends (replies : Replies) (pp : PackInfo) (n m : Nat) (cells : pp.cells = n)
    (ntemps : pp.ntemps = m) :
    (jbdRw replies jbdCmdCellinfo = none ∧ cellinfo replies pp = some (.error 1,pp)) ∨
    ∃ volts, jbdRw replies jbdCmdCellinfo = some volts ∧
      (¬(volts.length ≤ 128 ∧ n ≤ maxCells) ∧ cellinfo replies pp = none ∨
        (volts.length ≤ 128 ∧ n ≤ maxCells) ∧
          ∃ t, cellinfo replies pp = some (.ok (),t) ∧ t.cells = n ∧ t.ntemps = m) := by
  cases second : jbdRw replies jbdCmdCellinfo with
  | none => exact Or.inl ⟨rfl,by rw [cellinfo,second]; rfl⟩
  | some volts =>
    refine Or.inr ⟨volts,rfl,?_⟩
    rcases filled_cases (n := 128) volts with ⟨fits,data,held⟩ | ⟨long,held⟩
    · have reach : cellinfo replies pp = update (serialCells data) pp := by
        rw [cellinfo,second,bind_some,held,bind_index]
      rcases serialCells_cases data n pp cells with ⟨few,t,read,same⟩ | ⟨many,read⟩
      · refine Or.inr ⟨⟨fits,few⟩,t,?_,same.1.trans cells,same.2.trans ntemps⟩
        rw [reach,update,read]
        rfl
      · refine Or.inl ⟨fun within => absurd within.2 (by omega),?_⟩
        rw [reach,update,read]
        rfl
    · refine Or.inl ⟨fun within => absurd within.1 (by omega),?_⟩
      rw [cellinfo,second,bind_some,held]
      rfl

/-- The three endings of a read: outside its arrays, for want of an answer, and with
the counts of the first answer. -/
theorem getPack_ends (s : JbdSession) (replies : Replies) (pp : PackInfo) :
    (¬SerialWithin replies ∧ jbdGetPack s replies pp = none) ∨
    (SerialWithin replies ∧ (jbdRw replies jbdCmdHwinfo = none ∨ jbdRw replies jbdCmdCellinfo = none) ∧
      ∃ t, jbdGetPack s replies pp = some (.error 1,t)) ∨
    ∃ reply volts t, SerialWithin replies ∧ jbdRw replies jbdCmdHwinfo = some reply ∧
      jbdRw replies jbdCmdCellinfo = some volts ∧ jbdGetPack s replies pp = some (.ok (),t) ∧
      t.cells = cellsByte reply ∧ t.ntemps = ntempsByte reply := by
  unfold SerialWithin
  cases first : jbdRw replies jbdCmdHwinfo with
  | none => exact Or.inr (Or.inl ⟨by simp,Or.inl rfl,pp,by rw [jbdGetPack,first]; rfl⟩)
  | some reply =>
    simp only [Option.some.injEq,forall_eq']
    rcases filled_cases (n := 128) reply with ⟨fits,data,held⟩ | ⟨long,held⟩
    · obtain ⟨cells,ntemps⟩ := hwinfo_counts s reply data held pp
      rcases serialTemps_cases data _ (hwinfo s data pp) ntemps with ⟨few,mid,read,same⟩ | ⟨many,read⟩
      · have reach : jbdGetPack s replies pp = cellinfo replies mid := by
          rw [jbdGetPack,first,bind_some,held,bind_index,bind_modify,bind_update_some read]
          rfl
        rw [reach]
        simp only [fits,few,true_and]
        rcases cellinfo_ends replies mid _ _ (same.1.trans cells) (same.2.trans ntemps) with
          ⟨missing,ends⟩ | ⟨volts,second,⟨outside,ends⟩ | ⟨within,t,ends,counts⟩⟩
        · exact Or.inr (Or.inl ⟨by simp [missing],Or.inr missing,mid,ends⟩)
        · exact Or.inl ⟨fun all => outside (all volts second),ends⟩
        · refine Or.inr (Or.inr ⟨reply,volts,t,fun other taken => ?_,rfl,second,ends,counts⟩)
          obtain rfl : volts = other := Option.some.inj (second.symm.trans taken)
          exact within
      · refine Or.inl ⟨fun within => absurd within.2.1 (by omega),?_⟩
        rw [jbdGetPack,first,bind_some,held,bind_index,bind_modify,bind_update_none read]
    · refine Or.inl ⟨fun within => absurd within.1 (by omega),?_⟩
      rw [jbdGetPack,first,bind_some,held]
      rfl

theorem serial_safe_iff (s : JbdSession) (replies : Replies) (pp : PackInfo) :
    Safe (returns (jbdGetPack s replies) pp) ↔ SerialWithin replies := by
  rcases getPack_ends s replies pp with
    ⟨outside,ends⟩ | ⟨within,_,t,ends⟩ | ⟨reply,volts,t,within,first,second,ends,cells,ntemps⟩
  · exact iff_of_false (safe_none ends) outside
  · exact iff_of_true (safe_error ends one_ne_zero) within
  · rw [safe_ok_iff ends]
    obtain ⟨_,few,rest⟩ := within reply first
    have room := (rest volts second).2
    refine iff_of_true ⟨?_,?_⟩ within <;> omega

/-! The CAN bus. The loops stop at the last word of the last frame, whatever they
were to read, so that only the counts themselves can be wrong. -/

def Answered (bus : Replies) (id frames : Nat) : Prop := ∀ j < frames, (jbdCanGetCrc bus (id + j)).isSome

/-- The frames a loop asks for when there are `n` words to read. -/
def asked (frames n : Nat) : Nat := min frames (max 1 ((n + 2) / 3))

/-- A read that gets all the frames it asks for finds counts that fit. -/
def CanWithin (bus : Replies) : Prop :=
  ∀ head, (jbdCanGetCrc bus 0x102).isSome → (jbdCanGetCrc bus 0x103).isSome → jbdCanGetCrc bus 0x104 = some head →
    Answered bus 0x105 (asked 2 (head.get 1).toNat) → Answered bus 0x107 (asked 10 (head.get 0).toNat) →
    (head.get 0).toNat ≤ maxCells ∧ (head.get 1).toNat ≤ maxTemps

private theorem answered_succ (bus : Replies) (id frames : Nat) :
    Answered bus id (frames + 1) ↔ (jbdCanGetCrc bus id).isSome ∧ Answered bus (id + 1) frames := by
  have shift (j : Nat) : id + 1 + j = id + (j + 1) := by omega
  constructor
  · exact fun all => ⟨all 0 (by omega),fun j below => by simpa only [shift] using all (j + 1) (by omega)⟩
  · rintro ⟨first,rest⟩ j below
    cases j with
    | zero => exact first
    | succ j => simpa only [shift] using rest j (by omega)

private theorem canWords_cases (bus : Replies) (write : Nat → ℚ → PackInfo → Option PackInfo) (decode : BitVec 16 → ℚ)
    (count : PackInfo → Int) (size : Nat) (total : ∀ i v pp, i < size → ∃ t, write i v pp = some t)
    (keeps : KeepsCounts write) (counts : ∀ i v pp t, write i v pp = some t → count t = count pp) (n frames id i : Nat)
    (pp : PackInfo) (counted : count pp = n) (room : i + 3 * frames ≤ size) :
    (Answered bus id (asked frames (n - i)) ∧ ∃ t, canWords bus write decode count frames id i pp = some (.ok (),t) ∧
      t.cells = pp.cells ∧ t.ntemps = pp.ntemps) ∨
    (¬ Answered bus id (asked frames (n - i)) ∧ ∃ t, canWords bus write decode count frames id i pp =
      some (.error 1,t)) := by
  induction frames generalizing id i pp with
  | zero => exact Or.inl ⟨fun j below => absurd below (by simp [asked]),pp,rfl,rfl,rfl⟩
  | succ frames ih =>
    have one : asked (frames + 1) (n - i) = asked (frames + 1) (n - i) - 1 + 1 := by
      simp only [asked]
      omega
    rw [one,answered_succ]
    cases first : jbdCanGetCrc bus id with
    | none => exact Or.inr ⟨by simp,pp,by rw [canWords,first]; rfl⟩
    | some data =>
      obtain ⟨next,written⟩ := writeAll_total write size total i (((words data).take (max 1 (n - i))).map decode) pp (by
        simp only [List.length_map,List.length_take,words,List.length_cons,List.length_nil]
        omega)
      obtain ⟨cells,ntemps⟩ := writeAll_counts write keeps i _ pp next written
      have kept := writeAll_keeps count write counts i _ pp next written
      have entered := frameWords_eq write decode count counts n (words data) i pp counted (Or.inl (by simp [words]))
      rw [written] at entered
      rw [canWords,first,bind_some,bind_ok entered]
      by_cases last : n ≤ i + 3
      · have none : asked (frames + 1) (n - i) - 1 = 0 := by
          simp only [asked]
          omega
        refine Or.inl ⟨⟨rfl,by simp [none,Answered]⟩,next,?_,cells,ntemps⟩
        simp only [words,List.length_cons,List.length_nil,last,decide_true,if_true]
        rfl
      · have rest : asked (frames + 1) (n - i) - 1 = asked frames (n - (i + 3)) := by
          simp only [asked]
          omega
        have later := ih (id + 1) (i + 3) next (kept.trans counted) (by omega)
        simp only [words,List.length_cons,List.length_nil,last,decide_false,Bool.false_eq_true,if_false,rest,
          Option.isSome_some,true_and]
        simpa only [cells,ntemps] using later

private theorem canTemps_cases (bus : Replies) (n : Nat) (pp : PackInfo) (counted : pp.ntemps = n) :
    (Answered bus 0x105 (asked 2 n) ∧ ∃ t, canTemps bus pp = some (.ok (),t) ∧ t.cells = pp.cells ∧
      t.ntemps = pp.ntemps) ∨ (¬ Answered bus 0x105 (asked 2 n) ∧ ∃ t, canTemps bus pp = some (.error 1,t)) :=
  canWords_cases bus putTemp ctemp PackInfo.ntemps maxTemps putTemp_total putTemp_keeps
    (fun i v pp t done => (putTemp_keeps i v pp t done).2) n 2 0x105 0 pp counted (by decide)

private theorem canCells_cases (bus : Replies) (n : Nat) (pp : PackInfo) (counted : pp.cells = n) :
    (Answered bus 0x107 (asked 10 n) ∧ ∃ t, canCells bus pp = some (.ok (),t) ∧ t.cells = pp.cells ∧
      t.ntemps = pp.ntemps) ∨ (¬ Answered bus 0x107 (asked 10 n) ∧ ∃ t, canCells bus pp = some (.error 1,t)) :=
  canWords_cases bus putCell millivolts PackInfo.cells maxCells putCell_total putCell_keeps
    (fun i v pp t done => (putCell_keeps i v pp t done).1) n 10 0x107 0 pp counted (by decide)

private theorem canLoops_ends (bus : Replies) (pp : PackInfo) (n m : Nat) (cells : pp.cells = n) (ntemps : pp.ntemps = m) :
    ((Answered bus 0x105 (asked 2 m) ∧ Answered bus 0x107 (asked 10 n)) ∧ ∃ t,
      (do canTemps bus; canCells bus : Routine PackInfo Unit) pp = some (.ok (),t) ∧ t.cells = n ∧ t.ntemps = m) ∨
    (¬(Answered bus 0x105 (asked 2 m) ∧ Answered bus 0x107 (asked 10 n)) ∧ ∃ t,
      (do canTemps bus; canCells bus : Routine PackInfo Unit) pp = some (.error 1,t)) := by
  rcases canTemps_cases bus m pp ntemps with ⟨given,mid,read,same⟩ | ⟨missing,mid,read⟩
  · rcases canCells_cases bus n mid (same.1.trans cells) with ⟨others,t,done,kept⟩ | ⟨missing,t,done⟩
    · exact Or.inl ⟨⟨given,others⟩,t,by rw [bind_ok read,done],kept.1.trans (same.1.trans cells),
        kept.2.trans (same.2.trans ntemps)⟩
    · exact Or.inr ⟨fun both => missing both.2,t,by rw [bind_ok read,done]⟩
  · exact Or.inr ⟨fun both => missing both.1,mid,bind_error read⟩

def stringsByte (head : Frame) : Nat := (head.get 0).toNat

/-- All the frames come that a read asks for; `head` has the counts. -/
def CanReceived (bus : Replies) (head : Frame) : Prop :=
  (jbdCanGetCrc bus 0x102).isSome ∧ (jbdCanGetCrc bus 0x103).isSome ∧ jbdCanGetCrc bus 0x104 = some head ∧
    Answered bus 0x105 (asked 2 (head.get 1).toNat) ∧ Answered bus 0x107 (asked 10 (head.get 0).toNat)

theorem canGetPack_ends (s : JbdSession) (bus : Replies) (pp : PackInfo) :
    (∃ head t, CanReceived bus head ∧ jbdCanGetPack s bus pp = some (.ok (),t) ∧ t.cells = stringsByte head ∧
      t.ntemps = (head.get 1).toNat) ∨
    ((∀ head, ¬ CanReceived bus head) ∧ ∃ t, jbdCanGetPack s bus pp = some (.error 1,t)) := by
  unfold CanReceived
  cases balanced : jbdCanGetCrc bus 0x102 with
  | none => exact Or.inr ⟨by simp,pp,by rw [jbdCanGetPack,balanced]; rfl⟩
  | some bits =>
    cases stated : jbdCanGetCrc bus 0x103 with
    | none => exact Or.inr ⟨by simp,_,by rw [jbdCanGetPack,balanced,stated]; rfl⟩
    | some fets =>
      cases counted : jbdCanGetCrc bus 0x104 with
      | none => exact Or.inr ⟨by simp,_,by rw [jbdCanGetPack,balanced,stated,counted]; rfl⟩
      | some head =>
        rw [jbdCanGetPack,balanced,stated,counted]
        simp only [Option.isSome_some,true_and,Option.some.injEq]
        let mid : PackInfo := canState s (getshort fets[0] fets[1]) (balance (getshort bits[0] bits[1]) (getshort bits[2] bits[3]) pp)
        rcases canLoops_ends bus { mid with cells := head[0].toNat, ntemps := head[1].toNat } head[0].toNat head[1].toNat
          rfl rfl with ⟨all,t,done,counts⟩ | ⟨missing,t,done⟩
        · exact Or.inl ⟨head,t,⟨rfl,all⟩,done,counts⟩
        · refine Or.inr ⟨?_,t,done⟩
          rintro _ ⟨rfl,all⟩
          exact missing all

theorem can_safe_iff (s : JbdSession) (bus : Replies) (pp : PackInfo) :
    Safe (returns (jbdCanGetPack s bus) pp) ↔ CanWithin bus := by
  rcases canGetPack_ends s bus pp with ⟨head,t,received,done,cells,ntemps⟩ | ⟨missing,t,done⟩
  · rw [safe_ok_iff done]
    obtain ⟨balanced,stated,counted,given,others⟩ := received
    constructor
    · intro fits other _ _ taken _ _
      obtain rfl : head = other := Option.some.inj (counted.symm.trans taken)
      obtain ⟨most,probes⟩ := fits
      simp only [stringsByte] at cells
      omega
    · intro within
      obtain ⟨most,probes⟩ := within head balanced stated counted given others
      simp only [stringsByte] at cells
      constructor <;> omega
  · refine iff_of_true (safe_error done one_ne_zero) fun head balanced stated counted given others => ?_
    exact absurd ⟨balanced,stated,counted,given,others⟩ (missing head)

end Mybmm.JbdBounds
