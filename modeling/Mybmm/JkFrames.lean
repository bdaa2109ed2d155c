import Mybmm.JkScan

/-! What the scan of jk.c should find, and when it does. The bytes of a signature may be
scattered, a record at the very end is missed and the four bytes after a record are
skipped; a signature that is found without room for its record ends in an array bound. -/
namespace Mybmm.JkFrames
open Config Flags Arrays Cellmon Routine JkScan
open Jk (Got noted)

def IsFrame (buf : List Byte) (f : Nat) : Prop := f + 300 ≤ buf.length ∧ (buf.drop f).take 4 = [0x55,0xAA,0xEB,0x90]

instance (buf : List Byte) (f : Nat) : Decidable (IsFrame buf f) := inferInstanceAs (Decidable (_ ∧ _))

/-- From the left, without overlap. -/
def framesFrom (buf : List Byte) (i : Nat) : List Nat :=
  if i < buf.length then if IsFrame buf i then i :: framesFrom buf (i + 300) else framesFrom buf (i + 1)
  else []
termination_by buf.length - i
decreasing_by all_goals omega

def upToVolts (buf : List Byte) : List Nat → List Nat
  | [] => []
  | f :: fs => f :: if buf[f + 4]? = some 2 then [] else upToVolts buf fs

def frames (buf : List Byte) : List Nat := upToVolts buf (framesFrom buf 0)

/-- The pack holds the frame with the voltages, or what it held before. -/
def Decoded (buf : List Byte) (fs : List Nat) (pp t : PackInfo) : Prop :=
  match fs.find? fun f => buf[f + 4]? = some 2 with
  | some f => getvolts (memory buf) f pp = some (.ok (),t)
  | none => t = pp

/-- The scan takes the frames and no others, and returns and decodes them. -/
def Recognises (buf : List Byte) (pp : PackInfo) : Prop := ∃ r t, scan buf pp = some (.ok (r,frames buf),t) ∧
  (∀ g : Got, check r g = true ↔ ∃ f ∈ frames buf, buf[f + 4]? = some (code g)) ∧ Decoded buf (frames buf) pp t

/-! Frames and signatures. -/

theorem frame_bytes {buf : List Byte} {f : Nat} (frame : IsFrame buf f) :
    buf[f]? = some 0x55 ∧ buf[f + 1]? = some 0xAA ∧ buf[f + 2]? = some 0xEB ∧ buf[f + 3]? = some 0x90 := by
  have byte (j : Nat) (known : j < 4) : buf[f + j]? = [0x55,0xAA,0xEB,0x90][j]? := by
    rw [← frame.2,List.getElem?_take_of_lt known,List.getElem?_drop]
  exact ⟨byte 0 (by decide),byte 1 (by decide),byte 2 (by decide),byte 3 (by decide)⟩

private theorem frame_of_bytes {buf : List Byte} {f : Nat} (whole : f + 300 ≤ buf.length) (one : buf[f]? = some 0x55)
    (two : buf[f + 1]? = some 0xAA) (three : buf[f + 2]? = some 0xEB) (four : buf[f + 3]? = some 0x90) :
    IsFrame buf f := by
  refine ⟨whole,List.ext_getElem? fun j => ?_⟩
  rw [List.getElem?_take,List.getElem?_drop]
  match j with
  | 0 => exact one
  | 1 => exact two
  | 2 => exact three
  | 3 => exact four
  | j + 4 => simp

private theorem full_memory (buf : List Byte) : Full (memory buf) buf.length :=
  fun k inside => ⟨buf[k],List.getElem?_eq_getElem inside⟩

private theorem signature_frame {buf : List Byte} {i f : Nat} (frame : IsFrame buf f) (ahead : i ≤ f) :
    ∃ first last, signature (memory buf) buf.length i = some (first,last) ∧ first ≤ f ∧ last ≤ f + 3 := by
  have inside := frame.1
  obtain ⟨byte1,byte2,byte3,byte4⟩ := frame_bytes frame
  obtain ⟨first,one,le1⟩ := nextByte_reaches (memory buf) ahead (by omega : f < buf.length) byte1
  obtain ⟨second,two,le2⟩ := nextByte_reaches (memory buf) (by omega : first + 1 ≤ f + 1)
    (by omega : f + 1 < buf.length) byte2
  obtain ⟨third,three,le3⟩ := nextByte_reaches (memory buf) (by omega : second + 1 ≤ f + 2)
    (by omega : f + 2 < buf.length) byte3
  obtain ⟨last,four,le4⟩ := nextByte_reaches (memory buf) (by omega : third + 1 ≤ f + 3)
    (by omega : f + 3 < buf.length) byte4
  refine ⟨first,last,?_,le1,le4⟩
  simp only [signature,one,two,three,four,Option.bind_eq_bind,Option.bind_some]

private theorem signature_at_frame {buf : List Byte} {i first last : Nat}
    (found : signature (memory buf) buf.length i = some (first,last)) (frame : IsFrame buf first) : last = first + 3 := by
  obtain ⟨after,apart,_⟩ := signature_some found
  obtain ⟨first',last',same,_,bound⟩ := signature_frame frame after
  rw [found] at same
  obtain ⟨rfl,rfl⟩ := Prod.mk.inj (Option.some.inj same)
  omega

private theorem frame_of_signature {buf : List Byte} {i first : Nat}
    (found : signature (memory buf) buf.length i = some (first,first + 3)) (whole : first + 300 ≤ buf.length) :
    IsFrame buf first := by
  obtain ⟨second,third,_,_,_,_,_,one,two,three,four⟩ := signature_bytes found
  obtain rfl : second = first + 1 := by omega
  obtain rfl : third = first + 2 := by omega
  exact frame_of_bytes whole one two three four

private theorem framesFrom_frame {buf : List Byte} {i : Nat} (frame : IsFrame buf i) :
    framesFrom buf i = i :: framesFrom buf (i + 300) := by
  have inside : i < buf.length := by have := frame.1; omega
  rw [framesFrom,if_pos inside,if_pos frame]

private theorem framesFrom_skip {buf : List Byte} {i k : Nat} (ahead : i ≤ k) (none : ∀ g, i ≤ g → g < k → ¬ IsFrame buf g) :
    framesFrom buf i = framesFrom buf k := by
  induction left : k - i generalizing i with
  | zero =>
    obtain rfl : i = k := by omega
    rfl
  | succ left ih =>
    by_cases inside : i < buf.length
    · rw [framesFrom,if_pos inside,if_neg (none i le_rfl (by omega))]
      exact ih (by omega) (fun g after => none g (by omega)) (by omega)
    · rw [framesFrom,if_neg inside,framesFrom,if_neg (by omega)]

private theorem framesFrom_none {buf : List Byte} {i : Nat} (none : ∀ g, i ≤ g → ¬ IsFrame buf g) :
    framesFrom buf i = [] := by
  rw [framesFrom_skip (Nat.le_add_right i buf.length) fun g after _ => none g after,framesFrom,if_neg (by omega)]

private theorem framesFrom_mem {buf : List Byte} {i f : Nat} (listed : f ∈ framesFrom buf i) : IsFrame buf f := by
  induction left : buf.length - i using Nat.strong_induction_on generalizing i with
  | h left ih =>
    rw [framesFrom] at listed
    split at listed
    · rename_i inside
      split at listed
      · rename_i frame
        rcases List.mem_cons.mp listed with rfl | later
        · exact frame
        · exact ih _ (by omega) later rfl
      · exact ih _ (by omega) listed rfl
    · contradiction

private theorem framesFrom_head {buf : List Byte} {i g : Nat} (frame : IsFrame buf g) (ahead : i ≤ g) :
    ∃ f fs, framesFrom buf i = f :: fs ∧ f ≤ g := by
  induction left : g - i generalizing i with
  | zero =>
    obtain rfl : i = g := by omega
    exact ⟨i,_,framesFrom_frame frame,le_rfl⟩
  | succ left ih =>
    by_cases here : IsFrame buf i
    · exact ⟨i,_,framesFrom_frame here,ahead⟩
    · obtain ⟨f,fs,starts,bound⟩ := ih (i := i + 1) (by omega) (by omega)
      refine ⟨f,fs,?_,bound⟩
      rw [framesFrom_skip (Nat.le_succ i) fun k after before => ?_]
      · exact starts
      · obtain rfl : k = i := by omega
        exact here

private theorem upToVolts_sublist (buf : List Byte) (fs : List Nat) : ∀ f ∈ upToVolts buf fs, f ∈ fs := by
  induction fs with
  | nil => simp [upToVolts]
  | cons f fs ih =>
    intro g listed
    rw [upToVolts] at listed
    rcases List.mem_cons.mp listed with rfl | later
    · exact List.mem_cons_self
    · split at later
      · contradiction
      · exact List.mem_cons_of_mem f (ih g later)

private theorem upToVolts_volts {buf : List Byte} {f : Nat} (fs : List Nat) (volts : buf[f + 4]? = some 2) :
    upToVolts buf (f :: fs) = [f] := by
  rw [upToVolts,if_pos volts]

private theorem upToVolts_other {buf : List Byte} {f : Nat} (fs : List Nat) (other : buf[f + 4]? ≠ some 2) :
    upToVolts buf (f :: fs) = f :: upToVolts buf fs := by
  rw [upToVolts,if_neg other]

/-! The bounds. -/

/-- Every signature up to the first with voltages has a byte after it inside the
buffer when the room for its record is there, and ends the buffer when it is not. -/
inductive Contained (buf : List Byte) : Nat → Prop where
  | quiet {i : Nat} (none : signature (memory buf) buf.length i = none) : Contained buf i
  | cut {i first last : Nat} (found : signature (memory buf) buf.length i = some (first,last))
      (short : buf.length ≤ first + 300) (ends : last + 1 = buf.length) : Contained buf i
  | volts {i first last : Nat} (found : signature (memory buf) buf.length i = some (first,last))
      (whole : first + 300 < buf.length) (kind : buf[last + 1]? = some 2) : Contained buf i
  | more {i first last : Nat} {kind : Byte} (found : signature (memory buf) buf.length i = some (first,last))
      (whole : first + 300 < buf.length) (here : buf[last + 1]? = some kind) (other : kind ≠ 2)
      (rest : Contained buf (last + 301)) : Contained buf i

private theorem contained_found {buf : List Byte} {i first last : Nat}
    (found : signature (memory buf) buf.length i = some (first,last)) : Contained buf i ↔
      if first + 300 < buf.length then
        ∃ kind, buf[last + 1]? = some kind ∧ (kind ≠ 2 → Contained buf (last + 301))
      else last + 1 = buf.length := by
  have same {first' last' : Nat} (other : signature (memory buf) buf.length i = some (first',last')) :
      first' = first ∧ last' = last := by
    rw [found] at other
    obtain ⟨rfl,rfl⟩ := Prod.mk.inj (Option.some.inj other)
    exact ⟨rfl,rfl⟩
  constructor
  · intro contained
    cases contained with
    | quiet none => exact absurd (none.symm.trans found) (by simp)
    | cut found' short ends =>
      obtain ⟨rfl,rfl⟩ := same found'
      rw [if_neg (by omega)]
      exact ends
    | volts found' whole kind =>
      obtain ⟨rfl,rfl⟩ := same found'
      rw [if_pos whole]
      exact ⟨2,kind,fun other => absurd rfl other⟩
    | more found' whole here other rest =>
      obtain ⟨rfl,rfl⟩ := same found'
      rw [if_pos whole]
      exact ⟨_,here,fun _ => rest⟩
  · intro goes_on
    split at goes_on
    · rename_i whole
      obtain ⟨kind,here,rest⟩ := goes_on
      by_cases volts : kind = 2
      · rw [volts] at here
        exact .volts found whole here
      · exact .more found whole here volts (rest volts)
    · exact .cut found (by omega) goes_on

private theorem getdata_isSome_iff (buf : List Byte) (i start : Nat) (r : BitVec 32) (hits : List Nat) (pp : PackInfo) :
    (getdata (memory buf) buf.length i 0 start r hits pp).isSome ↔ Contained buf i := by
  induction left : buf.length - i using Nat.strong_induction_on generalizing i start r hits with
  | h left ih =>
    have onward := getdata_onward (memory buf) buf.length i start r hits pp (full_memory buf)
    generalize ran : getdata (memory buf) buf.length i 0 start r hits pp = result at onward
    cases onward with
    | quiet none => exact iff_of_true rfl (.quiet none)
    | cut found short ends => exact iff_of_true rfl (.cut found short ends)
    | stuck found short left =>
      rw [contained_found found,if_neg (by omega)]
      exact iff_of_false (by simp) (by omega)
    | @outside first last found whole past =>
      have byte : buf[last + 1]? = none := past
      rw [contained_found found,if_pos whole,byte]
      exact iff_of_false (by simp) (by simp)
    | volts found whole here => exact iff_of_true rfl (.volts found whole here)
    | @more first last kind found whole here other =>
      obtain ⟨_,_,inside,_⟩ := signature_some found
      have byte : buf[last + 1]? = some kind := here
      rw [ih _ (by omega) _ _ _ _ rfl,contained_found found,if_pos whole,byte]
      simp only [Option.some.injEq,exists_eq_left']
      exact ⟨fun rest _ => rest,fun rest => rest other⟩

/-- Every index is valid exactly when no signature asks for a byte behind the buffer,
or for a fifth byte of its own. -/
theorem scan_isSome_iff (buf : List Byte) (pp : PackInfo) : (scan buf pp).isSome ↔ Contained buf 0 :=
  getdata_isSome_iff buf 0 0 0 [] pp

theorem fifth_signature_byte : ¬ ∀ (buf : List Byte) (pp : PackInfo), (scan buf pp).isSome := by
  intro valid
  have contained := (getdata_isSome_iff [0x55,0xAA,0xEB,0x90,0] 0 0 0 [] blankPack).mp (valid _ _)
  have found : signature (memory [0x55,0xAA,0xEB,0x90,0]) 5 0 = some (0,3) := by decide
  rw [contained_found found,if_neg (by decide)] at contained
  exact absurd contained (by decide)

/-! What is found. -/

/-- Nothing but frames, none of them with a successor in the four bytes after it, up
to the first with voltages; or a last signature cut off behind its four bytes. -/
inductive Clean (buf : List Byte) : Nat → Prop where
  | quiet {i : Nat} (none : signature (memory buf) buf.length i = none) : Clean buf i
  | cut {i first last : Nat} (found : signature (memory buf) buf.length i = some (first,last))
      (short : buf.length ≤ first + 300) (ends : last + 1 = buf.length) : Clean buf i
  | volts {i first : Nat} (found : signature (memory buf) buf.length i = some (first,first + 3))
      (whole : first + 300 < buf.length) (kind : buf[first + 4]? = some 2) : Clean buf i
  | more {i first : Nat} (found : signature (memory buf) buf.length i = some (first,first + 3))
      (whole : first + 300 < buf.length) (other : buf[first + 4]? ≠ some 2)
      (apart : ∀ g, first + 300 ≤ g → g < first + 304 → ¬ IsFrame buf g) (rest : Clean buf (first + 304)) : Clean buf i

private theorem framesFrom_quiet {buf : List Byte} {i : Nat} (none : signature (memory buf) buf.length i = none) :
    framesFrom buf i = [] := by
  refine framesFrom_none fun g ahead frame => ?_
  obtain ⟨first,last,found,_⟩ := signature_frame frame ahead
  exact absurd (none.symm.trans found) (by simp)

private theorem framesFrom_cut {buf : List Byte} {i first last : Nat}
    (found : signature (memory buf) buf.length i = some (first,last)) (short : buf.length ≤ first + 300)
    (ends : last + 1 = buf.length) : framesFrom buf i = [] := by
  refine framesFrom_none fun g ahead frame => ?_
  obtain ⟨first',last',found',bound,_⟩ := signature_frame frame ahead
  rw [found] at found'
  obtain ⟨rfl,rfl⟩ := Prod.mk.inj (Option.some.inj found')
  have room := frame.1
  obtain rfl : g = first := by omega
  have := signature_at_frame found frame
  omega

private theorem framesFrom_found {buf : List Byte} {i first : Nat}
    (found : signature (memory buf) buf.length i = some (first,first + 3)) (whole : first + 300 < buf.length) :
    framesFrom buf i = first :: framesFrom buf (first + 300) := by
  have none : ∀ g, i ≤ g → g < first → ¬ IsFrame buf g := by
    intro g ahead before frame
    obtain ⟨first',last',found',bound,_⟩ := signature_frame frame ahead
    rw [found] at found'
    have := (Prod.mk.inj (Option.some.inj found')).1
    omega
  rw [framesFrom_skip (signature_some found).1 none,framesFrom_frame (frame_of_signature found (by omega))]

private theorem getdata_hits {mem : Memory} {bytes i start : Nat} {r r' : BitVec 32} {hits hits' : List Nat}
    {pp t : PackInfo}
    (full : Full mem bytes) (done : getdata mem bytes i 0 start r hits pp = some (.ok (r',hits'),t)) :
    ∃ more, hits' = hits ++ more ∧ ∀ f ∈ more, i ≤ f := by
  induction left : bytes - i using Nat.strong_induction_on generalizing i start r hits with
  | h left ih =>
    have onward := getdata_onward mem bytes i start r hits pp full
    rw [done] at onward
    generalize ended : some (Except.ok (r',hits'),t) = result at onward
    cases onward with
    | quiet none =>
      obtain ⟨same,_⟩ := Prod.mk.inj (Option.some.inj ended)
      exact ⟨[],by rw [(Prod.mk.inj (Except.ok.inj same)).2,List.append_nil],by simp⟩
    | cut found =>
      obtain ⟨same,_⟩ := Prod.mk.inj (Option.some.inj ended)
      exact ⟨[],by rw [(Prod.mk.inj (Except.ok.inj same)).2,List.append_nil],by simp⟩
    | stuck found => contradiction
    | outside found => contradiction
    | @volts first last u found =>
      obtain ⟨same,_⟩ := Prod.mk.inj (Option.some.inj ended)
      exact ⟨[first],(Prod.mk.inj (Except.ok.inj same)).2,by simpa using (signature_some found).1⟩
    | @more first last kind found whole here other =>
      obtain ⟨after,_,inside,_⟩ := signature_some found
      obtain ⟨more,rfl,ahead⟩ := ih _ (by omega) ended.symm rfl
      refine ⟨first :: more,by simp,fun f listed => ?_⟩
      rcases List.mem_cons.mp listed with rfl | later
      · exact after
      · have := ahead f later
        omega

private theorem clean_of_hits {buf : List Byte} {i : Nat} (start : Nat) (r : BitVec 32) (hits : List Nat) {r' : BitVec 32}
    {pp t : PackInfo} (done : getdata (memory buf) buf.length i 0 start r hits pp =
      some (.ok (r',hits ++ upToVolts buf (framesFrom buf i)),t)) : Clean buf i := by
  induction left : buf.length - i using Nat.strong_induction_on generalizing i start r hits with
  | h left ih =>
    have full := full_memory buf
    have onward := getdata_onward (memory buf) buf.length i start r hits pp full
    rw [done] at onward
    generalize ended : some (Except.ok (r',hits ++ upToVolts buf (framesFrom buf i)),t) = result at onward
    -- A record that is taken is among the frames, so its signature has no bytes in between.
    have contiguous {first last : Nat} (found : signature (memory buf) buf.length i = some (first,last))
        (listed : first ∈ upToVolts buf (framesFrom buf i)) : last = first + 3 :=
      signature_at_frame found (framesFrom_mem (upToVolts_sublist _ _ first listed))
    cases onward with
    | quiet none => exact .quiet none
    | cut found short ends => exact .cut found short ends
    | stuck found => contradiction
    | outside found => contradiction
    | @volts first last u found whole here =>
      obtain ⟨same,_⟩ := Prod.mk.inj (Option.some.inj ended)
      have taken := List.append_cancel_left (Prod.mk.inj (Except.ok.inj same)).2
      obtain rfl := contiguous found (by rw [taken]; exact List.mem_singleton_self first)
      exact .volts found whole here
    | @more first last kind found whole here other =>
      have later := ended.symm
      obtain ⟨_,_,inside,_⟩ := signature_some found
      obtain ⟨more,same,ahead⟩ := getdata_hits full later
      rw [List.append_assoc] at same
      have taken := List.append_cancel_left same
      obtain rfl := contiguous found (by rw [taken]; exact List.mem_cons_self)
      have not_volts : buf[first + 4]? ≠ some 2 := by
        intro two
        exact other (Option.some.inj (here.symm.trans two))
      rw [framesFrom_found found whole,upToVolts_other _ not_volts] at taken
      have behind : upToVolts buf (framesFrom buf (first + 300)) = more := (List.cons.inj taken).2
      have apart : ∀ g, first + 300 ≤ g → g < first + 304 → ¬ IsFrame buf g := by
        intro g from_end before frame
        obtain ⟨f,fs,starts,bound⟩ := framesFrom_head frame from_end
        rw [starts] at behind
        have := ahead f (by rw [← behind,upToVolts]; exact List.mem_cons_self)
        omega
      rw [framesFrom_found found whole,upToVolts_other _ not_volts,
        framesFrom_skip (Nat.add_le_add_left (by decide : 300 ≤ 304) first) apart,
        show first :: upToVolts buf (framesFrom buf (first + 304)) =
          [first] ++ upToVolts buf (framesFrom buf (first + 304)) from rfl,← List.append_assoc] at later
      exact .more found whole not_volts apart (ih _ (by omega) _ _ _ later rfl)

private theorem found_of_clean {buf : List Byte} {i : Nat} (clean : Clean buf i) (start : Nat) (r : BitVec 32)
    (hits : List Nat)
    (pp : PackInfo) : ∃ r' t,
      getdata (memory buf) buf.length i 0 start r hits pp =
        some (.ok (r',hits ++ upToVolts buf (framesFrom buf i)),t) ∧
      (∀ g : Got, check r' g = true ↔
        check r g = true ∨ ∃ f ∈ upToVolts buf (framesFrom buf i), buf[f + 4]? = some (code g)) ∧
      Decoded buf (upToVolts buf (framesFrom buf i)) pp t := by
  have full := full_memory buf
  induction clean generalizing start r hits with
  | quiet none =>
    refine ⟨r,pp,?_,?_⟩
    · rw [getdata_signature _ _ _ _ _ _ _ full,none,framesFrom_quiet none]
      simp [upToVolts]
    · rw [framesFrom_quiet none]
      simp [upToVolts,Decoded]
  | cut found short ends =>
    refine ⟨r,pp,?_,?_⟩
    · rw [getdata_found _ _ _ _ _ _ _ full found,if_neg (by omega),if_pos (by omega),framesFrom_cut found short ends]
      simp [upToVolts]
    · rw [framesFrom_cut found short ends]
      simp [upToVolts,Decoded]
  | @volts i first found whole kind =>
    obtain ⟨t,read,_⟩ := getvolts_fits (memory buf) buf.length first pp full (by omega)
    have byte : memory buf (first + 3 + 1) = some 2 := kind
    rw [framesFrom_found found whole,upToVolts_volts _ kind]
    refine ⟨set r Got.volt,t,?_,?_,?_⟩
    · rw [getdata_found _ _ _ _ _ _ _ full found,if_pos whole,byte,bind_index,if_pos rfl,bind_ok read]
      rfl
    · intro g
      cases g <;> simp [kind,code]
    · simp only [Decoded,kind,List.find?_cons,decide_true]
      exact read
  | @more i first found whole other apart rest ih =>
    have skip := framesFrom_skip (Nat.add_le_add_left (by decide : 300 ≤ 304) first) apart
    obtain ⟨kind,here⟩ := full (first + 3 + 1) (by omega)
    have byte : buf[first + 4]? = some kind := here
    have not_volts : kind ≠ 2 := by
      rintro rfl
      exact other byte
    rw [framesFrom_found found whole,upToVolts_other _ other,skip]
    obtain ⟨r',t,done,flags,decoded⟩ := ih first (noted kind r) (hits ++ [first])
    refine ⟨r',t,?_,fun g => ?_,?_⟩
    · rw [getdata_found _ _ _ _ _ _ _ full found,if_pos whole,here,bind_index,if_neg not_volts,done,List.append_assoc]
      rfl
    · rw [flags g,check_noted not_volts,Bool.or_eq_true,decide_eq_true_iff]
      simp [byte,or_assoc,or_left_comm]
    · rw [Decoded,List.find?_cons_of_neg (by simpa using other)]
      exact decoded

/-- The scan is right exactly when the signatures it follows are those of frames with
a byte behind them, and no frame begins where it skips. -/
theorem recognises_iff (buf : List Byte) (pp : PackInfo) : Recognises buf pp ↔ Clean buf 0 := by
  constructor
  · rintro ⟨r,t,done,_⟩
    exact clean_of_hits 0 0 [] done
  · intro clean
    obtain ⟨r,t,done,flags,decoded⟩ := found_of_clean clean 0 0 [] pp
    exact ⟨r,t,done,fun g => (flags g).trans (or_iff_right (by simp [check])),decoded⟩

/-- One byte stands between those of the signature, and the record is taken. -/
theorem scattered_signature : ¬ ∀ (buf : List Byte) (pp : PackInfo), Recognises buf pp := by
  intro recognises
  obtain ⟨buf,scattered⟩ : ∃ buf : List Byte, buf = [0x55,0,0xAA,0xEB,0x90,1] ++ List.replicate 300 0 := ⟨_,rfl⟩
  have length : buf.length = 306 := by rw [scattered,List.length_append,List.length_replicate]; rfl
  have found : signature (memory buf) buf.length 0 = some (0,4) := by
    rw [length,scattered]
    decide
  obtain ⟨r,t,done,_⟩ := recognises buf blankPack
  have clean := clean_of_hits 0 0 [] done
  cases clean with
  | quiet none => exact absurd (none.symm.trans found) (by simp)
  | cut found' short ends =>
    obtain ⟨rfl,rfl⟩ := Prod.mk.inj (Option.some.inj (found.symm.trans found'))
    omega
  | volts found' =>
    obtain ⟨rfl,wrong⟩ := Prod.mk.inj (Option.some.inj (found.symm.trans found'))
    omega
  | more found' =>
    obtain ⟨rfl,wrong⟩ := Prod.mk.inj (Option.some.inj (found.symm.trans found'))
    omega

end Mybmm.JkFrames
