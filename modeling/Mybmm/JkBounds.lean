import Mybmm.JkScan

/-! Where jk.c stays inside its arrays. A signature at the very end of the buffer
is followed by a byte outside it, and one without room for its record leaves
the scan past the end of the signature. -/
namespace Mybmm.JkBounds
open Config Flags Arrays Cellmon Routine Jk

theorem buffer_full (data : Buffer) (bytes : Nat) (small : bytes ≤ 2048) : JkScan.Full (fun k => data[k]?) bytes :=
  fun k inside => ⟨data[k],Vector.getElem?_eq_getElem (by omega)⟩

/-- What a scan leaves: the flags of the records found, and with voltages among
them a pack that fits. -/
structure Scanned (kinds : List Byte) (r r' : BitVec 32) (t : PackInfo) : Prop where
  info : check r' Got.info = (decide (3 ∈ kinds) || check r Got.info)
  volt : check r' Got.volt = (decide (2 ∈ kinds) || check r Got.volt)
  fits : 2 ∈ kinds → Fits t

private theorem scanned_nil (r : BitVec 32) (t : PackInfo) : Scanned [] r r t where
  info := by simp
  volt := by simp
  fits := by simp

private theorem check_cons {kind : Byte} {ks : List Byte} {r r' : BitVec 32} {g : Got} (other : kind ≠ 2)
    (rest : check r' g = (decide (JkScan.code g ∈ ks) || check (noted kind r) g)) :
    check r' g = (decide (JkScan.code g ∈ kind :: ks) || check r g) := by
  rw [rest,JkScan.check_noted other]
  simp only [List.mem_cons,Bool.decide_or,@eq_comm _ kind]
  rw [← Bool.or_assoc,Bool.or_comm (decide (JkScan.code g ∈ ks))]

private theorem scanned_cons {kind : Byte} {ks : List Byte} {r r' : BitVec 32} {t : PackInfo}
    (scanned : Scanned ks (noted kind r) r' t) (other : kind ≠ 2) : Scanned (kind :: ks) r r' t where
  info := check_cons (g := .info) other scanned.info
  volt := check_cons (g := .volt) other scanned.volt
  fits held := scanned.fits ((List.mem_cons.mp held).resolve_left (Ne.symm other))

private theorem framed_found {data : Buffer} {bytes i first last : Nat} (left : Nat)
    (found : signature data bytes i = some (first,last)) : WellFramed data bytes (left + 1) i ↔
      if first + 300 < bytes then
        last + 1 < 2048 ∧ (data[last + 1]? ≠ some 2 → WellFramed data bytes left (last + 301))
      else bytes ≤ last + 1 := by
  simp only [WellFramed,found,Option.some.injEq,Prod.mk.injEq,and_imp,forall_eq',forall_apply_eq_imp_iff]

private theorem kinds_short {data : Buffer} {bytes i first last : Nat} (left : Nat)
    (found : signature data bytes i = some (first,last)) (short : bytes ≤ first + 300) :
    kinds data bytes (left + 1) i = [] := by
  rw [kinds,found]
  exact if_neg (by omega)

theorem kinds_found {data : Buffer} {bytes i first last : Nat} {kind : Byte} (left : Nat)
    (found : signature data bytes i = some (first,last)) (whole : first + 300 < bytes)
    (here : data[last + 1]? = some kind) : kinds data bytes (left + 1) i =
      kind :: if kind = 2 then [] else kinds data bytes left (last + 301) := by
  simp only [kinds,found,if_pos whole,here]

private theorem getdata_cases (data : Buffer) (bytes left i start : Nat) (r : BitVec 32) (pp : PackInfo)
    (small : bytes ≤ 2048)
    (enough : bytes - i ≤ left) :
    (WellFramed data bytes left i ∧ ∃ r' t, getdata data bytes i 0 start r pp = some (.ok r',t) ∧
      Scanned (kinds data bytes left i) r r' t) ∨
    (¬ WellFramed data bytes left i ∧ getdata data bytes i 0 start r pp = none) := by
  induction left generalizing i start r with
  | zero =>
    refine Or.inl ⟨trivial,r,pp,?_,scanned_nil r pp⟩
    rw [getdata,dif_neg (by omega)]
    rfl
  | succ left ih =>
    have onward := JkScan.getdata_onward (fun k => data[k]?) bytes i start r [] pp (buffer_full data bytes small)
    rw [JkScan.getdata_buffer _ _ _ _ _ _ []]
    generalize JkScan.getdata (fun k => data[k]?) bytes i 0 start r [] pp = result at onward
    cases onward with
    | quiet none =>
      have found : signature data bytes i = Option.none := none
      have empty : kinds data bytes (left + 1) i = [] := by rw [kinds,found]
      rw [empty]
      exact Or.inl ⟨by simp [WellFramed,found],r,pp,rfl,scanned_nil r pp⟩
    | cut found short ends =>
      rw [framed_found left found,if_neg (by omega),kinds_short left found short]
      exact Or.inl ⟨by omega,r,pp,rfl,scanned_nil r pp⟩
    | stuck found short more =>
      rw [framed_found left found,if_neg (by omega)]
      exact Or.inr ⟨by omega,rfl⟩
    | @outside first last found whole past =>
      have room : 2048 ≤ last + 1 := Vector.getElem?_eq_none_iff.mp past
      rw [framed_found left found,if_pos whole]
      exact Or.inr ⟨fun both => absurd both.1 (by omega),rfl⟩
    | @volts first last t found whole here read fits =>
      have room : last + 1 < 2048 := (Vector.getElem?_eq_some_iff.mp here).1
      rw [framed_found left found,if_pos whole,kinds_found left found whole here]
      exact Or.inl ⟨⟨room,fun other => absurd here other⟩,set r Got.volt,t,rfl,
        { info := by simp, volt := by simp, fits := fun _ => fits }⟩
    | @more first last kind found whole here other =>
      have room : last + 1 < 2048 := (Vector.getElem?_eq_some_iff.mp here).1
      obtain ⟨_,_,inside,_⟩ := JkScan.signature_some found
      have goes : WellFramed data bytes (left + 1) i ↔ WellFramed data bytes left (last + 301) := by
        rw [framed_found left found,if_pos whole,show data[last + 1]? = some kind from here]
        exact ⟨fun both => both.2 fun volts => other (Option.some.inj volts),fun rest => ⟨room,fun _ => rest⟩⟩
      rw [goes,kinds_found left found whole here,if_neg other,← JkScan.getdata_buffer]
      rcases ih (last + 301) first (noted kind r) (by omega) with ⟨rest,r',t,done,scanned⟩ | ⟨rest,done⟩
      · exact Or.inl ⟨rest,r',t,done,scanned_cons scanned other⟩
      · exact Or.inr ⟨rest,done⟩

/-! The two loops. -/

theorem reply_cases (data : Buffer) (reply : List Byte) (pp : PackInfo) :
    (Framed data reply ∧ ∃ r t, getdata (received data reply) (readBytes reply) 0 0 0 0 pp = some (.ok r,t) ∧
      check r Got.info = holds data reply 3 ∧ check r Got.volt = holds data reply 2 ∧
      (holds data reply 2 = true → Fits t)) ∨
    (¬ Framed data reply ∧ getdata (received data reply) (readBytes reply) 0 0 0 0 pp = none) := by
  have small : readBytes reply ≤ 2048 := Nat.min_le_right _ _
  rcases getdata_cases (received data reply) (readBytes reply) (readBytes reply) 0 0 0 pp small (by omega) with
    ⟨framed,r,t,done,scanned⟩ | ⟨cut,done⟩
  · refine Or.inl ⟨framed,r,t,done,?_,?_,fun held => scanned.fits (of_decide_eq_true held)⟩
    · rw [scanned.info]
      simp [holds]
    · rw [scanned.volt]
      simp [holds]
  · exact Or.inr ⟨cut,done⟩

theorem infoTries_cases (info : Nat → Option (List Byte)) (rest : Buffer → Prop) (retries k : Nat) (data : Buffer)
    (pp : PackInfo) :
    (¬ InfoFramed info rest retries k data ∧ infoTries info retries k data pp = none) ∨
    (InfoFramed info rest retries k data ∧ ∃ t, infoTries info retries k data pp = some (.error (-1),t)) ∨
    (∃ last t, infoTries info retries k data pp = some (.ok last,t) ∧
      (InfoFramed info rest retries k data ↔ rest last)) := by
  induction retries generalizing k data pp with
  | zero => exact Or.inr (Or.inr ⟨data,pp,rfl,Iff.rfl⟩)
  | succ retries ih =>
    simp only [InfoFramed]
    cases brought : info k with
    | none => exact Or.inr (Or.inl ⟨by simp,pp,by rw [infoTries,brought]; rfl⟩)
    | some reply =>
      simp only [Option.some.injEq,forall_eq']
      rcases reply_cases data reply pp with ⟨framed,r,t,done,got,_⟩ | ⟨cut,done⟩
      · have reach : infoTries info (retries + 1) k data pp =
            if holds data reply 3 then some (.ok (received data reply),t)
            else infoTries info retries (k + 1) (received data reply) t := by
          rw [infoTries,brought,bind_some,bind_ok done,got]
          cases holds data reply 3 <;> rfl
        rw [reach]
        simp only [framed,true_and]
        cases held : holds data reply 3 with
        | true => exact Or.inr (Or.inr ⟨received data reply,t,rfl,Iff.rfl⟩)
        | false => exact ih (k + 1) (received data reply) t
      · refine Or.inl ⟨fun both => cut both.1,?_⟩
        rw [infoTries,brought,bind_some,bind_none done]

theorem cellTries_cases (cell : Nat → Option (List Byte)) (retries k : Nat) (data : Buffer) (pp : PackInfo) :
    (CellFramed cell retries k data ∧ ∃ v t, cellTries cell retries k data pp = some (.ok v,t) ∧ (1 ≤ v → Fits t)) ∨
    (¬ CellFramed cell retries k data ∧ cellTries cell retries k data pp = none) := by
  induction retries generalizing k data pp with
  | zero => exact Or.inl ⟨trivial,-1,pp,rfl,fun found => absurd found (by decide)⟩
  | succ retries ih =>
    simp only [CellFramed,cellTries]
    cases brought : cell k with
    | none => exact ih (k + 1) data pp
    | some reply =>
      rcases reply_cases data reply pp with ⟨framed,r,t,done,_,got,fits⟩ | ⟨cut,done⟩
      · simp only [framed,true_and]
        rw [bind_ok done,got]
        cases held : holds data reply 2 with
        | true => exact Or.inl ⟨by simp,retries,t,rfl,fun _ => fits held⟩
        | false => simpa using ih (k + 1) (received data reply) t
      · exact Or.inr ⟨fun both => cut both.1,bind_none done⟩

private theorem cells_ends (replies : Replies) (data : Buffer) (pp : PackInfo) : ∃ ends, (do
      orReturn (-1) (if replies.requested then some () else none)
      let retries ← cellTries replies.cell 5 0 data
      if retries < 1 then orReturn (-1) none else return () : Routine PackInfo Unit) pp = ends ∧
    ((¬(replies.requested = true → CellFramed replies.cell 5 0 data) ∧ ends = none) ∨
      (replies.requested = true → CellFramed replies.cell 5 0 data) ∧
        ∃ t, ends = some (.error (-1),t) ∨ ends = some (.ok (),t) ∧ Fits t) := by
  refine ⟨_,rfl,?_⟩
  cases asked : replies.requested with
  | false => exact Or.inr ⟨by simp,pp,Or.inl rfl⟩
  | true =>
    rw [if_pos rfl,bind_some]
    simp only [true_imp_iff]
    rcases cellTries_cases replies.cell 5 0 data pp with ⟨framed,v,t,done,fits⟩ | ⟨cut,done⟩
    · rw [bind_ok done]
      by_cases late : v < 1
      · rw [if_pos late]
        exact Or.inr ⟨framed,t,Or.inl rfl⟩
      · rw [if_neg late]
        exact Or.inr ⟨framed,t,Or.inr ⟨rfl,fits (by omega)⟩⟩
    · exact Or.inl ⟨cut,bind_none done⟩

private theorem jkRead_ends (data : Buffer) (replies : Replies) (pp : PackInfo) :
    (¬ Within data replies ∧ jkRead data replies pp = none) ∨
    (Within data replies ∧ ∃ t, jkRead data replies pp = some (.error (-1),t) ∨
      jkRead data replies pp = some (.ok (),t) ∧ Fits t) := by
  rcases infoTries_cases replies.info (fun data => replies.requested = true → CellFramed replies.cell 5 0 data) 5 0 data pp
    with ⟨cut,done⟩ | ⟨framed,t,done⟩ | ⟨last,t,done,framed⟩
  · exact Or.inl ⟨cut,bind_none done⟩
  · exact Or.inr ⟨framed,t,Or.inl (bind_error done)⟩
  · rw [Within,framed,jkRead,bind_ok done]
    obtain ⟨ends,same,rest⟩ := cells_ends replies last t
    rw [same]
    exact rest

theorem jk_safe_iff (data : Buffer) (replies : Replies) (pp : PackInfo) :
    Safe (returns (jkRead data replies) pp) ↔ Within data replies := by
  rcases jkRead_ends data replies pp with ⟨outside,done⟩ | ⟨within,t,done | ⟨done,fits⟩⟩
  · exact iff_of_false (safe_none done) outside
  · exact iff_of_true (safe_error done (by decide)) within
  · exact iff_of_true ((safe_ok_iff done).mpr fits) within

theorem jk_returns_iff (data : Buffer) (replies : Replies) (pp : PackInfo) :
    (∃ code t, returns (jkRead data replies) pp = some (code,t)) ↔ Within data replies := by
  rcases jkRead_ends data replies pp with ⟨outside,done⟩ | ⟨within,t,done | ⟨done,_⟩⟩
  · exact iff_of_false (by simp [returns,done]) outside
  · exact iff_of_true ⟨-1,t,by rw [returns,done]; rfl⟩ within
  · exact iff_of_true ⟨0,t,by rw [returns,done]; rfl⟩ within

end Mybmm.JkBounds
