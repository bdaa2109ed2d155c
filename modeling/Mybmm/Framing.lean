import Mybmm.Devserver

/-! Sending a packet and receiving it from a stream that was cut somewhere. The
data are taken with one call, so a cut inside them is not made good. -/
namespace Mybmm.Framing
open Arrays Feed Routine Devserver

/-- The call brings the packet, as much of its data as the buffer takes, and
leaves the stream behind it. -/
def Recovers (opcode unit : Byte) (p rest : List Byte) (datasz : Nat) (result : Option (Int × Conn)) : Prop :=
  ∃ t, result = some (((min p.length datasz : Nat) : Int),t) ∧ t.opcode = opcode ∧ t.unit = unit ∧
    t.data.take (min p.length datasz) = p.take datasz ∧ contents t.feed = rest

private theorem value_ends {σ : Type} {m : Routine σ Int} {s t : σ} {v code : Int} {c : Prop} [Decidable c]
    (ends : m s = some (if c then .ok v else .error code,t)) : value m s = some (if c then v else code,t) := by
  rw [value,ends]
  by_cases holds : c <;> simp [holds]

/-- Behind the data, with `left` of them still to be drained: `tail` is what the
end mark is looked for in. -/
private theorem rest_of_body (s : Conn) (steady : Steady s.feed) (i left len : Nat) (skipped : List Byte) (ch : Byte)
    (tail : List Byte) (exact : skipped.length = left) (fits : i + left + 1 ≤ 256)
    (ahead : contents s.feed = skipped ++ ch :: tail) :
    ∃ g, (do drain left i; finish (i + left) len : Routine Conn Int) s =
        some (if ch = packetEnd then .ok (len : Int) else .error (-1),fed g s) ∧ contents g = tail := by
  subst exact
  obtain ⟨g,drained,after⟩ := drain_steady s steady i skipped (ch :: tail) (by omega) ahead
  obtain ⟨h,finished,last⟩ := finish_steady (fed g s) after.steady (i + skipped.length) len ch tail fits after.contents
  exact ⟨h,by rw [bind_ok drained,finished]; rfl,last.contents⟩

private theorem body_empty (s : Conn) (steady : Steady s.feed) (datasz : Nat) (rest : List Byte)
    (ahead : contents s.feed = packetEnd :: rest) :
    ∃ g, value (body true datasz 0) s = some (0,fed g s) ∧ contents g = rest := by
  obtain ⟨g,ends,left⟩ := rest_of_body s steady 4 0 0 [] packetEnd rest rfl (by decide) ahead
  refine ⟨g,?_,left⟩
  rw [body,if_neg fun all => all.2.2 rfl]
  exact value_ends ends

/-- The call for the data brings the first `k` of them, and the rest of the routine
goes on `k` bytes behind their start. -/
private theorem body_data (s : Conn) (steady : Steady s.feed) (datasz : Nat) (p rest : List Byte) (small : p.length ≤ 251)
    (room : 0 < datasz) (filled : p ≠ []) (ahead : contents s.feed = p ++ packetEnd :: rest) :
    ∃ k g ch, 1 ≤ k ∧ k ≤ min p.length datasz ∧ (k = min p.length datasz ↔ Joined s.feed 0 (min p.length datasz)) ∧
      value (body true datasz p.length) s = some (if ch = packetEnd then ((min p.length datasz : Nat) : Int) else -1,
          { s with feed := g, data := p.take k ++ s.data.drop k }) ∧
      (contents g).length + k = rest.length + min p.length datasz ∧
      (k = min p.length datasz → ch = packetEnd ∧ contents g = rest) := by
  have some : 0 < p.length := List.length_pos_iff.mpr filled
  obtain ⟨m,size⟩ : ∃ m, min p.length datasz = m := ⟨_,rfl⟩
  have asks : 0 < m := by omega
  obtain ⟨b,bs,brought⟩ := read_some steady asks (by rw [ahead]; simp)
  have short := read_length m s.feed
  have parts := read_contents m s.feed
  have whole := read_whole_iff steady m (by rw [ahead,List.length_append]; omega)
  have still := steady_read steady m
  rw [brought,Option.getD_some] at short parts whole
  obtain ⟨k,count⟩ : ∃ k, (b :: bs).length = k := ⟨_,rfl⟩
  rw [count] at short whole
  have positive : 1 ≤ k := by
    rw [← count]
    simp
  -- The bytes in front are those of the data.
  have front : b :: bs = p.take k := by
    have cut := congrArg (List.take k) (ahead.symm.trans parts)
    rw [List.take_append_of_le_length (by omega),← count,List.take_left] at cut
    rw [← cut,count]
  have behind : contents (read m s.feed).2 = p.drop k ++ packetEnd :: rest := by
    have cut := congrArg (List.drop k) (ahead.symm.trans parts)
    rw [List.drop_append_of_le_length (by omega),← count,List.drop_left] at cut
    rw [← cut,count]
  -- As many are skipped as would have been left behind all that was asked for.
  obtain ⟨ch,tail,split⟩ : ∃ ch tail, (p.drop k ++ packetEnd :: rest).drop (p.length - m) = ch :: tail := by
    refine List.exists_cons_of_ne_nil (List.drop_eq_nil_iff.not.mpr ?_)
    simp only [List.length_append,List.length_drop,List.length_cons]
    omega
  have join : p.drop k ++ packetEnd :: rest = (p.drop k ++ packetEnd :: rest).take (p.length - m) ++ ch :: tail := by
    rw [← split,List.take_append_drop]
  have total := congrArg List.length split
  simp only [List.length_drop,List.length_append,List.length_cons] at total
  rw [size]
  obtain ⟨g,ends,left⟩ := rest_of_body { s with feed := (read m s.feed).2, data := p.take k ++ s.data.drop k } still (4 + m)
    (p.length - m) m _ ch tail (by
      simp only [List.length_take,List.length_append,List.length_drop,List.length_cons]
      omega) (by omega) (behind.trans join)
  refine ⟨k,g,ch,positive,short,whole,?_,by rw [left]; omega,?_⟩
  · have data : readData m s = Option.some (.ok (),
        { s with feed := (read m s.feed).2, data := p.take k ++ s.data.drop k }) := by
      have result : read m s.feed = (Option.some (b :: bs),(read m s.feed).2) := Prod.ext brought rfl
      have used : bs.length + 1 = k := count
      rw [readData,result]
      simp only [front,used]
    have start : 4 + p.length = 4 + m + (p.length - m) := by omega
    refine value_ends ?_
    rw [body,if_pos ⟨rfl,by omega,by omega⟩,size,bind_ok data,within,if_pos (by omega),bind_index,start]
    exact ends
  · intro all
    have none : p.length - m + k = p.length := by omega
    have exact : (p.drop k ++ packetEnd :: rest).drop (p.length - m) = packetEnd :: rest := by
      have count : (p.drop k).length = p.length - m := by
        rw [List.length_drop]
        omega
      rw [← count,List.drop_left]
    rw [exact] at split
    obtain ⟨rfl,rfl⟩ := List.cons.inj split
    exact ⟨rfl,left⟩

/-- Exactly when no piece of the stream ends inside the data that go to the buffer. -/
theorem recovers_iff (opcode unit : Byte) (p junk rest : List Byte) (small : p.length ≤ 251) (clean : packetStart ∉ junk)
    (datasz : Nat) (room : 0 < datasz) (s : Conn) (steady : Steady s.feed)
    (arrives : contents s.feed = junk ++ packet opcode unit p ++ rest) :
    Recovers opcode unit p rest datasz (value (devserverRecv true datasz) s) ↔
      Joined s.feed (junk.length + 4) (min p.length datasz) := by
  have length : (BitVec.ofNat 8 p.length).toNat = p.length := by
    rw [BitVec.toNat_ofNat]
    exact Nat.mod_eq_of_lt (by omega)
  obtain ⟨g,header,after⟩ := recv_header true datasz s steady junk (p ++ packetEnd :: rest) opcode unit
    (BitVec.ofNat 8 p.length) clean (by rw [arrives]; simp [packet])
  rw [length] at header
  have joined := after.joined 0 (min p.length datasz)
  rw [Nat.add_zero] at joined
  rw [joined,value,header]
  by_cases filled : p = []
  · subst filled
    obtain ⟨last,ends,left⟩ := body_empty { s with feed := g, opcode := opcode, unit := unit } after.steady datasz rest
      after.contents
    refine iff_of_true ⟨_,ends,rfl,rfl,by simp,left⟩ ?_
    intro before after _
    simp
  · obtain ⟨k,last,ch,_,_,whole,ends,left,good⟩ := body_data { s with feed := g, opcode := opcode, unit := unit }
      after.steady datasz p rest small room filled after.contents
    rw [← whole]
    constructor
    · rintro ⟨t,result,_,_,_,gone⟩
      obtain ⟨_,rfl⟩ := Prod.mk.inj (Option.some.inj (ends.symm.trans result))
      have count := congrArg List.length gone
      simp only at count
      omega
    · intro all
      obtain ⟨mark,behind⟩ := good all
      rw [if_pos mark] at ends
      refine ⟨_,ends,rfl,rfl,?_,behind⟩
      have size : (p.take k).length = k := by
        rw [List.length_take]
        omega
      have cut : p.take k = p.take datasz := by
        rw [all]
        rcases Nat.le_total p.length datasz with short | long
        · rw [Nat.min_eq_left short,List.take_length,List.take_of_length_le short]
        · rw [Nat.min_eq_right long]
      change (p.take k ++ s.data.drop k).take (min p.length datasz) = _
      rw [← all,List.take_append_of_le_length (by omega),List.take_of_length_le (by omega),cut]

def cutInside : Conn := ⟨[some ((packet 1 2 [7,0xEB]).take 5),some ((packet 1 2 [7,0xEB]).drop 5)],0,0,List.replicate 16 0⟩

theorem cut_not_recovered : ¬ Recovers 1 2 [7,0xEB] [] 16 (value (devserverRecv true 16) cutInside) := by
  have ends : (value (devserverRecv true 16) cutInside).map (fun r => contents r.2.feed) = some [0xEB] := by
    decide +kernel
  rintro ⟨t,result,_,_,_,gone⟩
  rw [result,Option.map_some,gone] at ends
  exact absurd ends (by decide)

theorem recovers_once : Recovers 1 2 [7,0xEB] [9] 16
    (value (devserverRecv true 16) ⟨[some [4],some (packet 1 2 [7,0xEB] ++ [9])],0,0,List.replicate 16 0⟩) := by
  refine (recovers_iff 1 2 [7,0xEB] [4] [9] (by decide) (by decide) 16 (by decide) _ ?_ (by decide)).mpr ?_
  · intro piece held
    simp only [List.mem_cons,List.not_mem_nil,or_false] at held
    rcases held with rfl | rfl
    · exact ⟨4,[],rfl⟩
    · exact ⟨packetStart,_,rfl⟩
  · intro before after same
    rcases before with _ | ⟨first,_ | ⟨second,before⟩⟩
    · simp
    · obtain ⟨rfl,_⟩ := List.cons.inj same
      simp
    · obtain ⟨rfl,more⟩ := List.cons.inj same
      obtain ⟨rfl,_⟩ := List.cons.inj more
      simp [packet]

end Mybmm.Framing
