import Mybmm.Can

/-! What a read of a frame has to keep to: a value that is not negative only with a
whole frame of the wanted identifier, received in this call and delivered. -/
namespace Mybmm.CanReads
open Arrays Feed Routine Devserver Can

def Wanted (id : BitVec 32) (frame : RawFrame) : Prop := id = anyId ∨ canId frame = id

/-- The bytes of a frame that a read for an identifier is after. -/
def asked (id : BitVec 32) (frame : RawFrame) : List Byte :=
  if id = anyId then frame else (payload frame).take (canDlc frame)

/-- The buffer starts with the bytes of the frame, as many as it takes. -/
def Delivered (id : BitVec 32) (buflen : Nat) (frame : RawFrame) (code : Int) (buf : List Byte) : Prop :=
  code = (min buflen (asked id frame).length : Nat) ∧ buf.take (min buflen (asked id frame).length) =
    (asked id frame).take buflen

/-- `Received` tells which whole frames a call that leaves `rest` has received. -/
def Sound {ρ : Type} (id : BitVec 32) (buflen : Nat) (Received : ρ → RawFrame → Prop) : Outcome ρ → Prop
  | .blocked => True
  | .undefined => False
  | .returned code buf rest =>
    (∃ frame, Received rest frame ∧ Wanted id frame ∧ Delivered id buflen frame code buf) ∨
      (code = -1 ∧ ∀ frame, Received rest frame → ¬ Wanted id frame)

def CopyFits (id : BitVec 32) (buflen : Nat) (frame : RawFrame) : Prop :=
  id = anyId ∨ min buflen (canDlc frame) ≤ 8

private theorem delivered_overlay (id : BitVec 32) (buflen : Nat) (frame : RawFrame) (buf : List Byte) (m : Nat)
    (size : m = min buflen (asked id frame).length) :
    Delivered id buflen frame m (overlay buf ((asked id frame).take buflen)) := by
  have count : ((asked id frame).take buflen).length = m := by rw [List.length_take,size]
  refine ⟨by rw [size],?_⟩
  rw [overlay,← size,← count,List.take_left]

private theorem copyOut_cases (id : BitVec 32) (buflen : Nat) (frame : RawFrame) (buf : List Byte)
    (whole : frame.length = frameSize) :
    (CopyFits id buflen frame ∧ ∃ (len : Nat) (out : List Byte), copyOut id frame buflen buf = some (len,out) ∧
      Delivered id buflen frame len out) ∨ (¬ CopyFits id buflen frame ∧ copyOut id frame buflen buf = none) := by
  unfold CopyFits copyOut
  by_cases any : id = anyId
  · have all : asked id frame = frame := if_pos any
    have cut : frame.take (min buflen frameSize) = (asked id frame).take buflen := by
      rw [all,← whole,← List.take_take,List.take_length]
    refine Or.inl ⟨Or.inl any,_,_,if_pos any,?_⟩
    rw [cut]
    exact delivered_overlay id buflen frame buf _ (by rw [all,whole])
  · rw [if_neg any]
    have data : asked id frame = (payload frame).take (canDlc frame) := if_neg any
    have eight : (payload frame).length = 8 := by rw [payload,List.length_drop,whole]; rfl
    by_cases fits : min buflen (canDlc frame) ≤ 8
    · have cut : (payload frame).take (min buflen (canDlc frame)) = (asked id frame).take buflen := by
        rw [data,List.take_take]
      refine Or.inl ⟨Or.inr fits,_,_,if_pos fits,?_⟩
      rw [cut]
      refine delivered_overlay id buflen frame buf _ ?_
      rw [data,List.length_take,eight]
      omega
    · exact Or.inr ⟨fun all => all.elim any fits,if_neg fits⟩

/-! The socket. -/

/-- The whole frames among the results that the call took. -/
def Taken (results rest : Results) (frame : RawFrame) : Prop :=
  ∃ taken bytes, results = taken ++ rest ∧ some bytes ∈ taken ∧ frameSize ≤ bytes.length ∧ frame = bytes.take frameSize

/-- The first result that fails, or leaves the wanted identifier in the frame, is a
whole frame and can be copied. -/
def EndsWhole (id : BitVec 32) (buflen : Nat) : RawFrame → Results → Prop
  | _, [] => True
  | _, none :: _ => False
  | frame, some bytes :: rest =>
    let frame := overlay frame (bytes.take frameSize)
    if id = anyId ∨ canId frame = id then frameSize ≤ bytes.length ∧ CopyFits id buflen frame
    else EndsWhole id buflen frame rest

private theorem taken_cons (bytes : List Byte) (results rest : Results) (ends : ∃ taken, results = taken ++ rest)
    (frame : RawFrame) : Taken (some bytes :: results) rest frame ↔
      (frameSize ≤ bytes.length ∧ frame = bytes.take frameSize) ∨ Taken results rest frame := by
  obtain ⟨taken,rfl⟩ := ends
  have exactly (other : Results) (same : taken ++ rest = other ++ rest) : taken = other := List.append_cancel_right same
  constructor
  · rintro ⟨others,bs,same,held,whole,rfl⟩
    have all : some bytes :: taken = others := List.append_cancel_right same
    rw [← all,List.mem_cons] at held
    rcases held with this | later
    · obtain rfl := Option.some.inj this
      exact Or.inl ⟨whole,rfl⟩
    · exact Or.inr ⟨taken,bs,rfl,later,whole,rfl⟩
  · rintro (⟨whole,rfl⟩ | ⟨others,bs,same,held,whole,rfl⟩)
    · exact ⟨some bytes :: taken,bytes,rfl,by simp,whole,rfl⟩
    · obtain rfl := exactly others same
      exact ⟨some bytes :: taken,bs,rfl,by simp [held],whole,rfl⟩

/-- How the loop ends: on a frame that is there when the results are gone, on a
whole frame that is wanted, or on something else, with no wanted frame before. -/
private theorem canLoop_cases (id : BitVec 32) (buflen : Nat) (frame : RawFrame) (results : Results)
    (held : frame.length = frameSize) :
    (EndsWhole id buflen frame results ∧ canLoop id frame results = none) ∨
      ∃ last rest, canLoop id frame results = some (last,rest) ∧ last.length = frameSize ∧ (∃ taken, results = taken ++ rest) ∧
        ((Taken results rest last ∧ Wanted id last ∧ (EndsWhole id buflen frame results ↔ CopyFits id buflen last)) ∨
          (¬ EndsWhole id buflen frame results ∧ ∀ f, Taken results rest f → ¬ Wanted id f)) := by
  induction results generalizing frame with
  | nil => exact Or.inl ⟨trivial,rfl⟩
  | cons result results ih =>
    cases result with
    | none =>
      refine Or.inr ⟨frame,results,rfl,held,⟨[none],rfl⟩,Or.inr ⟨fun whole => whole,?_⟩⟩
      rintro f ⟨taken,bytes,same,inside,_,_⟩
      obtain rfl : [none] = taken := List.append_cancel_right same
      simp at inside
    | some bytes =>
      obtain ⟨next,laid⟩ : ∃ next, overlay frame (bytes.take frameSize) = next := ⟨_,rfl⟩
      have size : next.length = frameSize := by
        rw [← laid,overlay_length _ _ (by rw [List.length_take,held]; omega),held]
      have same (whole : frameSize ≤ bytes.length) : next = bytes.take frameSize := by
        rw [← laid,overlay_whole _ _ (by rw [List.length_take,held]; omega)]
      simp only [EndsWhole,canLoop,laid]
      by_cases wanted : id = anyId ∨ canId next = id
      · have leaves : ¬ (id ≠ anyId ∧ canId next ≠ id) := by tauto
        rw [if_pos wanted,if_neg leaves]
        refine Or.inr ⟨next,results,rfl,size,⟨[some bytes],rfl⟩,?_⟩
        by_cases whole : frameSize ≤ bytes.length
        · exact Or.inl ⟨⟨[some bytes],bytes,rfl,by simp,whole,same whole⟩,wanted,by simp [whole]⟩
        · refine Or.inr ⟨fun both => whole both.1,?_⟩
          rintro f ⟨taken,bs,parts,inside,long,_⟩
          obtain rfl : [some bytes] = taken := List.append_cancel_right parts
          obtain rfl : bs = bytes := by simpa using inside
          exact absurd long whole
      · have goes : id ≠ anyId ∧ canId next ≠ id := by tauto
        rw [if_neg wanted,if_pos goes]
        rcases ih next size with ends | ⟨last,rest,left,full,ends,found⟩
        · exact Or.inl ends
        · refine Or.inr ⟨last,rest,left,full,?_,?_⟩
          · obtain ⟨taken,rfl⟩ := ends
            exact ⟨some bytes :: taken,rfl⟩
          · simp only [taken_cons bytes results rest ends]
            rcases found with ⟨taken,good,fits⟩ | ⟨cut,none⟩
            · exact Or.inl ⟨Or.inr taken,good,fits⟩
            · refine Or.inr ⟨cut,fun f held => ?_⟩
              rcases held with ⟨whole,rfl⟩ | later
              · rw [← same whole]
                exact wanted
              · exact none f later

private theorem not_failed {len : Nat} : ¬ ((len : Int) = -1) := by omega

private theorem can_sound_iff (fd : Int) (id : BitVec 32) (buflen : Nat) (buf : List Byte) (stale : RawFrame)
    (held : stale.length = frameSize) (results : Results) :
    Sound id buflen (Taken results) (canRead fd id buflen buf stale results) ↔
      (fd < 0 ∨ EndsWhole id buflen stale results) := by
  unfold canRead
  by_cases closed : fd < 0
  · rw [if_pos closed]
    refine iff_of_true (Or.inr ⟨rfl,?_⟩) (Or.inl closed)
    rintro frame ⟨taken,bytes,same,inside,_,_⟩
    obtain rfl : [] = taken := List.append_cancel_right same
    simp at inside
  · rw [if_neg closed]
    simp only [closed,false_or]
    rcases canLoop_cases id buflen stale results held with ⟨whole,loop⟩ | ⟨last,rest,loop,size,_,found⟩
    · rw [loop]
      exact iff_of_true trivial whole
    · rw [loop]
      simp only
      rcases copyOut_cases id buflen last buf size with ⟨fits,len,out,copied,done⟩ | ⟨large,copied⟩
      · rw [copied]
        rcases found with ⟨taken,wanted,whole⟩ | ⟨cut,none⟩
        · exact iff_of_true (Or.inl ⟨last,taken,wanted,done⟩) (whole.mpr fits)
        · refine iff_of_false ?_ cut
          rintro (⟨frame,taken,wanted,_⟩ | ⟨failed,_⟩)
          · exact none frame taken wanted
          · exact not_failed failed
      · rw [copied]
        refine iff_of_false (fun sound => sound) fun whole => ?_
        rcases found with ⟨_,_,same⟩ | ⟨cut,_⟩
        · exact large (same.mp whole)
        · exact cut whole

/-! The server. -/

/-- The frames that a call has received in a whole packet with the status of success. -/
def Replied (feed rest : Pieces Byte) (frame : RawFrame) : Prop :=
  ∃ junk unit data, packetStart ∉ junk ∧ data.length < 256 ∧ frameSize ≤ data.length ∧ frame = data.take frameSize ∧
    contents feed = junk ++ packet 0 unit data ++ contents rest

/-- Receiving fails, or takes a whole frame that is wanted and can be copied. -/
def RepliesWhole (id : BitVec 32) (buflen : Nat) (stale : RawFrame) (feed : Pieces Byte) : Prop :=
  match value (devserverRecv true frameSize) (replyTo stale feed) with
  | none => False
  | some (bytes,conn) =>
    bytes < 0 ∨ ∃ frame, Replied feed conn.feed frame ∧ Wanted id frame ∧ CopyFits id buflen frame

/-- What a run that takes exactly the data and the end mark has done. -/
private theorem body_replied (s t : Conn) (ending : Except Int Int) (data : List Byte) (large : frameSize ≤ data.length)
    (held : s.data.length = frameSize) (run : body true frameSize data.length s = some (ending,t))
    (ahead : contents s.feed = data ++ packetEnd :: contents t.feed) :
    ending = .ok (frameSize : Int) ∧ t.data = data.take frameSize := by
  have sixteen : min data.length frameSize = frameSize := Nat.min_eq_right large
  have filled : data.length ≠ 0 := by
    simp only [frameSize] at large
    omega
  have count := congrArg List.length ahead
  simp only [List.length_append,List.length_cons] at count
  rw [body,if_pos ⟨rfl,by decide,filled⟩,sixteen] at run
  rcases readData_cases frameSize s with ⟨xs,g,read,short,parts⟩ | ⟨g,read,parts⟩
  · obtain ⟨mid,next⟩ : ∃ mid : Conn, mid = { s with feed := g, data := xs ++ s.data.drop xs.length } := ⟨_,rfl⟩
    rw [← next] at read
    have room : within (4 + frameSize) mid = some (.ok (),mid) := by rw [within,if_pos (by decide)]; rfl
    rw [bind_ok read,bind_ok room] at run
    obtain ⟨kept,ys,bound,left⟩ := drain_finish_cases run
    have behind : contents mid.feed = contents g := by rw [next]
    rw [parts,← behind] at ahead count
    rcases left with none | ⟨b,left,rfl⟩
    -- Without the end mark fewer bytes are gone than there were ahead.
    · rw [none] at count
      simp only [List.length_append] at count
      omega
    · rw [left] at ahead
      have ends : xs ++ ys ++ [b] ++ contents t.feed = data ++ [packetEnd] ++ contents t.feed := by
        simpa only [List.append_assoc,List.singleton_append] using ahead
      obtain ⟨front,mark⟩ := List.append_inj' (List.append_cancel_right ends) rfl
      have sizes := congrArg List.length front
      rw [List.length_append] at sizes
      have all : xs.length = frameSize := by omega
      refine ⟨if_pos (List.head_eq_of_cons_eq mark),?_⟩
      rw [kept,next,← front,← all,List.take_left]
      simp only
      rw [List.drop_of_length_le (by omega),List.append_nil]
  · rw [bind_error read] at run
    obtain ⟨rfl,rfl⟩ := Prod.mk.inj (Option.some.inj run)
    simp only [fed,parts] at count
    omega

private theorem start_unique {junk junk' xs ys : List Byte} (clean : packetStart ∉ junk) (clean' : packetStart ∉ junk')
    (same : junk ++ packetStart :: xs = junk' ++ packetStart :: ys) : junk = junk' ∧ xs = ys := by
  induction junk generalizing junk' with
  | nil =>
    cases junk' with
    | nil => exact ⟨rfl,(List.cons.inj same).2⟩
    | cons b junk' => exact absurd (by simp [(List.cons.inj same).1]) clean'
  | cons b junk ih =>
    cases junk' with
    | nil => exact absurd (by simp [(List.cons.inj same).1]) clean
    | cons c junk' =>
      obtain ⟨rfl,rest⟩ := List.cons.inj same
      rw [List.mem_cons,not_or] at clean clean'
      obtain ⟨rfl,rfl⟩ := ih clean.2 clean'.2 rest
      exact ⟨rfl,rfl⟩

private theorem readByte_taken {β : Type} {f : Byte → Routine Conn β} {s t : Conn} {ending : Except Int β} {b : Byte}
    {rest : List Byte} (run : (readByte >>= f) s = some (ending,t)) (ahead : contents s.feed = b :: rest)
    (longer : (contents t.feed).length < (contents s.feed).length) :
    ∃ g, f b (fed g s) = some (ending,t) ∧ contents g = rest := by
  rcases readByte_cases s with ⟨c,g,read,parts⟩ | ⟨g,read,parts⟩
  · rw [bind_ok read] at run
    obtain ⟨rfl,rfl⟩ := List.cons.inj (ahead.symm.trans parts)
    exact ⟨g,run,rfl⟩
  · rw [bind_error read] at run
    obtain ⟨_,rfl⟩ := Prod.mk.inj (Option.some.inj run)
    simp only [fed,parts] at longer
    omega

private theorem recv_replied (s t : Conn) (ending : Except Int Int) (held : s.data.length = frameSize) (frame : RawFrame)
    (run : devserverRecv true frameSize s = some (ending,t)) (replied : Replied s.feed t.feed frame) :
    ending = .ok (frameSize : Int) ∧ t.data = frame := by
  obtain ⟨junk,unit,data,clean,small,large,rfl,ahead⟩ := replied
  have length : (BitVec.ofNat 8 data.length).toNat = data.length := by
    rw [BitVec.toNat_ofNat]
    exact Nat.mod_eq_of_lt small
  have start : contents s.feed = junk ++ packetStart :: 0 :: unit :: BitVec.ofNat 8 data.length ::
      (data ++ packetEnd :: contents t.feed) := by
    rw [ahead]
    simp [packet]
  rcases findStart_cases s with ⟨junk',g,clean',⟨found,parts⟩ | ⟨code,found,parts⟩⟩
  · obtain ⟨_,after⟩ := start_unique clean clean' (start.symm.trans parts)
    rw [devserverRecv,bind_ok found] at run
    have size := congrArg List.length after
    simp only [List.length_append,List.length_cons] at size
    obtain ⟨g2,run,after2⟩ := readByte_taken run after.symm (by simp only [fed]; omega)
    rw [bind_modify] at run
    have size2 := congrArg List.length after2
    simp only [List.length_append,List.length_cons] at size2
    obtain ⟨g3,run,after3⟩ := readByte_taken run after2 (by simp only [fed]; omega)
    rw [bind_modify] at run
    have size3 := congrArg List.length after3
    simp only [List.length_append,List.length_cons] at size3
    obtain ⟨g4,run,after4⟩ := readByte_taken run after3 (by simp only [fed]; omega)
    rw [length] at run
    refine body_replied _ t ending data large ?_ run after4
    exact held
  · rw [devserverRecv,bind_error found] at run
    obtain ⟨_,rfl⟩ := Prod.mk.inj (Option.some.inj run)
    have whole : junk ++ packet 0 unit data = junk' := List.append_cancel_right (ahead.symm.trans parts)
    exact absurd (by simp [← whole,packet]) clean'

private theorem replied_length {feed rest : Pieces Byte} {frame : RawFrame} (replied : Replied feed rest frame) :
    frame.length = frameSize := by
  obtain ⟨_,_,data,_,_,large,rfl,_⟩ := replied
  rw [List.length_take]
  omega

private theorem ip_sound_iff (fd : Int) (id : BitVec 32) (buflen : Nat) (buf : List Byte) (stale : RawFrame)
    (held : stale.length = frameSize) (feed : Pieces Byte) :
    Sound id buflen (Replied feed) (canIpRead fd id buflen buf stale feed) ↔
      (fd < 0 ∨ RepliesWhole id buflen stale feed) := by
  unfold canIpRead RepliesWhole
  by_cases closed : fd < 0
  · rw [if_pos closed]
    refine iff_of_true (Or.inr ⟨rfl,?_⟩) (Or.inl closed)
    rintro frame ⟨junk,unit,data,_,_,_,_,ahead⟩
    have size := congrArg List.length ahead
    simp only [packet,List.length_append,List.length_cons] at size
    omega
  rw [if_neg closed]
  simp only [closed,false_or]
  rcases result : devserverRecv true frameSize (replyTo stale feed) with _ | ⟨ending,conn⟩
  · have none : value (devserverRecv true frameSize) (replyTo stale feed) = none := by rw [value,result]; rfl
    rw [none]
    exact Iff.rfl
  -- A frame that was received decides the value and is what is copied.
  have replied (frame : RawFrame) := recv_replied (replyTo stale feed) conn ending held frame result
  obtain ⟨bytes,same,reads⟩ : ∃ bytes, value (devserverRecv true frameSize) (replyTo stale feed) = some (bytes,conn) ∧
      ∀ n, ending = .ok n → bytes = n := by
    cases ending with
    | ok n => exact ⟨n,by rw [value,result]; rfl,fun m eq => Except.ok.inj eq⟩
    | error code => exact ⟨code,by rw [value,result]; rfl,fun m eq => by contradiction⟩
  rw [same]
  simp only
  have positive (frame : RawFrame) (there : Replied feed conn.feed frame) : bytes = (frameSize : Int) ∧ conn.data = frame :=
    ⟨reads _ (replied frame there).1,(replied frame there).2⟩
  by_cases failed : bytes < 0
  · rw [if_pos failed]
    refine iff_of_true (Or.inr ⟨rfl,fun frame there => ?_⟩) (Or.inl failed)
    have := (positive frame there).1
    simp only [frameSize] at this
    omega
  · rw [if_neg failed]
    simp only [failed,false_or]
    constructor
    · intro sound
      cases copied : copyOut id conn.data buflen buf with
      | none =>
        rw [copied] at sound
        exact sound.elim
      | some out =>
        rw [copied] at sound
        rcases sound with ⟨frame,there,wanted,_⟩ | ⟨code,_⟩
        · obtain ⟨_,copy⟩ := positive frame there
          refine ⟨frame,there,wanted,?_⟩
          rcases copyOut_cases id buflen frame buf (replied_length there) with ⟨fits,_⟩ | ⟨_,none⟩
          · exact fits
          · rw [copy,none] at copied
            contradiction
        · exact absurd code not_failed
    · rintro ⟨frame,there,wanted,fits⟩
      obtain ⟨_,copy⟩ := positive frame there
      rcases copyOut_cases id buflen frame buf (replied_length there) with ⟨_,len,out,copied,done⟩ | ⟨large,_⟩
      · rw [copy,copied]
        exact Or.inl ⟨frame,there,wanted,done⟩
      · exact absurd fits large

/-- Both reads keep to it exactly when what they wait for ends in a whole frame. -/
theorem reads_sound_iff (fd : Int) (id : BitVec 32) (buflen : Nat) (buf : List Byte) (stale : Vector Byte frameSize)
    (results : Results) (feed : Pieces Byte) :
    (Sound id buflen (Taken results) (canRead fd id buflen buf stale.toList results) ↔
        (fd < 0 ∨ EndsWhole id buflen stale.toList results)) ∧
      (Sound id buflen (Replied feed) (canIpRead fd id buflen buf stale.toList feed) ↔
        (fd < 0 ∨ RepliesWhole id buflen stale.toList feed)) :=
  ⟨can_sound_iff fd id buflen buf stale.toList stale.length_toList results,
    ip_sound_iff fd id buflen buf stale.toList stale.length_toList feed⟩

theorem failed_read_returned :
    ¬ Sound 0x305 8 (Taken [none]) (canRead 3 0x305 8 (List.replicate 8 0) (List.replicate 16 0) [none]) := by
  rintro (⟨frame,⟨taken,bytes,same,held,_,_⟩,_⟩ | ⟨code,_⟩)
  · obtain rfl : [none] = taken := List.append_cancel_right same
    simp at held
  · exact absurd code (by decide)

end Mybmm.CanReads
