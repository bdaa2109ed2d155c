import Mybmm.JbdPackets

/-! `jbd_rw` with the memory it touches: its own buffer, which holds what the last
read brought, and the caller's, which it clears and fills. -/
namespace Mybmm.JbdExchange
open Arrays Jbd JbdAgree JbdPackets

/-- The arguments: `data` is the caller's memory from the pointer on, `datasz` the
bytes of it that are the call's to use. -/
structure Request where
  action : Byte
  reg : Byte
  data : Nat → Byte
  datasz : Nat

/-- `buf` is what has been received, `stores` where `data` has been written. -/
structure Exchange where
  buf : List Byte
  data : Nat → Byte
  stores : List Nat

/-- A run of bytes of the local buffer. Past what has been received there is none. -/
def slice (buf : List Byte) (off n : Nat) : Option (List Byte) :=
  if off + n ≤ buf.length then some ((buf.drop off).take n) else none

def memset (b : Byte) (n : Nat) (e : Exchange) : Exchange :=
  { e with data := fun i => if i < n then b else e.data i, stores := e.stores ++ List.range n }

/-- `memcpy` into the caller's memory. -/
def memcpy (src : List Byte) (e : Exchange) : Exchange :=
  { e with data := fun i => src[i]?.getD (e.data i), stores := e.stores ++ List.range src.length }

/-- `jbd_verify`, byte by byte: whether it takes the packet. -/
def jbdVerifyAt (buf : List Byte) : Option Bool := do
  if buf.length < 7 then return false
  let start ← buf[0]?
  if start ≠ 0xDD then return false
  let _register ← buf[1]?
  -- The status is not compared.
  let _status ← buf[2]?
  let length ← buf[3]?
  let dataLength := length.toNat
  if dataLength ≠ buf.length - 7 then return false
  let summed ← slice buf 2 (dataLength + 2)
  let hi ← buf[4 + dataLength]?
  let lo ← buf[5 + dataLength]?
  if jbdCrc summed ≠ getshort hi lo then return false
  let stop ← buf[6 + dataLength]?
  return stop = 0x77

/-- The tries that are left. The command goes out before each, and what comes back
is the transport's affair. -/
def tries (q : Request) (answer : Nat → Option (List Byte)) : (left k : Nat) → Exchange → Option (Int × Exchange)
  | 0, _, e => some (-1,e)
  | left + 1, k, e => do
    let e := memset 0 q.datasz e
    match answer k with
    | none => return (-1,e)
    | some received =>
      let e := { e with buf := received.take 256 }
      if ← jbdVerifyAt e.buf then
        let length ← e.buf[3]?
        let payload ← slice e.buf 4 length.toNat
        return (length.toNat,memcpy payload e)
      else tries q answer left (k + 1) e

def jbdRw (q : Request) (answer : Nat → Option (List Byte)) : Option (Int × Exchange) :=
  tries q answer 3 0 ⟨[],q.data,[]⟩

/-! What the loads see. -/

theorem slice_inside (buf : List Byte) (off n : Nat) (inside : off + n ≤ buf.length) :
    slice buf off n = some ((buf.drop off).take n) := if_pos inside

theorem slice_reply (reg status : Byte) (data : List Byte) :
    slice (reply reg status data) 4 data.length = some data := by
  rw [slice_inside _ _ _ (by rw [reply_length]; omega)]
  simp [reply]

private theorem split_last {rest : List Byte} {n : Nat} (length : rest.length = n + 3) :
    ∃ data hi lo stop, rest = data ++ [hi,lo,stop] ∧ data.length = n := by
  have three : (rest.drop n).length = 3 := by rw [List.length_drop]; omega
  obtain ⟨hi,lo,stop,ends⟩ := List.length_eq_three.mp three
  refine ⟨rest.take n,hi,lo,stop,?_,by rw [List.length_take]; omega⟩
  rw [← ends,List.take_append_drop]

theorem jbdVerifyAt_eq (buf : List Byte) : jbdVerifyAt buf = some (jbdVerify buf).isSome := by
  by_cases short : buf.length < 7
  · have refused : jbdVerify buf = none := by
      rw [jbdVerify_eq_none_iff]
      rintro ⟨reg,status,data,_,rfl⟩
      rw [reply_length] at short
      omega
    simp [jbdVerifyAt,short,refused]
  obtain ⟨start,reg,status,length,rest,same⟩ : ∃ start reg status length rest,
      buf = start :: reg :: status :: length :: rest := by
    match buf with
    | start :: reg :: status :: length :: rest => exact ⟨start,reg,status,length,rest,rfl⟩
    | [] | [_] | [_,_] | [_,_,_] => simp at short
  have at0 : buf[0]? = some start := by simp [same]
  have at1 : buf[1]? = some reg := by simp [same]
  have at2 : buf[2]? = some status := by simp [same]
  have at3 : buf[3]? = some length := by simp [same]
  have total : buf.length = rest.length + 4 := by simp [same]
  simp only [jbdVerifyAt,if_neg short,at0,at1,at2,at3,Option.bind_eq_bind,Option.bind_some]
  by_cases begins : start = 0xDD
  · rw [if_neg (not_not_intro begins)]
    by_cases sized : length.toNat = buf.length - 7
    · have last : rest.length = length.toNat + 3 := by omega
      obtain ⟨data,hi,lo,stop,split,count⟩ := split_last last
      have summed : slice buf 2 (length.toNat + 2) = some (status :: length :: data) := by
        rw [slice_inside _ _ _ (by omega)]
        simp [same,split,← count]
      have at4 : buf[4 + length.toNat]? = some hi := by simp [same,split,← count,Nat.add_comm 4]
      have at5 : buf[5 + length.toNat]? = some lo := by simp [same,split,← count,Nat.add_comm 5]
      have at6 : buf[6 + length.toNat]? = some stop := by simp [same,split,← count,Nat.add_comm 6]
      have checked : jbdVerify buf =
          if jbdCrc (status :: length :: data) = getshort hi lo ∧ stop = 0x77 then some data else none := by
        simp [jbdVerify,same,split,← count,begins]
      rw [if_neg (not_not_intro sized),summed,at4,at5,at6,checked]
      simp only [Option.bind_some]
      by_cases crc : jbdCrc (status :: length :: data) = getshort hi lo
      · rw [if_neg (not_not_intro crc)]
        by_cases stops : stop = 0x77
        · simp only [crc,stops,true_and,if_true,decide_true,Option.isSome_some]
          rfl
        · simp only [crc,stops,and_false,if_false,decide_false,Option.isSome_none]
          rfl
      · rw [if_pos crc]
        simp [crc]
    · have refused : jbdVerify buf = none := by
        rw [same]
        simp only [jbdVerify]
        split
        · rename_i hi lo stop ends
          have dropped := congrArg List.length ends
          simp only [List.length_drop,List.length_cons,List.length_nil] at dropped
          omega
        · rfl
      rw [if_pos sized,refused]
      rfl
  · have refused : jbdVerify buf = none := by
      rw [jbdVerify_eq_none_iff]
      rintro ⟨reg,status,data,_,rfl⟩
      exact begins (List.cons.inj same).1.symm
    rw [if_pos begins,refused]
    rfl

/-! What a call comes to. -/

def packetIn (bytes : List Byte) : Option (List Byte) :=
  if (jbdVerify (bytes.take 256)).isSome then some (bytes.take 256) else none

/-- A call that has taken a packet leaves it in the local buffer and its data in the
caller's memory, over what it has cleared there. -/
structure Accepted (q : Request) (before : Exchange) (buf payload : List Byte) (after : Exchange) : Prop where
  taken : jbdVerify buf = some payload
  buf : after.buf = buf
  filled : ∀ i < payload.length, i ∈ after.stores
  stores : ∀ i ∈ after.stores, i ∈ before.stores ∨ i < q.datasz ∨ i < payload.length
  data : ∀ i, after.data i = payload[i]?.getD (if i < q.datasz then 0 else before.data i)

private theorem memset_stores (q : Request) (e : Exchange) (i : Nat) (stored : i ∈ (memset 0 q.datasz e).stores) :
    i ∈ e.stores ∨ i < q.datasz := by
  rcases List.mem_append.mp stored with old | new
  · exact Or.inl old
  · exact Or.inr (List.mem_range.mp new)

theorem tries_ends (q : Request) (answer : Nat → Option (List Byte)) (left k : Nat) (e : Exchange) :
    (attempt packetIn answer left k = none ∧
      ∃ after, tries q answer left k e = some (-1,after) ∧ ∀ i ∈ after.stores, i ∈ e.stores ∨ i < q.datasz) ∨
    ∃ buf payload after, attempt packetIn answer left k = some buf ∧
      tries q answer left k e = some (payload.length,after) ∧ Accepted q e buf payload after := by
  induction left generalizing k e with
  | zero => exact Or.inl ⟨rfl,e,rfl,fun _ old => Or.inl old⟩
  | succ left ih =>
    cases brought : answer k with
    | none =>
      refine Or.inl ⟨by simp [attempt,brought],memset 0 q.datasz e,?_,memset_stores q e⟩
      simp [tries,brought]
    | some received =>
      cases taken : jbdVerify (received.take 256) with
      | none =>
        have refused : packetIn received = none := by simp [packetIn,taken]
        have next : tries q answer (left + 1) k e =
            tries q answer left (k + 1) { memset 0 q.datasz e with buf := received.take 256 } := by
          simp [tries,brought,jbdVerifyAt_eq,taken]
        rw [next,attempt,brought]
        dsimp only
        rw [refused]
        rcases ih (k + 1) { memset 0 q.datasz e with buf := received.take 256 } with
          ⟨none,after,ends,stores⟩ | ⟨buf,payload,after,some,ends,accepted⟩
        · refine Or.inl ⟨none,after,ends,fun i stored => ?_⟩
          exact (stores i stored).elim (memset_stores q e i) Or.inr
        · refine Or.inr ⟨buf,payload,after,some,ends,accepted.taken,accepted.buf,accepted.filled,?_,fun i => ?_⟩
          · intro i stored
            rcases accepted.stores i stored with old | new
            · exact (memset_stores q e i old).imp_right Or.inl
            · exact Or.inr new
          · rw [accepted.data i]
            refine congrArg payload[i]?.getD ?_
            simp only [memset]
            split <;> rfl
      | some payload =>
        obtain ⟨fits,reg,status,same⟩ := jbdVerify_some taken
        have accepted : packetIn received = some (received.take 256) := by simp [packetIn,taken]
        refine Or.inr ⟨received.take 256,payload,
          memcpy payload { memset 0 q.datasz e with buf := received.take 256 },?_,?_,taken,rfl,?_,?_,fun i => rfl⟩
        · rw [attempt,brought]
          dsimp only
          rw [accepted]
        · have at3 : (reply reg status payload)[3]? = some (BitVec.ofNat 8 payload.length) := rfl
          simp only [tries,brought,jbdVerifyAt_eq,same,jbdVerify_reply reg status payload fits,Option.isSome_some,
            Option.bind_eq_bind,Option.bind_some,if_true,at3,toNat_length fits,slice_reply]
          rfl
        · exact fun i inside => List.mem_append_right _ (List.mem_range.mpr inside)
        · intro i stored
          rcases List.mem_append.mp stored with old | new
          · exact (memset_stores q e i old).imp_right Or.inl
          · exact Or.inr (Or.inr (List.mem_range.mp new))

private theorem packetIn_eq_some_iff (bytes buf : List Byte) :
    packetIn bytes = some buf ↔ bytes.take 256 = buf ∧ IsPacket buf := by
  unfold packetIn
  split
  · rename_i taken
    rw [Option.some.injEq]
    exact ⟨fun same => ⟨same,same ▸ (jbdVerify_isSome_iff _).mp taken⟩,And.left⟩
  · rename_i refused
    simp only [reduceCtorEq,false_iff]
    rintro ⟨rfl,packet⟩
    exact refused ((jbdVerify_isSome_iff _).mpr packet)

private theorem packetIn_eq_none_iff (bytes : List Byte) : packetIn bytes = none ↔ ¬IsPacket (bytes.take 256) := by
  rw [← jbdVerify_isSome_iff]
  simp [packetIn]

private theorem attempt_first_iff (answer : Nat → Option (List Byte)) (buf : List Byte) :
    attempt packetIn answer 3 0 = some buf ↔
      ∃ reg status data, FirstPacket answer reg status data ∧ buf = reply reg status data := by
  rw [attempt_eq_some_iff]
  simp only [Nat.zero_add,packetIn_eq_none_iff,packetIn_eq_some_iff]
  constructor
  · rintro ⟨k,below,⟨bytes,here,same,reg,status,data,_,rfl⟩,before⟩
    exact ⟨reg,status,data,⟨k,below,⟨bytes,here,same⟩,before⟩,rfl⟩
  · rintro ⟨reg,status,data,first,rfl⟩
    have fits := first.fits
    obtain ⟨k,below,⟨bytes,here,same⟩,before⟩ := first
    exact ⟨k,below,⟨bytes,here,same,reg,status,data,by omega,rfl⟩,before⟩

private theorem jbdRw_ends (q : Request) (answer : Nat → Option (List Byte)) :
    ((∀ reg status data, ¬FirstPacket answer reg status data) ∧
      ∃ after, jbdRw q answer = some (-1,after) ∧ ∀ i ∈ after.stores, i < q.datasz) ∨
    ∃ reg status data after, FirstPacket answer reg status data ∧ jbdRw q answer = some ((data.length : Int),after) ∧
      Accepted q ⟨[],q.data,[]⟩ (reply reg status data) data after := by
  rcases tries_ends q answer 3 0 ⟨[],q.data,[]⟩ with ⟨none,after,ends,stores⟩ | ⟨buf,payload,after,some,ends,accepted⟩
  · refine Or.inl ⟨fun reg status data first => ?_,after,ends,fun i stored => by simpa using stores i stored⟩
    have taken := (attempt_first_iff answer _).mpr ⟨reg,status,data,first,rfl⟩
    rw [none] at taken
    contradiction
  · obtain ⟨reg,status,data,first,rfl⟩ := (attempt_first_iff answer buf).mp some
    have fits := first.fits
    obtain rfl : data = payload := by
      have taken := accepted.taken
      rw [jbdVerify_reply reg status data (by omega)] at taken
      exact Option.some.inj taken
    exact Or.inr ⟨reg,status,data,after,first,ends,accepted⟩

private theorem reply_inj {reg status reg' status' : Byte} {data data' : List Byte} (fits : data.length ≤ 255)
    (fits' : data'.length ≤ 255) (same : reply reg status data = reply reg' status' data') :
    reg = reg' ∧ status = status' ∧ data = data' := by
  have payload := congrArg jbdVerify same
  rw [jbdVerify_reply _ _ _ fits,jbdVerify_reply _ _ _ fits'] at payload
  simp only [reply,List.cons.injEq] at same
  exact ⟨same.2.1,same.2.2.1,Option.some.inj payload⟩

private theorem firstPacket_unique {answer : Nat → Option (List Byte)} {reg status reg' status' : Byte}
    {data data' : List Byte}
    (first : FirstPacket answer reg status data) (other : FirstPacket answer reg' status' data') :
    reg = reg' ∧ status = status' ∧ data = data' := by
  have one := (attempt_first_iff answer _).mpr ⟨reg,status,data,first,rfl⟩
  have two := (attempt_first_iff answer _).mpr ⟨reg',status',data',other,rfl⟩
  exact reply_inj (Nat.le_trans first.fits (by decide)) (Nat.le_trans other.fits (by decide))
    (Option.some.inj (one.symm.trans two))

private theorem firstPacket_always (reg status : Byte) (data : List Byte) (fits : data.length ≤ 249) :
    FirstPacket (fun _ => some (reply reg status data)) reg status data := by
  refine ⟨0,by decide,⟨_,rfl,List.take_of_length_le ?_⟩,fun j none => absurd none (by omega)⟩
  rw [reply_length]
  omega

/-- What the reads of a pack take for granted of a request: its code, and the
caller's memory, in which the bytes that were not received are zeros. -/
theorem jbdRw_refines (q : Request) (replies : Replies) (request : Nat) :
    (Jbd.jbdRw replies request = none ∧ ∃ after, jbdRw q (replies request) = some (-1,after)) ∨
    ∃ data after, Jbd.jbdRw replies request = some data ∧ jbdRw q (replies request) = some ((data.length : Int),after) ∧
      ∀ i, after.data i = data[i]?.getD (if i < q.datasz then 0 else q.data i) := by
  rcases jbdRw_ends q (replies request) with ⟨none,after,ends,_⟩ | ⟨reg,status,data,after,first,ends,accepted⟩
  · refine Or.inl ⟨Option.eq_none_iff_forall_ne_some.mpr fun data taken => ?_,after,ends⟩
    obtain ⟨reg,status,first⟩ := (jbdRw_eq_some_iff replies request data).mp taken
    exact none reg status data first
  · exact Or.inr ⟨data,after,(jbdRw_eq_some_iff replies request data).mpr ⟨reg,status,first⟩,ends,accepted.data⟩

/-- A call that returns data returns the requested register's, without an error,
exactly when the first packet that arrives is such an answer. -/
theorem answers_iff (q : Request) (answer : Nat → Option (List Byte)) :
    (∀ result after, jbdRw q answer = some (result,after) → 0 ≤ result →
        after.buf[1]? = some q.reg ∧ after.buf[2]? = some 0) ↔
      ∀ reg status data, FirstPacket answer reg status data → reg = q.reg ∧ status = 0 := by
  rcases jbdRw_ends q answer with ⟨none,after,ends,_⟩ | ⟨reg,status,data,after,first,ends,accepted⟩
  · constructor
    · exact fun _ reg status data first => absurd first (none reg status data)
    · intro _ result after' returned good
      rw [ends] at returned
      obtain rfl : -1 = result := congrArg Prod.fst (Option.some.inj returned)
      exact absurd good (by decide)
  · have at1 : after.buf[1]? = some reg := by rw [accepted.buf]; rfl
    have at2 : after.buf[2]? = some status := by rw [accepted.buf]; rfl
    constructor
    · intro answers reg' status' data' other
      obtain ⟨asked,good⟩ := answers _ after ends (Int.natCast_nonneg _)
      rw [at1,Option.some.injEq] at asked
      rw [at2,Option.some.injEq] at good
      obtain ⟨rfl,rfl,_⟩ := firstPacket_unique first other
      exact ⟨asked,good⟩
    · intro answers result after' returned _
      rw [ends] at returned
      obtain rfl : after = after' := congrArg Prod.snd (Option.some.inj returned)
      obtain ⟨rfl,rfl⟩ := answers reg status data first
      exact ⟨at1,at2⟩

/-- `JBD_CMD_READ` of the first register, into a buffer of `jbd_get_pack`. -/
def hwinfoRequest : Request := ⟨0xA5,0x03,fun _ => 0,128⟩

/-- A late error reply for another register is taken for the answer. -/
theorem stale_error_taken : ¬∀ result after,
    jbdRw hwinfoRequest (fun _ => some (reply 0x04 0x80 [])) = some (result,after) → 0 ≤ result →
      after.buf[1]? = some hwinfoRequest.reg ∧ after.buf[2]? = some 0 := by
  intro answers
  rcases jbdRw_ends hwinfoRequest (fun _ => some (reply 0x04 0x80 [])) with
    ⟨none,_⟩ | ⟨reg,status,data,after,first,ends,accepted⟩
  · exact none _ _ _ (firstPacket_always 0x04 0x80 [] (by decide))
  · obtain ⟨rfl,rfl,rfl⟩ := firstPacket_unique first (firstPacket_always 0x04 0x80 [] (by decide))
    have asked := (answers _ after ends (by decide)).1
    rw [accepted.buf] at asked
    exact absurd asked (by decide)

/-- A call stays inside the caller's memory exactly when the first packet that
arrives has no more data than the caller has room for. -/
theorem inside_iff (q : Request) (answer : Nat → Option (List Byte)) :
    (∃ result after, jbdRw q answer = some (result,after) ∧ ∀ i ∈ after.stores, i < q.datasz) ↔
      ∀ reg status data, FirstPacket answer reg status data → data.length ≤ q.datasz := by
  rcases jbdRw_ends q answer with ⟨none,after,ends,stores⟩ | ⟨reg,status,data,after,first,ends,accepted⟩
  · exact iff_of_true ⟨-1,after,ends,stores⟩ fun reg status data first => absurd first (none reg status data)
  · constructor
    · rintro ⟨result,after',returned,inside⟩ reg' status' data' other
      rw [ends] at returned
      obtain rfl : after = after' := congrArg Prod.snd (Option.some.inj returned)
      obtain ⟨_,_,rfl⟩ := firstPacket_unique first other
      by_contra past
      have last := inside q.datasz (accepted.filled q.datasz (by omega))
      omega
    · intro fits
      refine ⟨_,after,ends,fun i stored => ?_⟩
      have room := fits reg status data first
      rcases accepted.stores i stored with old | cleared | copied
      · simp at old
      · exact cleared
      · omega

theorem long_reply_overruns : ¬∃ result after,
    jbdRw hwinfoRequest (fun _ => some (reply 0x03 0 (List.replicate 129 0))) = some (result,after) ∧
      ∀ i ∈ after.stores, i < hwinfoRequest.datasz := by
  rintro ⟨result,after',returned,inside⟩
  rcases jbdRw_ends hwinfoRequest (fun _ => some (reply 0x03 0 (List.replicate 129 0))) with
    ⟨none,_⟩ | ⟨reg,status,data,after,first,ends,accepted⟩
  · exact none _ _ _ (firstPacket_always 0x03 0 (List.replicate 129 0) (by simp))
  · obtain ⟨rfl,rfl,rfl⟩ := firstPacket_unique first (firstPacket_always 0x03 0 (List.replicate 129 0) (by simp))
    rw [ends] at returned
    obtain rfl : after = after' := congrArg Prod.snd (Option.some.inj returned)
    exact absurd (inside 128 (accepted.filled 128 (by simp))) (by decide)

end Mybmm.JbdExchange
