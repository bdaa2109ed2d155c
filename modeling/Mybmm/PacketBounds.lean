import Mybmm.Devserver

/-! dsfuncs.c: the copies of a packet, 256 bytes each. A payload may be 255 bytes
long, and the packet has five more. -/
namespace Mybmm.PacketBounds
open Arrays Feed Routine Devserver

/-- What is copied: nothing without a buffer or without a length. -/
def payload {datasz : Nat} (data : Option (Vector Byte datasz)) : List Byte :=
  if datasz ≠ 0 then (data.map Vector.toList).getD [] else []

/-- `devserver_send`; `pkt` is what the array holds at first, and the payload, if
there is any, is as long as is said. -/
def devserverSend (fd : Int) (opcode unit : Byte) {datasz : Nat} (data : Option (Vector Byte datasz))
    (pkt : Vector Byte 256) (write : List Byte → Int) : Option Int :=
  if fd < 0 then some (-1) else do
  let pkt ← put pkt 0 packetStart
  let pkt ← put pkt 1 opcode
  let pkt ← put pkt 2 unit
  let pkt ← put pkt 3 (BitVec.ofNat 8 datasz)
  let pkt ← putAll pkt 4 (payload data)
  let i := 4 + (payload data).length
  let pkt ← put pkt i packetEnd
  return write (pkt.toList.take (i + 1))

/-- What the call leaves in the caller's buffer: no more than it has been told of. -/
def Stored (data : Bool) (datasz : Nat) (before after : List Byte) : Prop :=
  ∃ bytes, bytes.length ≤ (if data then datasz else 0) ∧ after = bytes ++ before.drop bytes.length

def Bounded (data : Bool) (datasz : Nat) (s : Conn) : Prop :=
  ∃ ending t, devserverRecv data datasz s = some (ending,t) ∧ Stored data datasz s.data t.data

/-! What a packet has to keep to. -/

/-- Up to and with the length byte. -/
def header : Routine Conn Byte := do
  findStart
  let opcode ← readByte
  modify fun s => { s with opcode := opcode }
  let unit ← readByte
  modify fun s => { s with unit := unit }
  readByte

/-- Where the end mark is looked for, behind a payload that is read in one call, if
anywhere, and drained for the rest. -/
def behind (data : Bool) (datasz len : Nat) (feed : Pieces Byte) : Option (Pieces Byte) :=
  if data = true ∧ datasz ≠ 0 ∧ len ≠ 0 then
    match read (min len datasz) feed with
    | (some (_ :: _),rest) => some (advance (len - min len datasz) rest)
    | _ => none
  else some (advance len feed)

/-- The length leaves room for the header and the mark, or for the header alone when
there is no mark, or else nothing comes of the payload. -/
def Roomy (data : Bool) (datasz : Nat) (s : Conn) : Prop :=
  ∀ len t, header s = some (.ok len,t) → ∀ rest, behind data datasz len.toNat t.feed = some rest →
    len.toNat ≤ 251 ∨ (len.toNat = 252 ∧ (read 1 rest).1 ≠ some [packetEnd])

/-! Sending. -/

private theorem payload_length {datasz : Nat} (data : Option (Vector Byte datasz)) :
    (payload data).length = if data.isSome then datasz else 0 := by
  unfold payload
  cases data with
  | none => simp
  | some data =>
    by_cases empty : datasz = 0
    · simp [empty]
    · simp [empty]

/-- The array is filled from its start, with the header, the payload and the mark. -/
private theorem devserverSend_eq (fd : Int) (valid : ¬ fd < 0) (opcode unit : Byte) {datasz : Nat}
    (data : Option (Vector Byte datasz)) (pkt : Vector Byte 256) (write : List Byte → Int) :
    devserverSend fd opcode unit data pkt write =
      (putAll pkt 0 (packetStart :: opcode :: unit :: BitVec.ofNat 8 datasz :: payload data ++ [packetEnd])).map
        fun pkt => write (pkt.toList.take (4 + (payload data).length + 1)) := by
  rw [devserverSend,if_neg valid]
  simp only [List.cons_append,putAll,putAll_append,Option.map_eq_bind,Option.bind_assoc,Option.bind_some,
    Option.bind_eq_bind,Nat.zero_add]
  rfl

private theorem send_isSome_iff (fd : Int) (opcode unit : Byte) {datasz : Nat} (data : Option (Vector Byte datasz))
    (pkt : Vector Byte 256) (write : List Byte → Int) :
    (devserverSend fd opcode unit data pkt write).isSome ↔ fd < 0 ∨ data = none ∨ datasz ≤ 251 := by
  by_cases failed : fd < 0
  · simp [devserverSend,failed]
  · rw [devserverSend_eq fd failed,Option.isSome_map,putAll_isSome_iff]
    simp only [List.length_append,List.length_cons,List.length_nil,payload_length,failed,false_or]
    cases data with
    | none => simp
    | some data =>
      simp only [List.append_eq_nil_iff,List.cons_ne_nil,and_false,false_or,reduceCtorEq,Option.isSome_some,if_true]
      omega

theorem send_packet (fd : Int) (valid : ¬ fd < 0) (opcode unit : Byte) {datasz : Nat} (data : Vector Byte datasz)
    (fits : datasz ≤ 251) (pkt : Vector Byte 256) (write : List Byte → Int) :
    devserverSend fd opcode unit (some data) pkt write = some (write (packet opcode unit data.toList)) := by
  have copied : payload (some data) = data.toList := by
    unfold payload
    by_cases empty : datasz = 0
    · subst empty
      simp
    · simp [empty]
  have whole : packetStart :: opcode :: unit :: BitVec.ofNat 8 datasz :: payload (some data) ++ [packetEnd] =
      packet opcode unit data.toList := by
    rw [copied,packet,Vector.length_toList]
  have count : (packet opcode unit data.toList).length = 4 + datasz + 1 := by
    simp only [packet,List.length_append,List.length_cons,List.length_nil,Vector.length_toList]
    omega
  rw [devserverSend_eq fd valid,whole,copied,Vector.length_toList,← count]
  obtain ⟨filled,done⟩ := putAll_some pkt 0 (packet opcode unit data.toList) (by omega)
  have same : filled.toList.take (packet opcode unit data.toList).length = packet opcode unit data.toList := by
    refine List.ext_getElem ?_ fun i inside within => ?_
    · rw [List.length_take,Vector.length_toList]
      omega
    have bound : i < 256 := by omega
    rw [List.getElem_take,Vector.getElem_toList,putAll_getElem done i bound]
    simp [within]
  rw [done,Option.map_some,same]

/-! Receiving. -/

private theorem devserverRecv_eq (data : Bool) (datasz : Nat) :
    devserverRecv data datasz = (header >>= fun len => body data datasz len.toNat) := by
  simp only [devserverRecv,header,bind_assoc]

private theorem header_total (s : Conn) : ∃ ending t, header s = some (ending,t) ∧ t.data = s.data := by
  obtain ⟨_,g,_,⟨found,_⟩ | ⟨code,found,_⟩⟩ := findStart_cases s
  swap
  · exact ⟨_,_,bind_error found,rfl⟩
  rw [header,bind_ok found]
  obtain ⟨opcode,g,read,_⟩ | ⟨g,read,_⟩ := readByte_cases (fed g s)
  swap
  · exact ⟨_,_,bind_error read,rfl⟩
  rw [bind_ok read,bind_modify]
  obtain ⟨unit,g,read,_⟩ | ⟨g,read,_⟩ := readByte_cases { fed g (fed _ s) with opcode := opcode }
  swap
  · exact ⟨_,_,bind_error read,rfl⟩
  rw [bind_ok read,bind_modify]
  obtain ⟨len,g,read,_⟩ | ⟨g,read,_⟩ := readByte_cases { fed g { fed _ (fed _ s) with opcode := opcode } with unit := unit }
  · exact ⟨_,_,read,rfl⟩
  · exact ⟨_,_,read,rfl⟩

private theorem finish_isSome_iff (s : Conn) (i len : Nat) :
    (finish i len s).isSome ↔ i + 1 ≤ 256 ∨ (read 1 s.feed).1 ≠ some [packetEnd] := by
  have short := read_length 1 s.feed
  rcases result : read 1 s.feed with ⟨_ | _ | ⟨ch,more⟩,g⟩
  · have last : readByte s = some (.error (-1),fed g s) := by simp only [readByte,result]
    rw [finish,bind_error last]
    simp
  · have last : readByte s = some (.error (-1),fed g s) := by simp only [readByte,result]
    rw [finish,bind_error last]
    simp
  rw [result] at short
  obtain rfl : more = [] := List.length_eq_zero_iff.mp (by simpa using short)
  have last : readByte s = some (.ok ch,fed g s) := by simp only [readByte,result]
  rw [finish,bind_ok last]
  by_cases mark : ch = packetEnd
  · rw [if_neg (not_not.mpr mark),mark]
    by_cases room : i + 1 ≤ 256
    · rw [within,if_pos room,bind_index]
      simp [pure,room]
    · rw [within,if_neg room,bind_none rfl]
      simp [room]
  · rw [if_pos mark]
    simp [orReturn,mark]

/-- Behind the payload: the bytes left go to `i`, and the mark behind them. -/
private theorem tail_isSome_iff (s : Conn) (i left j len : Nat) (behind : j = i + left) :
    ((do drain left i; finish j len : Routine Conn Int) s).isSome ↔
      j ≤ 255 ∨ (j = 256 ∧ (read 1 (advance left s.feed)).1 ≠ some [packetEnd]) := by
  subst behind
  by_cases fits : i + left ≤ 256
  · have drained : drain left i s = some (.ok (),fed (advance left s.feed) s) := by
      rw [drain,within,if_pos fits,bind_index]
      rfl
    rw [bind_ok drained,finish_isSome_iff]
    change i + left + 1 ≤ 256 ∨ (read 1 (advance left s.feed)).1 ≠ some [packetEnd] ↔ _
    constructor
    · rintro (room | bare)
      · exact Or.inl (by omega)
      · rcases Nat.lt_or_eq_of_le fits with less | full
        · exact Or.inl (by omega)
        · exact Or.inr ⟨full,bare⟩
    · rintro (room | ⟨_,bare⟩)
      · exact Or.inl (by omega)
      · exact Or.inr bare
  · rw [bind_none (by rw [drain,within,if_neg fits]; rfl)]
    simp only [Option.isSome_none,Bool.false_eq_true,false_iff]
    omega

private theorem stored_same (data : Bool) (datasz : Nat) (before : List Byte) : Stored data datasz before before :=
  ⟨[],Nat.zero_le _,rfl⟩

private theorem tail_bounded_iff (data : Bool) (datasz i left j len : Nat) (before : List Byte) (s : Conn)
    (stored : Stored data datasz before s.data) (behind : j = i + left) :
    (∃ ending t, (do drain left i; finish j len : Routine Conn Int) s = some (ending,t) ∧
        Stored data datasz before t.data) ↔
      j ≤ 255 ∨ (j = 256 ∧ (read 1 (advance left s.feed)).1 ≠ some [packetEnd]) := by
  rw [← tail_isSome_iff s i left j len behind]
  constructor
  · rintro ⟨ending,t,run,_⟩
    rw [run]
    rfl
  · intro defined
    obtain ⟨⟨ending,t⟩,run⟩ := Option.isSome_iff_exists.mp defined
    refine ⟨ending,t,run,?_⟩
    rw [(drain_finish_cases run).1]
    exact stored

private theorem body_bounded_iff (data : Bool) (datasz len : Nat) (s : Conn) :
    (∃ ending t, body data datasz len s = some (ending,t) ∧ Stored data datasz s.data t.data) ↔
      ∀ rest, behind data datasz len s.feed = some rest →
        len ≤ 251 ∨ (len = 252 ∧ (read 1 rest).1 ≠ some [packetEnd]) := by
  have small : 4 + len ≤ 255 ↔ len ≤ 251 := by omega
  have full : 4 + len = 256 ↔ len = 252 := by omega
  by_cases copies : data = true ∧ datasz ≠ 0 ∧ len ≠ 0
  swap
  · have tail := tail_bounded_iff data datasz 4 len (4 + len) len s.data s (stored_same data datasz s.data) rfl
    rw [body,if_neg copies]
    refine tail.trans ?_
    simp only [behind,if_neg copies,Option.some.injEq,forall_eq',small,full]
  have short := read_length (min len datasz) s.feed
  simp only [behind,if_pos copies]
  rcases result : read (min len datasz) s.feed with ⟨_ | _ | ⟨b,bs⟩,g⟩
  · have failed : readData (min len datasz) s = some (.error (-1),fed g s) := by simp only [readData,result]
    rw [body,if_pos copies,bind_error failed]
    exact iff_of_true ⟨_,_,rfl,stored_same data datasz s.data⟩ (by simp)
  · have failed : readData (min len datasz) s = some (.error (-1),fed g s) := by simp only [readData,result]
    rw [body,if_pos copies,bind_error failed]
    exact iff_of_true ⟨_,_,rfl,stored_same data datasz s.data⟩ (by simp)
  rw [result] at short
  simp only [Option.getD_some] at short
  have brought : readData (min len datasz) s =
      some (.ok (),{ s with feed := g, data := b :: bs ++ s.data.drop (bs.length + 1) }) := by
    simp only [readData,result]
  rw [body,if_pos copies,bind_ok brought]
  simp only [Option.some.injEq,forall_eq']
  by_cases room : 4 + min len datasz ≤ 256
  · rw [within,if_pos room,bind_index]
    have stored : Stored data datasz s.data (b :: bs ++ s.data.drop (bs.length + 1)) := by
      refine ⟨b :: bs,?_,by rw [List.length_cons]⟩
      rw [if_pos copies.1]
      omega
    refine (tail_bounded_iff data datasz (4 + min len datasz) (len - min len datasz) (4 + len) (min len datasz) s.data
      { s with feed := g, data := b :: bs ++ s.data.drop (bs.length + 1) } stored (by omega)).trans ?_
    simp only [small,full]
  · rw [within,if_neg room,bind_none rfl]
    refine iff_of_false (by simp) ?_
    rintro (within | ⟨edge,_⟩) <;> omega

private theorem recv_bounded_iff (data : Bool) (datasz : Nat) (s : Conn) : Bounded data datasz s ↔ Roomy data datasz s := by
  obtain ⟨ending,t,done,kept⟩ := header_total s
  rw [Bounded,devserverRecv_eq]
  cases ending with
  | error code =>
    rw [bind_error done]
    refine iff_of_true ⟨_,_,rfl,?_⟩ ?_
    · rw [kept]
      exact stored_same data datasz s.data
    · intro len t' other
      rw [done] at other
      simp at other
  | ok len =>
    rw [bind_ok done,← kept,body_bounded_iff]
    constructor
    · intro roomy len' t' other
      obtain ⟨same,rfl⟩ := Prod.mk.inj (Option.some.inj (done.symm.trans other))
      obtain rfl := Except.ok.inj same
      exact roomy
    · exact fun roomy => roomy len t done

/-- Both stay inside: the sender exactly when it has at most 251 bytes to copy, the
receiver exactly when the packet leaves it room. -/
theorem packets_bounded_iff (fd : Int) (opcode unit : Byte) (length : Nat) (bytes : Option (Vector Byte length))
    (pkt : Vector Byte 256) (write : List Byte → Int) (data : Bool) (datasz : Nat) (s : Conn) :
    ((devserverSend fd opcode unit bytes pkt write).isSome ↔ fd < 0 ∨ bytes = none ∨ length ≤ 251) ∧
      (Bounded data datasz s ↔ Roomy data datasz s) :=
  ⟨send_isSome_iff fd opcode unit bytes pkt write,recv_bounded_iff data datasz s⟩

/-- A packet that says it has 255 bytes, to a caller with room for sixteen. -/
def longest : Conn := ⟨[some (0xD5 :: 0 :: 0 :: 0xFF :: List.replicate 255 7 ++ [0xEB])],0,0,List.replicate 16 0⟩

theorem longest_outside :
    (devserverSend 3 1 2 (some (Vector.replicate 255 7)) (Vector.replicate 256 0) fun _ => 0) = none ∧
      ¬ Bounded true 16 longest := by
  constructor
  · have outside := send_isSome_iff 3 1 2 (some (Vector.replicate 255 (7 : Byte))) (Vector.replicate 256 0) fun _ => 0
    simpa using outside
  · have outside : (devserverRecv true 16 longest).isSome = false := by decide +kernel
    rintro ⟨ending,t,received,_⟩
    rw [received] at outside
    contradiction

end Mybmm.PacketBounds
