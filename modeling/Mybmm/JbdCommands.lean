import Mybmm.JbdExchange
import Mybmm.Support.Rounding

/-! Commands of the serial line: how `jbd_cmd` builds one, what `jbd_verify` makes of
it and of a packet with a wrong byte, and what `jbd_rw` hands to the transport. -/
namespace Mybmm.JbdCommands
open Arrays Jbd JbdAgree JbdPackets JbdExchange Rounding

/-- `_putshort`: the value goes through a `float`. -/
def putshort (v : BitVec 16) : List Byte :=
  let tmp := rounded 24 v.toNat
  [BitVec.ofNat 8 (tmp >>> 8),BitVec.ofNat 8 tmp]

/-- The memory from `pkt` on, and where it has been written. -/
structure Command where
  pkt : Nat → Byte
  stores : List Nat

def poke (off : Nat) (src : List Byte) (c : Command) : Command where
  pkt i := if i < off then c.pkt i else src[i - off]?.getD (c.pkt i)
  stores := c.stores ++ List.range' off src.length

def peek (pkt : Nat → Byte) (off n : Nat) : List Byte := (List.range' off n).map pkt

def jbdCmdRead : Int := 0xA5

def payload (action : Int) (data : List Byte) : List Byte := if action = jbdCmdRead then [] else data

def jbdCmd (pkt : Nat → Byte) (pktSize : Nat) (action : Int) (reg : BitVec 16) (data : List Byte) : Int × Command :=
  let data := payload action data
  let c := poke 0 (List.replicate pktSize 0) ⟨pkt,[]⟩
  let c := poke 0 [0xDD,BitVec.ofInt 8 action,reg.setWidth 8,BitVec.ofNat 8 data.length] c
  if pktSize < 4 + data.length then (-1,c) else
  let c := poke 4 data c
  let crc := jbdCrc (peek c.pkt 2 (data.length + 2))
  let c := poke (4 + data.length) (putshort crc) c
  let c := poke (4 + data.length + 2) [0x77] c
  ((4 + data.length + 3 : Nat),c)

/-! The command in memory. -/

private theorem putshort_eq (v : BitVec 16) : putshort v = bytes v := by
  have short : v.toNat < 2 ^ 24 := by
    have bound := v.isLt
    omega
  simp only [putshort,rounded_exact (by decide) short,bytes,List.cons.injEq,and_true]
  constructor
  · refine BitVec.eq_of_toNat_eq ?_
    simp [BitVec.extractLsb'_toNat]
  · refine BitVec.eq_of_toNat_eq ?_
    simp [BitVec.extractLsb'_toNat]

private theorem peek_slice (pkt : Nat → Byte) (off n m : Nat) (inside : off + n ≤ m) :
    slice (peek pkt 0 m) off n = some (peek pkt off n) := by
  rw [slice_inside _ _ _ (by simpa [peek] using inside)]
  simp only [peek,← List.map_drop,← List.map_take,List.drop_range',Nat.zero_add,Nat.mul_one]
  rw [List.take_range'_of_length_ge (by omega)]

private theorem peek_poke (off : Nat) (src : List Byte) (c : Command) :
    peek (poke off src c).pkt 0 (off + src.length) = peek c.pkt 0 off ++ src := by
  apply List.ext_getElem
  · simp [peek]
  · intro i left right
    simp only [peek,List.length_map,List.length_range'] at left
    by_cases before : i < off
    · simp [peek,poke,before,List.getElem_append_left]
    · have behind : i - off < src.length := by omega
      rw [List.getElem_append_right (by simpa [peek] using before)]
      simp [peek,poke,before,behind]

/-- A command built in full: its bytes, and everything that has been written. -/
structure Built (pktSize : Nat) (frame : List Byte) (c : Command) : Prop where
  bytes : peek c.pkt 0 frame.length = frame
  stores : ∀ i, i ∈ c.stores ↔ i < pktSize ∨ i < frame.length

/-- A command is laid out as a reply is, with the action for the register. -/
def commandFrame (action : Int) (reg : BitVec 16) (data : List Byte) : List Byte :=
  reply (BitVec.ofInt 8 action) (reg.setWidth 8) (payload action data)

private theorem jbdCmd_refused (pkt : Nat → Byte) (pktSize : Nat) (action : Int) (reg : BitVec 16) (data : List Byte)
    (large : pktSize < 4 + (payload action data).length) : (jbdCmd pkt pktSize action reg data).1 = -1 := by
  simp [jbdCmd,large]

private theorem jbdCmd_built (pkt : Nat → Byte) (pktSize : Nat) (action : Int) (reg : BitVec 16) (data : List Byte)
    (fits : 4 + (payload action data).length ≤ pktSize) :
    ∃ c, jbdCmd pkt pktSize action reg data = (((payload action data).length + 7 : Int),c) ∧
      Built pktSize (commandFrame action reg data) c := by
  obtain ⟨body,same⟩ : ∃ body, payload action data = body := ⟨_,rfl⟩
  rw [same] at fits
  obtain ⟨header,four⟩ : ∃ header, header = [0xDD,BitVec.ofInt 8 action,reg.setWidth 8,BitVec.ofNat 8 body.length] :=
    ⟨_,rfl⟩
  obtain ⟨c0,cleared⟩ : ∃ c0, c0 = poke 0 (List.replicate pktSize 0) ⟨pkt,[]⟩ := ⟨_,rfl⟩
  obtain ⟨c1,headed⟩ : ∃ c1, c1 = poke 0 header c0 := ⟨_,rfl⟩
  obtain ⟨c2,filled⟩ : ∃ c2, c2 = poke 4 body c1 := ⟨_,rfl⟩
  obtain ⟨crc,summed⟩ : ∃ crc, crc = jbdCrc (peek c2.pkt 2 (body.length + 2)) := ⟨_,rfl⟩
  obtain ⟨c3,checked⟩ : ∃ c3, c3 = poke (4 + body.length) (putshort crc) c2 := ⟨_,rfl⟩
  obtain ⟨c4,ended⟩ : ∃ c4, c4 = poke (4 + body.length + 2) [0x77] c3 := ⟨_,rfl⟩
  have bytes1 : peek c1.pkt 0 4 = header := by
    have size : 4 = 0 + header.length := by rw [four]; rfl
    rw [headed,size,peek_poke]
    rfl
  have bytes2 : peek c2.pkt 0 (4 + body.length) = header ++ body := by rw [filled,peek_poke,bytes1]
  have bytes3 : peek c3.pkt 0 (4 + body.length + 2) = header ++ body ++ putshort crc := by
    rw [checked,← bytes2]
    exact peek_poke _ (putshort crc) c2
  have bytes4 : peek c4.pkt 0 (4 + body.length + 2 + 1) = header ++ body ++ putshort crc ++ [0x77] := by
    rw [ended,← bytes3]
    exact peek_poke _ [0x77] c3
  have sum : crc = jbdCrc (reg.setWidth 8 :: BitVec.ofNat 8 body.length :: body) := by
    have part := peek_slice c2.pkt 2 (body.length + 2) (4 + body.length) (by omega)
    rw [bytes2,four,slice_inside _ _ _ (by simp; omega)] at part
    rw [summed,← Option.some.inj part]
    simp
  have size : (commandFrame action reg data).length = body.length + 7 := by rw [commandFrame,reply_length,same]
  refine ⟨c4,?_,?_,fun i => ?_⟩
  · simp only [jbdCmd,same,if_neg (Nat.not_lt.mpr fits),← four,← cleared,← headed,← filled,← summed,← checked,← ended]
    refine Prod.ext ?_ rfl
    push_cast
    omega
  · have end4 : body.length + 7 = 4 + body.length + 2 + 1 := by omega
    rw [size,end4,bytes4,putshort_eq,sum,four,commandFrame,same,reply]
    simp
  · rw [size,ended,checked,filled,headed,cleared,four]
    simp only [poke,List.mem_append,List.mem_range'_1,List.length_replicate,List.not_mem_nil,false_or]
    simp only [putshort,List.length_cons,List.length_nil]
    omega

private theorem jbdVerifyAt_commandFrame (action : Int) (reg : BitVec 16) (data : List Byte)
    (short : (payload action data).length ≤ 249) :
    jbdVerifyAt (commandFrame action reg data) = some true := by
  rw [jbdVerifyAt_eq,commandFrame,jbdVerify_reply _ _ _ (by omega)]
  rfl

/-- A command is built in full and taken back as it is, with its data in place; no
checksum is lost on its way through the `float` and the sign. -/
theorem command_verifies (pkt : Nat → Byte) (pktSize : Nat) (action : Int) (reg : BitVec 16) (data : List Byte)
    (short : (payload action data).length ≤ 249) (room : (payload action data).length + 7 ≤ pktSize) :
    (∃ c, jbdCmd pkt pktSize action reg data = (((payload action data).length + 7 : Int),c) ∧
      jbdVerifyAt (peek c.pkt 0 ((payload action data).length + 7)) = some true ∧
      peek c.pkt 4 (payload action data).length = payload action data) ∧
    ∀ (sum : BitVec 16) (off : Nat) (c : Command),
      getshort ((poke off (putshort sum) c).pkt off) ((poke off (putshort sum) c).pkt (off + 1)) = sum := by
  constructor
  · obtain ⟨c,returned,built⟩ := jbdCmd_built pkt pktSize action reg data (by omega)
    have whole := built.bytes
    rw [commandFrame,reply_length] at whole
    refine ⟨c,returned,?_,?_⟩
    · rw [whole]
      exact jbdVerifyAt_commandFrame action reg data short
    · have part := peek_slice c.pkt 4 (payload action data).length ((payload action data).length + 7) (by omega)
      rw [whole,slice_reply] at part
      exact (Option.some.inj part).symm
  · intro sum off c
    have next : ¬ off + 1 < off := by omega
    simp [poke,putshort_eq,bytes,next]

theorem command_verifies_write :
    (∃ c, jbdCmd (fun _ => 0xFF) 8 0x5A 0xE1 [0x03] = (8,c) ∧ jbdVerifyAt (peek c.pkt 0 8) = some true ∧
      peek c.pkt 4 1 = [0x03]) ∧
    ∀ (sum : BitVec 16) (off : Nat) (c : Command),
      getshort ((poke off (putshort sum) c).pkt off) ((poke off (putshort sum) c).pkt (off + 1)) = sum :=
  command_verifies (fun _ => 0xFF) 8 0x5A 0xE1 [0x03] (by decide) (by decide)

/-! One wrong byte. -/

private theorem sum_inj (data : List Byte) {crc crc' : BitVec 16}
    (same : data.foldl (fun crc b => crc - b.setWidth 16) crc = data.foldl (fun crc b => crc - b.setWidth 16) crc') :
    crc = crc' := by
  induction data generalizing crc crc' with
  | nil => exact same
  | cons b data ih => exact (BitVec.sub_left_inj _).mp (ih same)

/-- The sum tells a byte that it covers from any other. -/
private theorem sum_set (data : List Byte) (i : Nat) (b : Byte) (inside : i < data.length) (crc : BitVec 16)
    (same : (data.set i b).foldl (fun crc b => crc - b.setWidth 16) crc =
      data.foldl (fun crc b => crc - b.setWidth 16) crc) : b = data[i] := by
  induction data generalizing i crc with
  | nil => simp at inside
  | cons a data ih =>
    cases i with
    | zero =>
      have wide := (BitVec.sub_right_inj _).mp (sum_inj data same)
      have low := congrArg (BitVec.setWidth 8) wide
      simpa using low
    | succ i => exact ih i (Nat.lt_of_succ_lt_succ inside) _ same

private theorem bytes_inj {v w : BitVec 16} (same : bytes v = bytes w) : v = w := by
  simp only [bytes,List.cons.injEq,and_true] at same
  rw [← getshort_bytes v,same.1,same.2,getshort_bytes]

private theorem packets_apart {buf : List Byte} {i : Nat} {b : Byte} (packet : IsPacket buf)
    (changed : IsPacket (buf.set i b))
    (inside : i < buf.length) (other : i ≠ 1) : b = buf[i] := by
  obtain ⟨reg,status,data,_,rfl⟩ := packet
  obtain ⟨reg',status',data',_,same⟩ := changed
  have sizes := congrArg List.length same
  simp only [List.length_set,reply_length] at sizes
  match i with
  | 0 => exact (List.cons.inj same).1
  | 1 => exact absurd rfl other
  | i + 2 =>
    obtain ⟨summed,covered⟩ : ∃ summed, summed = status :: BitVec.ofNat 8 data.length :: data := ⟨_,rfl⟩
    obtain ⟨summed',covered'⟩ : ∃ summed', summed' = status' :: BitVec.ofNat 8 data'.length :: data' := ⟨_,rfl⟩
    have shape : reply reg status data = 0xDD :: reg :: (summed ++ (bytes (jbdCrc summed) ++ [0x77])) := by
      simp [reply,covered]
    have shape' : reply reg' status' data' = 0xDD :: reg' :: (summed' ++ (bytes (jbdCrc summed') ++ [0x77])) := by
      simp [reply,covered']
    have lengths : summed.length = summed'.length := by
      rw [covered,covered']
      simpa using sizes
    simp only [shape,shape',List.set_cons_succ,List.cons.injEq,true_and] at same
    simp only [shape,List.getElem_cons_succ]
    have rest := same.2
    by_cases within : i < summed.length
    -- The sum covers the byte.
    · rw [List.set_append_left _ _ within] at rest
      obtain ⟨front,back⟩ := List.append_inj rest (by simpa using lengths)
      have sums := bytes_inj (List.append_cancel_right back)
      rw [List.getElem_append_left within]
      exact sum_set summed i b within 0 (by rw [front]; exact sums.symm)
    -- The byte is one of the sum's or the stop byte.
    · rw [List.set_append_right _ _ (by omega)] at rest
      obtain ⟨front,back⟩ := List.append_inj rest lengths
      rw [← front] at back
      rw [List.getElem_append_right (by omega)]
      have here := congrArg (fun l : List Byte => l[i - summed.length]?) back
      have bound : i - summed.length < (bytes (jbdCrc summed) ++ [0x77]).length := by
        rw [shape] at inside
        simp only [List.length_cons,List.length_append] at inside ⊢
        omega
      simp only [List.getElem?_set_self bound,List.getElem?_eq_getElem bound,Option.some.injEq] at here
      exact here

/-- `jbd_verify` rejects a packet that it would take but for one byte, whichever
byte it is apart from the register. -/
theorem one_byte_rejected (buf : List Byte) (i : Nat) (b : Byte) (taken : jbdVerifyAt buf = some true)
    (inside : i < buf.length) (other : i ≠ 1) (changed : b ≠ buf[i]) : jbdVerifyAt (buf.set i b) = some false := by
  rw [jbdVerifyAt_eq,Option.some.injEq] at taken ⊢
  rw [Bool.eq_false_iff]
  intro again
  exact changed (packets_apart ((jbdVerify_isSome_iff buf).mp taken) ((jbdVerify_isSome_iff _).mp again) inside other)

theorem one_byte_rejected_data : jbdVerifyAt ([0xDD,0x03,0,1,0x10,0xFF,0xEF,0x77].set 4 0x11) = some false :=
  one_byte_rejected _ 4 0x11 (by decide) (by decide) (by decide) (by decide)

/-! Commands on their way to the transport. -/

structure Write where
  cmd : Nat → Byte
  len : Int

/-- The tries of `jbd_rw` with the writes so far. What a write returns is not looked
at. -/
def sends (q : Request) (answer : Nat → Option (List Byte)) (w : Write) :
    (left k : Nat) → Exchange → List Write → Option (Int × Exchange × List Write)
  | 0, _, e, ws => some (-1,e,ws)
  | left + 1, k, e, ws => do
    let ws := ws ++ [w]
    let e := memset 0 q.datasz e
    match answer k with
    | none => return (-1,e,ws)
    | some received =>
      let e := { e with buf := received.take 256 }
      if ← jbdVerifyAt e.buf then
        let length ← e.buf[3]?
        let payload ← slice e.buf 4 length.toNat
        return (length.toNat,memcpy payload e,ws)
      else sends q answer w left (k + 1) e ws

def given (q : Request) : List Byte := (List.range q.datasz).map q.data

/-- `jbd_rw`; `stack` is what its command buffer holds at first. -/
def jbdRwSends (q : Request) (answer : Nat → Option (List Byte)) (stack : Nat → Byte) :
    Option (Int × Exchange × List Write) :=
  let (cmdlen,c) := jbdCmd stack 256 q.action.toNat (q.reg.setWidth 16) (given q)
  sends q answer ⟨c.pkt,cmdlen⟩ 3 0 ⟨[],q.data,[]⟩ []

private theorem sends_tries (q : Request) (answer : Nat → Option (List Byte)) (w : Write) (left k : Nat) (e : Exchange)
    (ws : List Write) :
    (sends q answer w left k e ws).map (fun r => (r.1,r.2.1)) = tries q answer left k e := by
  induction left generalizing k e ws with
  | zero => rfl
  | succ left ih =>
    simp only [sends,tries]
    cases answer k with
    | none => rfl
    | some received =>
      simp only [jbdVerifyAt_eq,Option.bind_eq_bind,Option.bind_some]
      cases (jbdVerify (received.take 256)).isSome with
      | false => exact ih (k + 1) _ _
      | true =>
        simp only [if_true,Option.map_bind,Function.comp_def]
        rfl

private theorem sends_writes (q : Request) (answer : Nat → Option (List Byte)) (w : Write) (left k : Nat)
    (e after : Exchange)
    (ws writes : List Write) (result : Int) (run : sends q answer w left k e ws = some (result,after,writes)) :
    ∃ more, writes = ws ++ more ∧ (∀ w' ∈ more, w' = w) ∧ (0 < left → w ∈ more) := by
  induction left generalizing k e ws with
  | zero =>
    obtain ⟨_,rfl⟩ := Prod.mk.inj (Prod.mk.inj (Option.some.inj run)).2
    exact ⟨[],by simp,by simp,by simp⟩
  | succ left ih =>
    have once : ∃ more, ws ++ [w] = ws ++ more ∧ (∀ w' ∈ more, w' = w) ∧ (0 < left + 1 → w ∈ more) :=
      ⟨[w],rfl,by simp,by simp⟩
    simp only [sends] at run
    cases brought : answer k with
    | none =>
      simp only [brought] at run
      obtain ⟨_,rfl⟩ := Prod.mk.inj (Prod.mk.inj (Option.some.inj run)).2
      exact once
    | some received =>
      simp only [brought,jbdVerifyAt_eq,Option.bind_eq_bind,Option.bind_some] at run
      cases taken : (jbdVerify (received.take 256)).isSome with
      | false =>
        rw [taken,if_neg Bool.false_ne_true] at run
        obtain ⟨more,rfl,only,_⟩ := ih (k + 1) _ _ run
        exact ⟨w :: more,by simp,by simpa using only,by simp⟩
      | true =>
        rw [taken,if_pos rfl] at run
        obtain ⟨_,_,run⟩ := Option.bind_eq_some_iff.mp run
        obtain ⟨_,_,run⟩ := Option.bind_eq_some_iff.mp run
        obtain ⟨_,rfl⟩ := Prod.mk.inj (Prod.mk.inj (Option.some.inj run)).2
        exact once

private theorem sends_some (q : Request) (answer : Nat → Option (List Byte)) (w : Write) (left k : Nat) (e : Exchange)
    (ws : List Write) : ∃ result after writes, sends q answer w left k e ws = some (result,after,writes) := by
  have same := sends_tries q answer w left k e ws
  cases run : sends q answer w left k e ws with
  | some r => exact ⟨r.1,r.2.1,r.2.2,rfl⟩
  | none =>
    rw [run] at same
    rcases tries_ends q answer left k e with ⟨_,_,ends,_⟩ | ⟨_,_,_,_,ends,_⟩ <;> simp [ends] at same

/-- What the caller of `jbd_cmd` can count on. -/
def Checked (pktSize : Nat) (data : List Byte) (result : Int × Command) : Prop :=
  result.1 = -1 ∨ (∀ i ∈ result.2.stores, i < pktSize) ∧ result.1 = data.length + 7

/-- The command of a request, whole and inside the buffer it is built in. -/
structure Complete (frame : List Byte) (w : Write) : Prop where
  len : w.len = frame.length
  inside : frame.length ≤ 256
  bytes : peek w.cmd 0 frame.length = frame

private theorem checked_iff (pkt : Nat → Byte) (pktSize : Nat) (action : Int) (reg : BitVec 16) (data : List Byte) :
    Checked pktSize (payload action data) (jbdCmd pkt pktSize action reg data) ↔
      (pktSize < 4 + (payload action data).length ∨ (payload action data).length + 7 ≤ pktSize) := by
  by_cases large : pktSize < 4 + (payload action data).length
  · exact iff_of_true (Or.inl (jbdCmd_refused pkt pktSize action reg data large)) (Or.inl large)
  · obtain ⟨c,returned,built⟩ := jbdCmd_built pkt pktSize action reg data (by omega)
    have stores := built.stores
    rw [commandFrame,reply_length] at stores
    rw [returned]
    simp only [large,false_or]
    constructor
    · rintro (failed | ⟨inside,_⟩)
      · simp only at failed
        omega
      · have last := (stores ((payload action data).length + 6)).mpr (Or.inr (by omega))
        have bound := inside _ last
        omega
    · intro room
      refine Or.inr ⟨fun i stored => ?_,rfl⟩
      have bound := (stores i).mp stored
      omega

def sentData (q : Request) : List Byte := payload q.action.toNat (given q)

def sentFrame (q : Request) : List Byte := commandFrame q.action.toNat (q.reg.setWidth 16) (given q)

private theorem complete_iff (q : Request) (answer : Nat → Option (List Byte)) (stack : Nat → Byte) :
    (∃ result after writes, jbdRwSends q answer stack = some (result,after,writes) ∧
        ∀ w ∈ writes, Complete (sentFrame q) w) ↔ (sentData q).length ≤ 249 := by
  obtain ⟨cmdlen,c,built⟩ : ∃ cmdlen c, jbdCmd stack 256 q.action.toNat (q.reg.setWidth 16) (given q) = (cmdlen,c) :=
    ⟨_,_,rfl⟩
  obtain ⟨result,after,writes,run⟩ := sends_some q answer ⟨c.pkt,cmdlen⟩ 3 0 ⟨[],q.data,[]⟩ []
  obtain ⟨more,same,only,sent⟩ := sends_writes q answer _ 3 0 _ _ _ _ _ run
  obtain rfl : writes = more := same
  have whole : jbdRwSends q answer stack = some (result,after,writes) := by rw [jbdRwSends,built]; exact run
  have frame : (sentFrame q).length = (sentData q).length + 7 := by rw [sentFrame,commandFrame,reply_length]; rfl
  constructor
  · rintro ⟨_,_,writes',run',complete⟩
    rw [whole] at run'
    obtain ⟨_,rfl⟩ := Prod.mk.inj (Prod.mk.inj (Option.some.inj run')).2
    have inside := (complete _ (sent (by decide))).inside
    omega
  · intro short
    obtain ⟨c',returned,fresh⟩ := jbdCmd_built stack 256 q.action.toNat (q.reg.setWidth 16) (given q) (by
      change 4 + (sentData q).length ≤ 256
      omega)
    obtain ⟨rfl,rfl⟩ := Prod.mk.inj (built.symm.trans returned)
    refine ⟨result,after,writes,whole,fun w written => ?_⟩
    rw [only w written]
    refine ⟨?_,by omega,fresh.bytes⟩
    rw [frame]
    rfl

/-- `jbd_cmd` is bounded exactly when its size test refuses the command or there is
room for the checksum and the end mark as well; `jbd_rw` sends whole commands
exactly when they fit its buffer. -/
theorem bounded_iff (pkt : Nat → Byte) (pktSize : Nat) (action : Int) (reg : BitVec 16) (data : List Byte) (q : Request)
    (answer : Nat → Option (List Byte)) (stack : Nat → Byte) :
    (Checked pktSize (payload action data) (jbdCmd pkt pktSize action reg data) ↔
        (pktSize < 4 + (payload action data).length ∨ (payload action data).length + 7 ≤ pktSize)) ∧
      ((∃ result after writes, jbdRwSends q answer stack = some (result,after,writes) ∧
          ∀ w ∈ writes, Complete (sentFrame q) w) ↔ (sentData q).length ≤ 249) :=
  ⟨checked_iff pkt pktSize action reg data,complete_iff q answer stack⟩

/-- Room for the data of a write of one byte, and not for what follows it. -/
theorem trailer_overruns : ¬ Checked 5 (payload 0x5A [0x03]) (jbdCmd (fun _ => 0) 5 0x5A 0xE1 [0x03]) := by
  rw [checked_iff]
  decide

end Mybmm.JbdCommands
