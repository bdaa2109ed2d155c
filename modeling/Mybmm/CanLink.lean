import Mathlib.Logic.Function.Basic
import Mybmm.Support.Attributes
import Mybmm.Support.CString

/-! can.c: the netlink messages that set the bit timing of an interface and ask for it.
What lies behind the two fixed parts of a message are attributes, and attributes lie in
the data of some of them. -/
namespace Mybmm.CanLink
open Arrays Attributes CString

structure BitTiming where
  bitrate : BitVec 32
  samplePoint : BitVec 32 := 0
  tq : BitVec 32 := 0
  propSeg : BitVec 32 := 0
  phaseSeg1 : BitVec 32 := 0
  phaseSeg2 : BitVec 32 := 0
  sjw : BitVec 32 := 0
  brp : BitVec 32 := 0
deriving DecidableEq

structure CtrlMode where
  mask : BitVec 32
  flags : BitVec 32

structure ReqInfo where
  restart : Byte := 0
  disableAutorestart : Byte := 0
  restartMs : BitVec 32 := 0
  ctrlmode : Option CtrlMode := none
  bittiming : Option BitTiming := none

def long (v : BitVec 32) : List Byte :=
  [v.extractLsb' 0 8,v.extractLsb' 8 8,v.extractLsb' 16 8,v.extractLsb' 24 8]

def longAt (s : List Byte) (k : Nat) : BitVec 32 :=
  s[k + 3]?.getD 0 ++ s[k + 2]?.getD 0 ++ s[k + 1]?.getD 0 ++ s[k]?.getD 0

def BitTiming.bytes (bt : BitTiming) : List Byte :=
  [bt.bitrate,bt.samplePoint,bt.tq,bt.propSeg,bt.phaseSeg1,bt.phaseSeg2,bt.sjw,bt.brp].flatMap long

def CtrlMode.bytes (cm : CtrlMode) : List Byte := long cm.mask ++ long cm.flags

/-- What `sizeof(struct can_bittiming)` bytes are taken for. -/
def BitTiming.read (s : List Byte) : BitTiming where
  bitrate := longAt s 0
  samplePoint := longAt s 4
  tq := longAt s 8
  propSeg := longAt s 12
  phaseSeg1 := longAt s 16
  phaseSeg2 := longAt s 20
  sjw := longAt s 24
  brp := longAt s 28

def iflaIfname : Nat := 3
def iflaLinkinfo : Nat := 18
def iflaInfoKind : Nat := 1
def iflaInfoData : Nat := 2
def iflaCanBittiming : Nat := 1
def iflaCanCtrlmode : Nat := 5
def iflaCanRestartMs : Nat := 6
def iflaCanRestart : Nat := 7
def iflaInfoMax : Nat := 5
def iflaCanMax : Nat := 10

def iffUp : BitVec 32 := 1

/-- The bytes of `struct nlmsghdr` and `struct ifinfomsg`. -/
def fixedSize : Nat := 32

def reqSize : Nat := fixedSize + 1024

/-- `struct set_req`, zeroed at first. `buf` is as much of it as the length in the
message's header covers. -/
structure SetReq where
  index : Nat
  flags : BitVec 32 := 0
  change : BitVec 32 := 0
  buf : List Byte := []

def SetReq.length (n : SetReq) : Nat := fixedSize + n.buf.length

/-- The message filled up to where `NLMSG_TAIL` points. -/
def SetReq.tail (n : SetReq) : List Byte := n.buf ++ List.replicate (align n.length - n.length) 0

def addattr32 (n : SetReq) (maxlen type : Nat) (data : BitVec 32) : SetReq × Int :=
  let len := 8
  if align n.length + len > maxlen then (n,-1)
  else ({ n with buf := n.tail ++ word len ++ word type ++ long data },0)

def addattrL (n : SetReq) (maxlen type : Nat) (data : List Byte) : SetReq × Int :=
  let len := 4 + data.length
  if align n.length + align len > maxlen then (n,-1)
  else ({ n with buf := n.tail ++ word len ++ word type ++ data ++ List.replicate (align len - len) 0 },0)

/-- Sets the size of the attribute at an offset, which goes up to where the message ends now. -/
def SetReq.close (n : SetReq) (offset : Nat) : SetReq :=
  { n with buf := n.buf.take offset ++ word (n.tail.length - offset) ++ n.buf.drop (offset + 2) }

/-- The attributes in the data section for a request. What adding one gives back is not
looked at. -/
def dataSection (n : SetReq) (info : ReqInfo) : SetReq :=
  let n :=
    if info.restartMs > 0 ∨ info.disableAutorestart ≠ 0 then (addattr32 n 1024 iflaCanRestartMs info.restartMs).1 else n
  let n := if info.restart ≠ 0 then (addattr32 n 1024 iflaCanRestart 1).1 else n
  let n :=
    match info.bittiming with
    | none => n
    | some bt => (addattrL n 1024 iflaCanBittiming bt.bytes).1
  match info.ctrlmode with
  | none => n
  | some cm => (addattrL n 1024 iflaCanCtrlmode cm.bytes).1

def linkSection (n : SetReq) (info : ReqInfo) : SetReq :=
  let linkinfo := n.tail.length
  let n := (addattrL n reqSize iflaLinkinfo []).1
  let n := (addattrL n reqSize iflaInfoKind [0x63,0x61,0x6E]).1
  let data := n.tail.length
  let n := (addattrL n reqSize iflaInfoData []).1
  let n := dataSection n info
  (n.close data).close linkinfo

/-- What `do_set_nl_link` sends, if it comes to that. -/
def doSetNlLink (nametoindex : Text → Nat) (ifState : Nat) (name : Text) (info : Option ReqInfo) : Option SetReq :=
  let index := nametoindex name
  if index = 0 then none else
  let n : SetReq := { index := index }
  let state : Option SetReq :=
    match ifState with
    | 0 => some n
    | 1 => some { n with change := n.change ||| iffUp, flags := n.flags ||| iffUp }
    | 2 => some { n with change := n.change ||| iffUp, flags := n.flags &&& ~~~iffUp }
    | _ => none
  state.map fun n =>
    match info with
    | none => n
    | some info => linkSection n info

def canSetBittiming (nametoindex : Text → Nat) (name : Text) (bt : BitTiming) : Option SetReq :=
  doSetNlLink nametoindex 0 name (some { bittiming := some bt })

def canSetBitrate (nametoindex : Text → Nat) (name : Text) (bitrate : BitVec 32) : Option SetReq :=
  canSetBittiming nametoindex name { bitrate := bitrate }

/-! Reading attributes. -/

/-- The data of the attributes by their types. -/
abbrev Table := Nat → Option (List Byte)

/-- The loop of `parse_rtattr`, over what lies from the first attribute on. Nothing is
known of what lies behind that, nor of an attribute that ends there. -/
def parseLoop (max : Nat) : Nat → List Byte → Int → Table → Option Table
  | 0, _, _, tb => some tb
  | turns + 1, s, len, tb =>
    if len < 4 then some tb else
    (header s).bind fun (size,type) =>
      if 4 ≤ size ∧ size ≤ len then
        if s.length < size then none else
        let tb := if type ≤ max then Function.update tb type (some ((s.drop 4).take (size - 4))) else tb
        parseLoop max turns (s.drop (align size)) (len - align size) tb
      else some tb

/-- Every turn takes four bytes at least. -/
def parseRtattr (max : Nat) (s : List Byte) (len : Int) : Option Table :=
  parseLoop max (len.toNat + 1) s len fun _ => none

def parseRtattrNested (max : Nat) (data : List Byte) : Option Table := parseRtattr max data data.length

def tableOf (max : Nat) (attrs : List Attribute) : Table := fun type => if type ≤ max then lookup type attrs else none

private theorem parseLoop_chain (max turns : Nat) {s : List Byte} {len : Int} {found : List Attribute} (tb : Table)
    (chain : Chain s len found) (inside : len ≤ s.length) (enough : len < turns) :
    parseLoop max turns s len tb = some fun type => (tableOf max found type).or (tb type) := by
  induction turns generalizing s len found tb with
  | zero =>
    cases chain with
    | short less => rw [parseLoop]; simp [tableOf,lookup]
    | broken more | next more => omega
  | succ turns ih =>
    rw [parseLoop]
    cases chain with
    | short less =>
      rw [if_pos less]
      simp [tableOf,lookup]
    | broken more head bad =>
      rw [if_neg (by omega),head]
      simp [bad,tableOf,lookup]
    | @next _ _ size type found more head good later =>
      have least := le_align size
      rw [if_neg (by omega),head,Option.bind_some]
      dsimp only
      have rest : len - align size ≤ (s.drop (align size)).length := by
        rw [List.length_drop]
        omega
      rw [if_pos good,if_neg (by omega),ih _ later rest (by omega)]
      refine congrArg some (funext fun other => ?_)
      have first : lookup other (⟨type,(s.drop 4).take (size - 4)⟩ :: found) =
          (lookup other found).or (if type = other then some ((s.drop 4).take (size - 4)) else none) := by
        rw [← List.singleton_append,lookup_append]
        by_cases own : type = other <;> simp [lookup,own]
      by_cases within : other ≤ max
      · simp only [tableOf,if_pos within,first]
        by_cases own : type = other
        · subst own
          simp [within]
        · have apart : other ≠ type := fun same => own same.symm
          by_cases known : type ≤ max <;> simp [own,known,apart]
      · simp only [tableOf,if_neg within,Option.none_or]
        by_cases known : type ≤ max
        · have apart : other ≠ type := fun same => within (same ▸ known)
          simp [known,apart]
        · simp [known]

theorem parse_chain (max : Nat) {s : List Byte} {len : Int} {found : List Attribute} (chain : Chain s len found)
    (inside : len ≤ s.length) : parseRtattr max s len = some (tableOf max found) := by
  rw [parseRtattr,parseLoop_chain max _ _ chain inside (by omega)]
  simp

/-! What is asked for. -/

def ReqInfo.restartMsAttr (info : ReqInfo) : List Attribute :=
  if info.restartMs > 0 ∨ info.disableAutorestart ≠ 0 then [⟨iflaCanRestartMs,long info.restartMs⟩] else []

def ReqInfo.restartAttr (info : ReqInfo) : List Attribute :=
  if info.restart ≠ 0 then [⟨iflaCanRestart,long 1⟩] else []

def ReqInfo.bittimingAttr (info : ReqInfo) : List Attribute :=
  match info.bittiming with
  | none => []
  | some bt => [⟨iflaCanBittiming,bt.bytes⟩]

def ReqInfo.ctrlmodeAttr (info : ReqInfo) : List Attribute :=
  match info.ctrlmode with
  | none => []
  | some cm => [⟨iflaCanCtrlmode,cm.bytes⟩]

def ReqInfo.attrs (info : ReqInfo) : List Attribute :=
  info.restartMsAttr ++ info.restartAttr ++ info.bittimingAttr ++ info.ctrlmodeAttr

def kindAttr : Attribute := ⟨iflaInfoKind,[0x63,0x61,0x6E]⟩

def ReqInfo.data (info : ReqInfo) : Attribute := ⟨iflaInfoData,written info.attrs⟩

def ReqInfo.linkinfo (info : ReqInfo) : Attribute := ⟨iflaLinkinfo,written [kindAttr,info.data]⟩

def SetReq.more (n : SetReq) (attrs : List Attribute) : SetReq := { n with buf := n.buf ++ written attrs }

private theorem written_append (attrs others : List Attribute) : written (attrs ++ others) =
    written attrs ++ written others :=
  List.flatMap_append

private theorem written_one (a : Attribute) : written [a] = a.bytes := List.append_nil _

theorem align_of_even {n : Nat} (even : n % 4 = 0) : align n = n := by
  unfold align
  omega

private theorem align_even (n : Nat) : align n % 4 = 0 := by
  unfold align
  omega

theorem written_even (attrs : List Attribute) : (written attrs).length % 4 = 0 := by
  induction attrs with
  | nil => rfl
  | cons a attrs ih =>
    have here := align_even a.size
    rw [written,List.flatMap_cons,List.length_append,bytes_length]
    rw [written] at ih
    omega

private theorem length_even {n : SetReq} (even : n.buf.length % 4 = 0) : align n.length = n.length :=
  align_of_even (by rw [SetReq.length,fixedSize]; omega)

private theorem tail_even {n : SetReq} (even : n.buf.length % 4 = 0) : n.tail = n.buf := by
  rw [SetReq.tail,length_even even]
  simp

private theorem addattrL_more {n : SetReq} (maxlen type : Nat) (data : List Byte) (even : n.buf.length % 4 = 0)
    (room : n.length + align (4 + data.length) ≤ maxlen) :
    (addattrL n maxlen type data).1 = n.more [⟨type,data⟩] := by
  rw [addattrL,length_even even,if_neg (by omega),tail_even even,SetReq.more,written_one]
  simp only [Attribute.bytes,Attribute.size,List.append_assoc]

theorem long_length (v : BitVec 32) : (long v).length = 4 := rfl

private theorem bytes_even (type : Nat) {data : List Byte} (even : data.length % 4 = 0) :
    (⟨type,data⟩ : Attribute).bytes = word (4 + data.length) ++ word type ++ data := by
  have padding : align (4 + data.length) - (4 + data.length) = 0 := by
    rw [align_of_even (by omega),Nat.sub_self]
  simp only [Attribute.bytes,Attribute.size,padding,List.replicate_zero,List.append_nil]

private theorem addattr32_more {n : SetReq} (maxlen type : Nat) (data : BitVec 32) (even : n.buf.length % 4 = 0)
    (room : n.length + 8 ≤ maxlen) :
    (addattr32 n maxlen type data).1 = n.more [⟨type,long data⟩] := by
  rw [addattr32,length_even even,if_neg (by omega),tail_even even,SetReq.more,written_one,
    bytes_even type (by rw [long_length])]
  simp only [long_length,List.append_assoc]

private theorem more_nil (n : SetReq) : n.more [] = n := by
  simp [SetReq.more,written]

private theorem more_more (n : SetReq) (attrs others : List Attribute) : (n.more attrs).more others =
    n.more (attrs ++ others) := by
  simp only [SetReq.more,written_append,List.append_assoc]

private theorem more_length (n : SetReq) (attrs : List Attribute) : (n.more attrs).length =
    n.length + (written attrs).length := by
  simp only [SetReq.length,SetReq.more,List.length_append]
  omega

private theorem more_even {n : SetReq} (even : n.buf.length % 4 = 0) (attrs : List Attribute) :
    (n.more attrs).buf.length % 4 = 0 := by
  have added := written_even attrs
  rw [SetReq.more,List.length_append]
  omega

/-- An attribute that was added without data gets what was added after it. -/
private theorem close_more {n : SetReq} (even : n.buf.length % 4 = 0) (type : Nat) (attrs : List Attribute) :
    (n.more (⟨type,[]⟩ :: attrs)).close n.buf.length = n.more [⟨type,written attrs⟩] := by
  have full := written_even attrs
  have buf : (n.more (⟨type,[]⟩ :: attrs)).buf = n.buf ++ ((⟨type,[]⟩ : Attribute).bytes ++ written attrs) := rfl
  have size : (n.more (⟨type,[]⟩ :: attrs)).tail.length - n.buf.length = 4 + (written attrs).length := by
    rw [tail_even (more_even even _),buf,List.length_append,List.length_append,bytes_length]
    simp only [Attribute.size,List.length_nil,align]
    omega
  have behind : (n.more (⟨type,[]⟩ :: attrs)).buf.drop (n.buf.length + 2) = word type ++ written attrs := by
    rw [buf,← List.drop_drop,List.drop_left,bytes_even type rfl]
    rfl
  rw [SetReq.close,size,behind,buf,List.take_left,SetReq.more,SetReq.more,written_one,bytes_even type full]
  simp only [List.append_assoc]

private theorem written_one_length (type : Nat) (data : List Byte) :
    (written [⟨type,data⟩]).length = align (4 + data.length) := by
  rw [written_one,bytes_length,Attribute.size]

theorem bittiming_length (bt : BitTiming) : bt.bytes.length = 32 := rfl

private theorem ctrlmode_length (cm : CtrlMode) : cm.bytes.length = 8 := rfl

private theorem written_if (p : Prop) [Decidable p] (type : Nat) (v : BitVec 32) :
    (written (if p then [⟨type,long v⟩] else [])).length ≤ 8 := by
  split
  · rw [written_one_length,long_length]
    exact Nat.le_refl 8
  · exact Nat.zero_le 8

private theorem written_bittiming (info : ReqInfo) : (written info.bittimingAttr).length ≤ 36 := by
  rw [ReqInfo.bittimingAttr]
  split
  · exact Nat.zero_le 36
  · rw [written_one_length,bittiming_length]
    exact Nat.le_refl 36

private theorem written_ctrlmode (info : ReqInfo) : (written info.ctrlmodeAttr).length ≤ 12 := by
  rw [ReqInfo.ctrlmodeAttr]
  split
  · exact Nat.zero_le 12
  · rw [written_one_length,ctrlmode_length]
    exact Nat.le_refl 12

private theorem written_attrs (info : ReqInfo) : (written info.attrs).length ≤ 64 := by
  have first : (written info.restartMsAttr).length ≤ 8 := written_if ..
  have second : (written info.restartAttr).length ≤ 8 := written_if ..
  have third := written_bittiming info
  have fourth := written_ctrlmode info
  simp only [ReqInfo.attrs,written_append,List.length_append]
  omega

section adding

variable {n : SetReq} (even : n.buf.length % 4 = 0) (info : ReqInfo)

include even

private theorem add_if (p : Prop) [Decidable p] (type : Nat) (v : BitVec 32) (room : n.length + 8 ≤ 1024) :
    (if p then (addattr32 n 1024 type v).1 else n) = n.more (if p then [⟨type,long v⟩] else []) := by
  split
  · exact addattr32_more _ _ _ even room
  · exact (more_nil n).symm

private theorem restartMs_more (room : n.length + 8 ≤ 1024) :
    (if info.restartMs > 0 ∨ info.disableAutorestart ≠ 0 then (addattr32 n 1024 iflaCanRestartMs info.restartMs).1
      else n) = n.more info.restartMsAttr := add_if even _ _ _ room

private theorem restart_more (room : n.length + 8 ≤ 1024) :
    (if info.restart ≠ 0 then (addattr32 n 1024 iflaCanRestart 1).1 else n) = n.more info.restartAttr :=
  add_if even _ _ _ room

private theorem bittiming_more (room : n.length + 36 ≤ 1024) :
    (match info.bittiming with
      | none => n
      | some bt => (addattrL n 1024 iflaCanBittiming bt.bytes).1) = n.more info.bittimingAttr := by
  rw [ReqInfo.bittimingAttr]
  cases info.bittiming with
  | none => exact (more_nil n).symm
  | some bt => exact addattrL_more _ _ _ even (by rw [bittiming_length]; exact room)

private theorem ctrlmode_more (room : n.length + 12 ≤ 1024) :
    (match info.ctrlmode with
      | none => n
      | some cm => (addattrL n 1024 iflaCanCtrlmode cm.bytes).1) = n.more info.ctrlmodeAttr := by
  rw [ReqInfo.ctrlmodeAttr]
  cases info.ctrlmode with
  | none => exact (more_nil n).symm
  | some cm => exact addattrL_more _ _ _ even (by rw [ctrlmode_length]; exact room)

/-- There is room for everything, so nothing is refused. -/
private theorem dataSection_more (room : n.length + 64 ≤ 1024) : dataSection n info = n.more info.attrs := by
  have first : (written info.restartMsAttr).length ≤ 8 := written_if ..
  have second : (written info.restartAttr).length ≤ 8 := written_if ..
  have third := written_bittiming info
  have length := more_length n info.restartMsAttr
  have longer := more_length n (info.restartMsAttr ++ info.restartAttr)
  have longest := more_length n (info.restartMsAttr ++ info.restartAttr ++ info.bittimingAttr)
  rw [written_append,List.length_append] at longer
  rw [written_append,written_append,List.length_append,List.length_append] at longest
  rw [dataSection,restartMs_more even info (by omega),restart_more (more_even even _) info (by omega),more_more,
    bittiming_more (more_even even _) info (by omega),more_more,ctrlmode_more (more_even even _) info (by omega),
    more_more,ReqInfo.attrs]

end adding

private theorem linkSection_more {n : SetReq} (fresh : n.buf = []) (info : ReqInfo) :
    linkSection n info = n.more [info.linkinfo] := by
  have even : n.buf.length % 4 = 0 := by rw [fresh]; rfl
  have length : n.length = 32 := by rw [SetReq.length,fresh]; rfl
  have first := more_length n [⟨iflaLinkinfo,[]⟩]
  have second := more_length n [⟨iflaLinkinfo,[]⟩,kindAttr]
  have third := more_length n [⟨iflaLinkinfo,[]⟩,kindAttr,⟨iflaInfoData,[]⟩]
  have opened : (written [⟨iflaLinkinfo,[]⟩]).length = 4 := rfl
  have named : (written [⟨iflaLinkinfo,[]⟩,kindAttr]).length = 12 := rfl
  have inner : (written [⟨iflaLinkinfo,[]⟩,kindAttr,⟨iflaInfoData,[]⟩]).length = 16 := rfl
  have evenly := more_even even [⟨iflaLinkinfo,[]⟩,kindAttr]
  have kind : (addattrL (n.more [⟨iflaLinkinfo,[]⟩]) reqSize iflaInfoKind [0x63,0x61,0x6E]).1 =
      n.more [⟨iflaLinkinfo,[]⟩,kindAttr] := by
    rw [addattrL_more reqSize iflaInfoKind [0x63,0x61,0x6E] (more_even even _) (by rw [first,length,opened]; decide),
      more_more]
    rfl
  have data : (addattrL (n.more [⟨iflaLinkinfo,[]⟩,kindAttr]) reqSize iflaInfoData []).1 =
      (n.more [⟨iflaLinkinfo,[]⟩,kindAttr]).more [⟨iflaInfoData,[]⟩] :=
    addattrL_more reqSize iflaInfoData [] evenly (by rw [second,length,named]; decide)
  have room : ((n.more [⟨iflaLinkinfo,[]⟩,kindAttr]).more [⟨iflaInfoData,[]⟩]).length + 64 ≤ 1024 := by
    rw [more_more,List.cons_append,List.cons_append,List.nil_append,third,inner,length]
    decide
  have split : (n.more [⟨iflaLinkinfo,[]⟩,kindAttr]).more [info.data] =
      n.more (⟨iflaLinkinfo,[]⟩ :: [kindAttr,info.data]) := more_more ..
  rw [linkSection,addattrL_more reqSize iflaLinkinfo [] even (by rw [length]; decide),kind,data,
    dataSection_more (more_even evenly _) info room,more_more,tail_even evenly,tail_even even,List.singleton_append,
    close_more evenly]
  rw [ReqInfo.data] at split
  rw [split,close_more even,ReqInfo.linkinfo,ReqInfo.data]

private theorem size_le_written {attrs : List Attribute} {a : Attribute} (member : a ∈ attrs) :
    a.size ≤ (written attrs).length := by
  obtain ⟨before,behind,rfl⟩ := List.append_of_mem member
  have least := le_align a.size
  rw [written,List.flatMap_append,List.flatMap_cons,List.length_append,List.length_append,bytes_length]
  omega

private theorem attrs_types {info : ReqInfo} {a : Attribute} (member : a ∈ info.attrs) : a.type ≤ iflaCanMax := by
  simp only [ReqInfo.attrs,List.mem_append,ReqInfo.restartMsAttr,ReqInfo.restartAttr,ReqInfo.bittimingAttr,
    ReqInfo.ctrlmodeAttr] at member
  rcases member with ((one | one) | one) | one <;> split at one <;>
    simp only [List.mem_singleton,List.not_mem_nil] at one <;> subst one <;> exact Nat.le_of_ble_eq_true rfl

theorem attrs_fit (info : ReqInfo) : ∀ a ∈ info.attrs, a.Fits := by
  intro a member
  have size := size_le_written member
  have total := written_attrs info
  have type := attrs_types member
  exact ⟨by omega,by rw [iflaCanMax] at type; omega⟩

theorem section_length (info : ReqInfo) : (written [kindAttr,info.data]).length ≤ 76 := by
  have total := written_attrs info
  have kind : (written [kindAttr]).length = 8 := rfl
  have data : (written [info.data]).length = align (4 + (written info.attrs).length) := written_one_length ..
  have even := align_of_even (n := 4 + (written info.attrs).length) (by have := written_even info.attrs; omega)
  have split : written [kindAttr,info.data] = written [kindAttr] ++ written [info.data] := written_append [_] [_]
  rw [split,List.length_append]
  omega

theorem section_fits (info : ReqInfo) : ∀ a ∈ [kindAttr,info.data], a.Fits := by
  have total := section_length info
  intro a member
  have size := size_le_written member
  simp only [List.mem_cons,List.not_mem_nil,or_false] at member
  rcases member with rfl | rfl
  · exact ⟨by omega,by decide⟩
  · exact ⟨by omega,Nat.lt_of_sub_eq_succ rfl⟩

theorem linkinfo_fits (info : ReqInfo) : ∀ a ∈ [info.linkinfo], a.Fits := by
  have total := section_length info
  intro a member
  obtain rfl := List.mem_singleton.mp member
  refine ⟨?_,Nat.lt_of_sub_eq_succ rfl⟩
  show 4 + (written [kindAttr,info.data]).length < 2 ^ 16
  omega

/-- Written attributes that are read back, with the types there are. -/
theorem parse_written {attrs : List Attribute} (fits : ∀ a ∈ attrs, a.Fits) (max : Nat) :
    parseRtattrNested max (written attrs) = some (tableOf max attrs) := by
  have chain := chain_all fits []
  rw [List.append_nil] at chain
  exact parse_chain max chain (Int.le_refl _)

/-- Zeros behind the attributes are no attribute, even for a length that covers them. -/
private theorem parse_zeros {attrs : List Attribute} (fits : ∀ a ∈ attrs, a.Fits) (max : Nat) :
    parseRtattr max (written attrs ++ List.replicate 8 0) ((written attrs).length + 8 : Nat) = some (tableOf max attrs) := by
  have zeros : Chain (List.replicate 8 0) (8 : Nat) [] := .broken (by decide) rfl (by decide)
  have chain := chain_written fits zeros
  rw [List.append_nil] at chain
  refine parse_chain max chain ?_
  rw [List.length_append,List.length_replicate]

/-- What is asked for, by the types. -/
def ReqInfo.asked (info : ReqInfo) (type : Nat) : Option (List Byte) :=
  if type = iflaCanBittiming then info.bittiming.map BitTiming.bytes
  else if type = iflaCanCtrlmode then info.ctrlmode.map CtrlMode.bytes
  else if type = iflaCanRestartMs then
    if info.restartMs > 0 ∨ info.disableAutorestart ≠ 0 then some (long info.restartMs) else none
  else if type = iflaCanRestart then if info.restart ≠ 0 then some (long 1) else none
  else none

private theorem lookup_one (type : Nat) (a : Attribute) : lookup type [a] = if a.type = type then some a.data else none := by
  by_cases own : a.type = type <;> simp [lookup,own]

theorem attrs_asked (info : ReqInfo) : tableOf iflaCanMax info.attrs = info.asked := by
  funext type
  have ms : lookup type info.restartMsAttr = if iflaCanRestartMs = type then
      if info.restartMs > 0 ∨ info.disableAutorestart ≠ 0 then some (long info.restartMs) else none else none := by
    rw [ReqInfo.restartMsAttr]
    split
    · exact lookup_one ..
    · rw [ite_self]
      rfl
  have restart : lookup type info.restartAttr = if iflaCanRestart = type then
      if info.restart ≠ 0 then some (long 1) else none else none := by
    rw [ReqInfo.restartAttr]
    split
    · exact lookup_one ..
    · rw [ite_self]
      rfl
  have bittiming : lookup type info.bittimingAttr = if iflaCanBittiming = type then
      info.bittiming.map BitTiming.bytes else none := by
    rw [ReqInfo.bittimingAttr]
    cases info.bittiming with
    | none => exact (ite_self _).symm
    | some bt => exact lookup_one ..
  have ctrlmode : lookup type info.ctrlmodeAttr = if iflaCanCtrlmode = type then
      info.ctrlmode.map CtrlMode.bytes else none := by
    rw [ReqInfo.ctrlmodeAttr]
    cases info.ctrlmode with
    | none => exact (ite_self _).symm
    | some cm => exact lookup_one ..
  rw [tableOf,ReqInfo.attrs,lookup_append,lookup_append,lookup_append,ms,restart,bittiming,ctrlmode,ReqInfo.asked]
  by_cases first : type = iflaCanBittiming
  · subst first
    simp [iflaCanBittiming,iflaCanCtrlmode,iflaCanRestartMs,iflaCanRestart,iflaCanMax]
  by_cases second : type = iflaCanCtrlmode
  · subst second
    simp [iflaCanBittiming,iflaCanCtrlmode,iflaCanRestartMs,iflaCanRestart,iflaCanMax]
  by_cases third : type = iflaCanRestartMs
  · subst third
    simp [iflaCanBittiming,iflaCanCtrlmode,iflaCanRestartMs,iflaCanRestart,iflaCanMax]
  by_cases fourth : type = iflaCanRestart
  · subst fourth
    simp [iflaCanBittiming,iflaCanCtrlmode,iflaCanRestartMs,iflaCanRestart,iflaCanMax]
  simp [Ne.symm first,Ne.symm second,Ne.symm third,Ne.symm fourth,first,second,third,fourth]

private theorem doSetNlLink_more {nametoindex : Text → Nat} {name : Text} (known : nametoindex name ≠ 0) {ifState : Nat}
    (state : ifState ≤ 2) (info : ReqInfo) : ∃ n, doSetNlLink nametoindex ifState name (some info) = some n ∧
      n.index = nametoindex name ∧ n.buf = written [info.linkinfo] := by
  rw [doSetNlLink]
  simp only [if_neg known]
  match ifState, state with
  | 0, _ => exact ⟨_,congrArg some (linkSection_more rfl info),rfl,rfl⟩
  | 1, _ => exact ⟨_,congrArg some (linkSection_more rfl info),rfl,rfl⟩
  | 2, _ => exact ⟨_,congrArg some (linkSection_more rfl info),rfl,rfl⟩

private theorem linkinfo_read (info : ReqInfo) : ∃ linkinfo, parseRtattrNested iflaInfoMax info.linkinfo.data =
    some linkinfo ∧
    linkinfo iflaInfoKind = some kindAttr.data ∧ linkinfo iflaInfoData = some (written info.attrs) :=
  ⟨_,parse_written (section_fits info) _,rfl,rfl⟩

private theorem data_read (info : ReqInfo) : parseRtattrNested iflaCanMax (written info.attrs) = some info.asked := by
  rw [parse_written (attrs_fit info),attrs_asked]

/-- A request is read from the message as it was made, attribute by attribute, with the length
of the message as well as with the one of `do_get_nl_link`, which takes in eight of the zeros
behind it. -/
theorem request_read {nametoindex : Text → Nat} {name : Text} (known : nametoindex name ≠ 0) {ifState : Nat}
    (state : ifState ≤ 2) (info : ReqInfo) {iflaMax : Nat} (wide : iflaLinkinfo ≤ iflaMax) :
    ∃ n tb link linkinfo data, doSetNlLink nametoindex ifState name (some info) = some n ∧
      n.index = nametoindex name ∧ parseRtattr iflaMax n.buf n.buf.length = some tb ∧
      parseRtattr iflaMax (n.buf ++ List.replicate 8 0) (n.buf.length + 8 : Nat) = some tb ∧
      tb iflaLinkinfo = some link ∧ parseRtattrNested iflaInfoMax link = some linkinfo ∧
      linkinfo iflaInfoKind = some [0x63,0x61,0x6E] ∧ linkinfo iflaInfoData = some data ∧
      parseRtattrNested iflaCanMax data = some info.asked := by
  obtain ⟨n,sent,index,buf⟩ := doSetNlLink_more known state info
  obtain ⟨linkinfo,inner,kind,data⟩ := linkinfo_read info
  have outer := parse_written (linkinfo_fits info) iflaMax
  have longer := parse_zeros (linkinfo_fits info) iflaMax
  rw [← buf] at outer longer
  refine ⟨n,_,info.linkinfo.data,linkinfo,_,sent,index,outer,longer,?_,inner,kind,data,data_read info⟩
  rw [tableOf,if_pos wide]
  rfl

theorem request_read_restart : ∃ n tb link linkinfo data,
    doSetNlLink (fun _ => 4) 1 ['c','a','n','0'] (some { restart := 1 }) = some n ∧ n.index = 4 ∧
      parseRtattr 63 n.buf n.buf.length = some tb ∧
      parseRtattr 63 (n.buf ++ List.replicate 8 0) (n.buf.length + 8 : Nat) = some tb ∧ tb iflaLinkinfo = some link ∧
      parseRtattrNested iflaInfoMax link = some linkinfo ∧ linkinfo iflaInfoKind = some [0x63,0x61,0x6E] ∧
      linkinfo iflaInfoData = some data ∧
      parseRtattrNested iflaCanMax data = some (ReqInfo.asked { restart := 1 }) :=
  request_read (by decide) (by decide) { restart := 1 } (by decide)

/-- Whatever the bytes are, the loop comes to an end within the length, and what it
leaves in the table is the last attribute of each type. -/
theorem parse_inside (max : Nat) {s : List Byte} {len : Int} (inside : len ≤ s.length) :
    ∃ found, Chain s len found ∧ (found.map Attribute.size).sum ≤ len.toNat ∧
      parseRtattr max s len = some (tableOf max found) := by
  obtain ⟨found,chain,total⟩ := chain_exists (len.toNat + 1) inside (by omega)
  exact ⟨found,chain,total,parse_chain max chain inside⟩

theorem parse_inside_cut : ∃ found, Chain [8,0,3,0,1,1,1,1,9,0,5,0] 12 found ∧
    (found.map Attribute.size).sum ≤ (12 : Int).toNat ∧
      parseRtattr 63 [8,0,3,0,1,1,1,1,9,0,5,0] 12 = some (tableOf 63 found) :=
  parse_inside 63 (by decide)

end Mybmm.CanLink
