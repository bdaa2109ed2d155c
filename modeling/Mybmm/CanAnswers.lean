import Mybmm.CanLink

/-! can.c: the answers to a request for a link's bit timing. The length the attributes of
an answer are given goes eight bytes past their end. -/
namespace Mybmm.CanAnswers
open Arrays Attributes CanLink

def nlmsgDone : Nat := 3
def rtmNewlink : Nat := 16

/-- The size and the type in a message's header. -/
def nlHeader (s : List Byte) : Option (Nat × Nat) :=
  if s.length < 16 then none
  else some ((longAt s 0).toNat,(s[5]?.getD 0 ++ s[4]?.getD 0 : BitVec 16).toNat)

/-- Whether `strcmp` finds no difference; `name` is without its terminator. -/
def sameName : List Byte → List Byte → Option Bool
  | [], _ => none
  | b :: _, [] => some (b = 0#8)
  | b :: data, c :: name => if b = c then sameName data name else some false

/-- What a message about a link comes to. -/
inductive Heard
  | other
  | matched (found : Option BitTiming)
  | dataless

/-- The body of `do_get_nl_link`'s loop, from the attributes on, when it is the bit timing
that is to be acquired. -/
def heard (iflaMax : Nat) (name s : List Byte) (len : Int) : Option Heard := do
  let tb ← parseRtattr iflaMax s len
  let ifname ← tb iflaIfname
  if ! (← sameName ifname name) then return .other
  match tb iflaLinkinfo with
  | none => return .matched none
  | some data =>
    let linkinfo ← parseRtattrNested iflaInfoMax data
    match linkinfo iflaInfoData with
    | none => return .dataless
    | some data =>
      let can ← parseRtattrNested iflaCanMax data
      match can iflaCanBittiming with
      | none => return .matched none
      | some data => if data.length < 32 then none else return .matched (some (BitTiming.read data))

/-- `returned` tells that the function ended within its loops. -/
structure Getting where
  done : Bool := false
  returned : Bool := false
  ret : Int := -1
  res : Option BitTiming := none
deriving DecidableEq

/-- Goes through the messages of a datagram. Where the length that is left wraps, the model
stops. -/
def messages (iflaMax : Nat) (name : List Byte) : Nat → List Byte → Nat → Getting → Option Getting
  | 0, _, _, _ => none
  | turns + 1, s, len, g =>
    if len < 16 then some g else
    (nlHeader s).bind fun (size,type) =>
      if 16 ≤ size ∧ size ≤ len then
        if len < align size then none else
        let next := messages iflaMax name turns (s.drop (align size)) (len - align size)
        if type = nlmsgDone then next { g with done := true }
        else if type ≠ rtmNewlink then next g
        else (heard iflaMax name (s.drop 32) (size - 24)).bind fun
          | .other => next g
          | .dataless => some { g with done := true, returned := true }
          | .matched none => next { g with done := true }
          | .matched (some bt) => next { g with done := true, ret := 0, res := some bt }
      else some g

/-- `cut` tells that the address or the message did not fit. -/
structure Datagram where
  bytes : List Byte
  cut : Bool := false

/-- `nlbuf` keeps what earlier datagrams brought, past the end of the last one. When there are
no more datagrams, `recvmsg` gives nothing. -/
def doGetNlLink (iflaMax : Nat) (name : List Byte) : List Datagram → List Byte → Getting → Option Getting
  | [], _, g => some g
  | d :: datagrams, nlbuf, g =>
    if g.done ∨ d.bytes = [] then some g
    else if d.cut then some { g with returned := true, ret := -1 }
    else
      let nlbuf := d.bytes ++ nlbuf.drop d.bytes.length
      (messages iflaMax name (d.bytes.length + 1) nlbuf d.bytes.length g).bind fun g =>
        if g.returned then some g else doGetNlLink iflaMax name datagrams nlbuf g

def canGetBittiming (iflaMax : Nat) (name : List Byte) (datagrams : List Datagram) (nlbuf : List Byte) :
    Option Getting :=
  doGetNlLink iflaMax name datagrams nlbuf {}

/-! What the other side writes. -/

/-- `fixed` is what the fixed parts hold behind the size and the type. -/
structure Msg where
  type : Nat
  fixed : List Byte
  attrs : List Attribute

def Msg.size (m : Msg) : Nat := 6 + m.fixed.length + (written m.attrs).length

def Msg.bytes (m : Msg) : List Byte := long (BitVec.ofNat 32 m.size) ++ word m.type ++ m.fixed ++ written m.attrs

structure Msg.Fits (m : Msg) : Prop where
  attrs : ∀ a ∈ m.attrs, a.Fits
  type : m.type < 2 ^ 16
  size : m.size < 2 ^ 16
  room : 10 ≤ m.fixed.length
  even : m.fixed.length % 4 = 2
  link : m.type = rtmNewlink → m.fixed.length = 26

def datagram (ms : List Msg) : List Byte := ms.flatMap Msg.bytes

/-- Tells nothing of the link and does not end the answers. -/
structure Msg.Silent (name : List Byte) (m : Msg) : Prop where
  done : m.type ≠ nlmsgDone
  other : m.type = rtmNewlink → ∃ text rest, lookup iflaIfname m.attrs = some (text ++ 0#8 :: rest) ∧
    0#8 ∉ text ∧ text ≠ name

/-- Tells the bit timing of the link. -/
structure Msg.Times (name : List Byte) (bt : BitTiming) (m : Msg) : Prop where
  type : m.type = rtmNewlink
  named : ∃ rest, lookup iflaIfname m.attrs = some (name ++ 0#8 :: rest)
  timed : ∃ inner data rest, lookup iflaLinkinfo m.attrs = some (written inner) ∧ (∀ a ∈ inner, a.Fits) ∧
    lookup iflaInfoData inner = some (written data) ∧ (∀ a ∈ data, a.Fits) ∧
    lookup iflaCanBittiming data = some (bt.bytes ++ rest)

/-- What eight bytes hold has no name and no section about a link. -/
structure Clear (s : List Byte) : Prop where
  enough : 8 ≤ s.length
  clear : ∀ found, Chain s (8 : Nat) found → ∀ a ∈ found, a.type ≠ iflaIfname ∧ a.type ≠ iflaLinkinfo

/-- What the buffer holds behind each datagram is clear. -/
def ClearAll : List (List Byte) → List Byte → Prop
  | [], _ => True
  | d :: datagrams, nlbuf => Clear (nlbuf.drop d.length) ∧ ClearAll datagrams (d ++ nlbuf.drop d.length)

private theorem long_joined (v : BitVec 32) :
    v.extractLsb' 24 8 ++ v.extractLsb' 16 8 ++ v.extractLsb' 8 8 ++ v.extractLsb' 0 8 = v := by
  have high : v.extractLsb' 24 8 ++ v.extractLsb' 16 8 = v.extractLsb' 16 16 :=
    BitVec.extractLsb'_append_extractLsb'_eq_extractLsb' rfl
  have middle : v.extractLsb' 16 16 ++ v.extractLsb' 8 8 = v.extractLsb' 8 24 :=
    BitVec.extractLsb'_append_extractLsb'_eq_extractLsb' rfl
  have low : v.extractLsb' 8 24 ++ v.extractLsb' 0 8 = v.extractLsb' 0 32 :=
    BitVec.extractLsb'_append_extractLsb'_eq_extractLsb' rfl
  rw [high,middle,low]
  exact BitVec.extractLsb'_eq_self

/-- A bit timing is read as it was written. -/
private theorem read_bytes (bt : BitTiming) (rest : List Byte) : BitTiming.read (bt.bytes ++ rest) = bt := by
  cases bt
  simp only [BitTiming.read,BitTiming.bytes,longAt,List.flatMap_cons,List.flatMap_nil,long,List.cons_append,
    List.nil_append]
  simp only [BitTiming.mk.injEq]
  exact ⟨long_joined _,long_joined _,long_joined _,long_joined _,long_joined _,long_joined _,long_joined _,
    long_joined _⟩

/-- A section that was asked for tells the bit timing it was asked with. -/
private theorem asked_times {name : List Byte} {info : ReqInfo} {bt : BitTiming} (asked : info.bittiming = some bt) {m : Msg}
    (type : m.type = rtmNewlink) (named : ∃ rest, lookup iflaIfname m.attrs = some (name ++ 0#8 :: rest))
    (linked : lookup iflaLinkinfo m.attrs = some info.linkinfo.data) : m.Times name bt := by
  have found := congrFun (attrs_asked info) iflaCanBittiming
  rw [tableOf,if_pos (by decide),ReqInfo.asked,if_pos rfl,asked] at found
  refine ⟨type,named,[kindAttr,info.data],info.attrs,[],linked,section_fits info,rfl,attrs_fit info,?_⟩
  rw [found,List.append_nil]
  rfl

private theorem sameName_text {text name : List Byte} (clean : 0#8 ∉ text) (proper : 0#8 ∉ name) (rest : List Byte) :
    sameName (text ++ 0#8 :: rest) name = some (decide (text = name)) := by
  induction text generalizing name with
  | nil =>
    cases name with
    | nil => rfl
    | cons c name =>
      have apart : 0#8 ≠ c := fun same => proper (same ▸ List.mem_cons_self)
      simp [sameName,apart]
  | cons b text ih =>
    have apart : b ≠ 0#8 := fun same => clean (same ▸ List.mem_cons_self)
    cases name with
    | nil => simp [sameName,apart]
    | cons c name =>
      have later : sameName (text ++ 0#8 :: rest) name = some (decide (text = name)) :=
        ih (fun member => clean (List.mem_cons_of_mem b member)) fun member => proper (List.mem_cons_of_mem c member)
      by_cases same : b = c
      · subst same
        simp [sameName,later]
      · simp [sameName,same]

theorem bytes_length (m : Msg) : m.bytes.length = m.size := by
  simp only [Msg.bytes,Msg.size,List.length_append,long_length,word]
  rfl

private theorem bytes_nlHeader {m : Msg} (fits : m.Fits) (rest : List Byte) :
    nlHeader (m.bytes ++ rest) = some (m.size,m.type) := by
  have room := fits.room
  have enough : ¬ (m.bytes ++ rest).length < 16 := by
    rw [List.length_append,bytes_length,Msg.size]
    omega
  have small := fits.size
  have front : m.bytes ++ rest =
      long (BitVec.ofNat 32 m.size) ++ (word m.type ++ (m.fixed ++ (written m.attrs ++ rest))) := by
    simp only [Msg.bytes,List.append_assoc]
  have size : longAt (m.bytes ++ rest) 0 = BitVec.ofNat 32 m.size := by
    rw [front]
    exact long_joined _
  have type : ((m.bytes ++ rest)[5]?.getD 0 ++ (m.bytes ++ rest)[4]?.getD 0 : BitVec 16).toNat = m.type := by
    rw [front]
    exact word_joined fits.type
  rw [nlHeader,if_neg enough,size,type,BitVec.toNat_ofNat,Nat.mod_eq_of_lt (by omega)]

private theorem lookup_clear {type : Nat} {found : List Attribute} (clear : ∀ a ∈ found, a.type ≠ type) :
    lookup type found = none := by
  have empty : found.filter (fun a => a.type = type) = [] := by
    rw [List.filter_eq_nil_iff]
    intro a member
    simpa using clear a member
  rw [lookup,empty]
  rfl

/-- Eight bytes too many are read. They change nothing. -/
private theorem parse_over (max : Nat) {attrs : List Attribute} (fits : ∀ a ∈ attrs, a.Fits) {rest : List Byte}
    (clear : Clear rest) : ∃ tb, parseRtattr max (written attrs ++ rest) ((written attrs).length + 8 : Nat) = some tb ∧
      tb iflaIfname = tableOf max attrs iflaIfname ∧ tb iflaLinkinfo = tableOf max attrs iflaLinkinfo := by
  have enough := clear.enough
  obtain ⟨found,stray,_⟩ := chain_exists 9 (show ((8 : Nat) : Int) ≤ rest.length by omega) (by omega)
  have chain := chain_written fits stray
  refine ⟨_,parse_chain max chain (by rw [List.length_append]; omega),?_,?_⟩
  · rw [tableOf,tableOf,lookup_append,lookup_clear fun a member => (clear.clear found stray a member).1]
    rfl
  · rw [tableOf,tableOf,lookup_append,lookup_clear fun a member => (clear.clear found stray a member).2]
    rfl

section hearing

variable {iflaMax : Nat} (wide : iflaLinkinfo ≤ iflaMax) {name : List Byte} (proper : 0#8 ∉ name) {m : Msg}
  (fits : m.Fits) {rest : List Byte} (clear : Clear rest)

include wide proper fits clear

private theorem heard_silent (link : m.type = rtmNewlink) (silent : m.Silent name) :
    heard iflaMax name (written m.attrs ++ rest) ((written m.attrs).length + 8 : Nat) = some .other := by
  obtain ⟨tb,parsed,named,-⟩ := parse_over iflaMax fits.attrs clear
  obtain ⟨text,behind,found,clean,apart⟩ := silent.other link
  have known : iflaIfname ≤ iflaMax := Nat.le_trans (by decide) wide
  rw [tableOf,if_pos known,found] at named
  rw [heard,parsed]
  simp [named,sameName_text clean proper,apart]

private theorem heard_times {bt : BitTiming} (times : m.Times name bt) :
    heard iflaMax name (written m.attrs ++ rest) ((written m.attrs).length + 8 : Nat) = some (.matched (some bt)) := by
  obtain ⟨tb,parsed,named,link⟩ := parse_over iflaMax fits.attrs clear
  obtain ⟨after,found⟩ := times.named
  obtain ⟨inner,data,behind,linked,innerFits,carried,dataFits,timed⟩ := times.timed
  have known : iflaIfname ≤ iflaMax := Nat.le_trans (by decide) wide
  rw [tableOf,if_pos known,found] at named
  rw [tableOf,if_pos wide,linked] at link
  have enough : ¬ (bt.bytes ++ behind).length < 32 := by
    rw [List.length_append,bittiming_length]
    omega
  rw [heard,parsed]
  have first : tableOf iflaInfoMax inner iflaInfoData = some (written data) := by
    rw [tableOf,if_pos (by decide),carried]
  have second : tableOf iflaCanMax data iflaCanBittiming = some (bt.bytes ++ behind) := by
    rw [tableOf,if_pos (by decide),timed]
  simp only [Option.bind_eq_bind,Option.bind_some,named,sameName_text proper proper,link,parse_written innerFits,
    first,parse_written dataFits,second,if_neg enough,read_bytes]
  simp

end hearing

private theorem clear_size {s : List Byte} {size type : Nat} (enough : 8 ≤ s.length) (head : header s = some (size,type))
    (bad : ¬ (4 ≤ size ∧ size ≤ 8)) : Clear s := by
  refine ⟨enough,fun found chain => ?_⟩
  cases chain with
  | short less => omega
  | broken more head bad => simp
  | next more found good later =>
    rw [head] at found
    cases found
    omega

private theorem clear_bytes {m : Msg} (fits : m.Fits) (rest : List Byte) : Clear (m.bytes ++ rest) := by
  have room := fits.room
  have small := fits.size
  have least : 16 ≤ m.size := by
    rw [Msg.size]
    omega
  have size : ((BitVec.ofNat 32 m.size).extractLsb' 8 8 ++ (BitVec.ofNat 32 m.size).extractLsb' 0 8).toNat = m.size := by
    have joined : (BitVec.ofNat 32 m.size).extractLsb' 8 8 ++ (BitVec.ofNat 32 m.size).extractLsb' 0 8 =
        (BitVec.ofNat 32 m.size).extractLsb' 0 16 := BitVec.extractLsb'_append_extractLsb'_eq_extractLsb' rfl
    rw [joined,BitVec.extractLsb'_toNat,BitVec.toNat_ofNat,Nat.shiftRight_zero]
    omega
  have front : header (m.bytes ++ rest) = some (m.size,_) := congrArg (fun n => some (n,_)) size
  exact clear_size (by rw [List.length_append,bytes_length]; omega) front (by omega)

private theorem clear_datagram {ms : List Msg} (fits : ∀ m ∈ ms, m.Fits) {rest : List Byte} (clear : Clear rest) :
    Clear (datagram ms ++ rest) := by
  cases ms with
  | nil => exact clear
  | cons m ms =>
    rw [datagram,List.flatMap_cons,List.append_assoc]
    exact clear_bytes (fits m List.mem_cons_self) _

private theorem datagram_append (ms others : List Msg) : datagram (ms ++ others) = datagram ms ++ datagram others :=
  List.flatMap_append

private theorem datagram_cons (m : Msg) (ms : List Msg) : datagram (m :: ms) = m.bytes ++ datagram ms := List.flatMap_cons

private theorem messages_end (iflaMax : Nat) (name : List Byte) (turns : Nat) (s : List Byte) (g : Getting) :
    messages iflaMax name (turns + 1) s 0 g = some g := by
  rw [messages,if_pos (by decide)]

/-- One message, and then those behind it. -/
private theorem messages_head (iflaMax : Nat) (name : List Byte) (turns : Nat) {m : Msg} (fits : m.Fits) (rest : List Byte)
    (k : Nat) (g : Getting) :
    messages iflaMax name (turns + 1) (m.bytes ++ rest) (m.size + k) g =
      if m.type = nlmsgDone then messages iflaMax name turns rest k { g with done := true }
      else if m.type ≠ rtmNewlink then messages iflaMax name turns rest k g
      else (heard iflaMax name (written m.attrs ++ rest) ((written m.attrs).length + 8 : Nat)).bind fun
        | .other => messages iflaMax name turns rest k g
        | .dataless => some { g with done := true, returned := true }
        | .matched none => messages iflaMax name turns rest k { g with done := true }
        | .matched (some bt) => messages iflaMax name turns rest k { g with done := true, ret := 0, res := some bt } := by
  have room := fits.room
  have even : align m.size = m.size := by
    have own := fits.even
    have added := written_even m.attrs
    exact align_of_even (by rw [Msg.size]; omega)
  have least : 16 ≤ m.size := by
    rw [Msg.size]
    omega
  have behind : (m.bytes ++ rest).drop m.size = rest := by
    rw [← bytes_length]
    exact List.drop_left
  rw [messages,if_neg (by omega),bytes_nlHeader fits,Option.bind_some]
  have good : 16 ≤ m.size ∧ m.size ≤ m.size + k := ⟨least,by omega⟩
  simp only [if_pos good,even,if_neg (show ¬ m.size + k < m.size by omega),behind,Nat.add_sub_cancel_left]
  by_cases link : m.type = rtmNewlink
  · have length := fits.link link
    have attrs : (m.bytes ++ rest).drop 32 = written m.attrs ++ rest := by
      have front : (long (BitVec.ofNat 32 m.size) ++ word m.type ++ m.fixed).length = 32 := by
        rw [List.length_append,length]
        rfl
      rw [Msg.bytes,List.append_assoc]
      exact List.drop_left' front
    have ended : (m.size : Int) - 24 = ((written m.attrs).length + 8 : Nat) := by
      rw [Msg.size]
      omega
    rw [attrs,ended]
  · simp only [if_pos (show m.type ≠ rtmNewlink from link)]

section messages

variable {iflaMax : Nat} (wide : iflaLinkinfo ≤ iflaMax) {name : List Byte} (proper : 0#8 ∉ name)

include wide proper

private theorem messages_silent {ms : List Msg} (silent : ∀ m ∈ ms, m.Fits ∧ m.Silent name) {rest : List Byte}
    (clear : Clear rest) (turns k : Nat) (g : Getting) :
    messages iflaMax name (ms.length + turns) (datagram ms ++ rest) ((datagram ms).length + k) g =
      messages iflaMax name turns rest k g := by
  induction ms with
  | nil => simp [datagram]
  | cons m ms ih =>
    have here := silent m List.mem_cons_self
    have later : ∀ m ∈ ms, m.Fits ∧ m.Silent name := fun m member => silent m (List.mem_cons_of_mem _ member)
    have behind := clear_datagram (fun m member => (later m member).1) clear
    have length : (datagram (m :: ms)).length + k = m.size + ((datagram ms).length + k) := by
      rw [datagram_cons,List.length_append,bytes_length,Nat.add_assoc]
    have count : (m :: ms).length + turns = ms.length + turns + 1 := by
      rw [List.length_cons]
      omega
    rw [length,count,datagram_cons,List.append_assoc,messages_head _ _ _ here.1,if_neg here.2.done]
    split
    · exact ih later
    · next link =>
      rw [heard_silent wide proper here.1 behind (not_not.mp link) here.2]
      exact ih later

private theorem messages_times {before behind : List Msg} {m : Msg} {bt : BitTiming}
    (first : ∀ m ∈ before, m.Fits ∧ m.Silent name) (fits : m.Fits) (times : m.Times name bt)
    (last : ∀ m ∈ behind, m.Fits ∧ m.Silent name) {rest : List Byte} (clear : Clear rest) (turns : Nat) (g : Getting) :
    messages iflaMax name ((before ++ m :: behind).length + (turns + 1)) (datagram (before ++ m :: behind) ++ rest)
      (datagram (before ++ m :: behind)).length g = some { g with done := true, ret := 0, res := some bt } := by
  have behindClear := clear_datagram (fun m member => (last m member).1) clear
  have hereClear : Clear (datagram (m :: behind) ++ rest) := by
    rw [datagram_cons,List.append_assoc]
    exact clear_bytes fits _
  have count : (before ++ m :: behind).length + (turns + 1) = before.length + (behind.length + (turns + 1) + 1) := by
    rw [List.length_append,List.length_cons]
    omega
  have done : ¬ m.type = nlmsgDone := by
    rw [times.type]
    decide
  rw [count,datagram_append,List.append_assoc,List.length_append,messages_silent wide proper first hereClear,
    datagram_cons,List.append_assoc,List.length_append,bytes_length,messages_head _ _ _ fits,if_neg done,
    if_neg (not_not.mpr times.type),heard_times wide proper fits behindClear times]
  have rest := messages_silent wide proper last clear (turns + 1) 0 { g with done := true, ret := 0, res := some bt }
  rw [messages_end] at rest
  exact rest

end messages

private theorem length_le_datagram {ms : List Msg} (fits : ∀ m ∈ ms, m.Fits) : ms.length ≤ (datagram ms).length := by
  induction ms with
  | nil => exact Nat.zero_le _
  | cons m ms ih =>
    have later := ih fun m member => fits m (List.mem_cons_of_mem _ member)
    have room := (fits m List.mem_cons_self).room
    rw [datagram_cons,List.length_append,bytes_length,Msg.size,List.length_cons]
    omega

private theorem datagram_ne_nil {ms : List Msg} (fits : ∀ m ∈ ms, m.Fits) (full : ms ≠ []) : datagram ms ≠ [] := by
  intro empty
  have least := length_le_datagram fits
  rw [empty,List.length_nil] at least
  exact full (List.eq_nil_of_length_eq_zero (by omega))

private theorem getting_silent {iflaMax : Nat} (wide : iflaLinkinfo ≤ iflaMax) {name : List Byte} (proper : 0#8 ∉ name)
    {ms : List Msg} (silent : ∀ m ∈ ms, m.Fits ∧ m.Silent name) (full : ms ≠ []) {nlbuf : List Byte}
    (clear : Clear (nlbuf.drop (datagram ms).length)) (datagrams : List Datagram) :
    doGetNlLink iflaMax name (⟨datagram ms,false⟩ :: datagrams) nlbuf {} =
      doGetNlLink iflaMax name datagrams (datagram ms ++ nlbuf.drop (datagram ms).length) {} := by
  have fits : ∀ m ∈ ms, m.Fits := fun m member => (silent m member).1
  obtain ⟨turns,count⟩ := Nat.exists_eq_add_of_le (length_le_datagram fits)
  have present : ¬ (({} : Getting).done = true ∨ datagram ms = []) := by
    simpa using datagram_ne_nil fits full
  have read := messages_silent wide proper silent clear (turns + 1) 0 {}
  rw [messages_end,← Nat.add_assoc,← count] at read
  simp only [Nat.add_zero] at read
  rw [doGetNlLink]
  simp only [if_neg present,read]
  rfl

/-- The answer is taken from whatever datagram brings it, whatever the buffer held at first
and whatever other messages there are. -/
theorem bittiming_got {iflaMax : Nat} (wide : iflaLinkinfo ≤ iflaMax) {name : List Byte} (proper : 0#8 ∉ name)
    {others : List (List Msg)} (silent : ∀ ms ∈ others, ms ≠ [] ∧ ∀ m ∈ ms, m.Fits ∧ m.Silent name)
    {before behind : List Msg} {answer : Msg} {bt : BitTiming} (first : ∀ m ∈ before, m.Fits ∧ m.Silent name)
    (fits : answer.Fits) (times : answer.Times name bt) (last : ∀ m ∈ behind, m.Fits ∧ m.Silent name)
    {nlbuf : List Byte} (clear : ClearAll ((others ++ [before ++ answer :: behind]).map datagram) nlbuf)
    (later : List Datagram) :
    canGetBittiming iflaMax name
        ((others ++ [before ++ answer :: behind]).map (fun ms => ⟨datagram ms,false⟩) ++ later) nlbuf =
      some { done := true, ret := 0, res := some bt } := by
  rw [canGetBittiming]
  induction others generalizing nlbuf with
  | nil =>
    have all : ∀ m ∈ before ++ answer :: behind, m.Fits := by
      intro m member
      rcases List.mem_append.mp member with member | member
      · exact (first m member).1
      · rcases List.mem_cons.mp member with rfl | member
        · exact fits
        · exact (last m member).1
    have present : ¬ (({} : Getting).done = true ∨ datagram (before ++ answer :: behind) = []) := by
      simpa using datagram_ne_nil all (by simp)
    obtain ⟨turns,count⟩ := Nat.exists_eq_add_of_le (length_le_datagram all)
    have read := messages_times wide proper first fits times last clear.1 turns {}
    rw [← Nat.add_assoc,← count] at read
    rw [List.nil_append,List.map_singleton,List.singleton_append,doGetNlLink]
    simp only [if_neg present,read]
    cases later <;> rfl
  | cons ms others ih =>
    obtain ⟨full,here⟩ := silent ms List.mem_cons_self
    rw [List.cons_append,List.map_cons] at clear ⊢
    rw [List.cons_append,getting_silent wide proper here full clear.1]
    exact ih (fun ms member => silent ms (List.mem_cons_of_mem _ member)) clear.2

/-- A link's message, with its name and with what was asked for it. -/
def linkMsg (name : List Byte) (info : ReqInfo) : Msg :=
  ⟨rtmNewlink,List.replicate 26 0,[⟨iflaIfname,name ++ [0]⟩,info.linkinfo]⟩

private theorem linkMsg_fits {name : List Byte} (short : name.length ≤ 15) (info : ReqInfo) : (linkMsg name info).Fits := by
  have total := section_length info
  have named : (⟨iflaIfname,name ++ [0]⟩ : Attribute).size = 4 + (name.length + 1) := by
    rw [Attribute.size,List.length_append]
    rfl
  have linked : info.linkinfo.size = 4 + (written [kindAttr,info.data]).length := rfl
  have inner : (written [⟨iflaIfname,name ++ [0]⟩,info.linkinfo]).length =
      align (⟨iflaIfname,name ++ [0]⟩ : Attribute).size + align info.linkinfo.size := by
    rw [written,List.flatMap_cons,List.length_append,Attributes.bytes_length,List.flatMap_cons,List.length_append,
      Attributes.bytes_length]
    rfl
  have first := align_lt (⟨iflaIfname,name ++ [0]⟩ : Attribute).size
  have second := align_lt info.linkinfo.size
  refine ⟨?_,Nat.lt_of_sub_eq_succ rfl,?_,Nat.le_of_ble_eq_true rfl,?_,fun _ => ?_⟩
  · intro a member
    rcases List.mem_cons.mp member with rfl | member
    · exact ⟨by omega,Nat.lt_of_sub_eq_succ rfl⟩
    · exact linkinfo_fits info a member
  · rw [Msg.size,linkMsg,inner,List.length_replicate]
    omega
  · rw [linkMsg,List.length_replicate]
  · rw [linkMsg,List.length_replicate]

private theorem linkMsg_times (name : List Byte) (bitrate : BitVec 32) :
    (linkMsg name { bittiming := some { bitrate := bitrate } }).Times name { bitrate := bitrate } :=
  asked_times rfl rfl ⟨[],rfl⟩ rfl

private theorem linkMsg_silent {name other : List Byte} (clean : 0#8 ∉ other) (apart : other ≠ name) (info : ReqInfo) :
    (linkMsg other info).Silent name :=
  ⟨Nat.ne_of_beq_eq_false rfl,fun _ => ⟨other,[],rfl,clean,apart⟩⟩

theorem bittiming_got_second : canGetBittiming 63 [0x63]
      (([[linkMsg [0x64] {}]] ++ [[] ++ linkMsg [0x63] { bittiming := some { bitrate := 250000 } } :: []]).map
        (fun ms => ⟨datagram ms,false⟩) ++ []) (List.replicate 300 0) =
    some { done := true, ret := 0, res := some { bitrate := 250000 } } :=
  bittiming_got (by decide) (by decide)
    (by
      intro ms member
      obtain rfl := List.mem_singleton.mp member
      refine ⟨by simp,fun m only => ?_⟩
      obtain rfl := List.mem_singleton.mp only
      exact ⟨linkMsg_fits (by decide) _,linkMsg_silent (by decide) (by decide) _⟩)
    (by simp) (linkMsg_fits (by decide) _) (linkMsg_times _ _) (by simp)
    (by
      have zeros : ∀ {s : List Byte}, 8 ≤ s.length → header s = some (0,0) → Clear s := fun enough head =>
        clear_size enough head (by decide)
      exact ⟨zeros (by decide +kernel) (by decide +kernel),zeros (by decide +kernel) (by decide +kernel),trivial⟩) []

/-- Eight bytes that were left behind can be taken for a section without data. -/
example : canGetBittiming 63 [0x63] [⟨datagram [linkMsg [0x63] { bittiming := some { bitrate := 250000 } }],false⟩]
    (List.replicate 92 0 ++ [4,0,18,0,0,0,0,0]) = some { done := true, returned := true } := by
  decide +kernel

end Mybmm.CanAnswers
