import Mybmm.Streams

/-! `serial_read` and `ip_read` with the buffer they fill: what the stream brings is put
together there, however it comes in pieces. -/
namespace Mybmm.StreamReads
open Arrays Streams

/-- What `read` makes of a call: a failure, which says whether to try again, or bytes; none
at the end of the stream. -/
inductive Reading where
  | failed (again : Bool)
  | data (bytes : List Byte)

/-- One turn of a loop: what `select` returns, and `read` after it. -/
structure Turn where
  num : Int
  reading : Reading

def place (mem : Nat → Byte) (p : Nat) (bytes : List Byte) : Nat → Byte :=
  fun a => if a < p then mem a else bytes[a - p]?.getD (mem a)

/-- The loops are alike but for a failure that asks for another try. `read` does not bring
more than it is asked for: such a turn has no meaning. -/
def readLoop (retry : Bool) (mem : Nat → Byte) (p buflen : Nat) (bidx : Int) :
    List Turn → Option (Int × (Nat → Byte) × List Turn)
  | [] => none
  | t :: turns =>
    if t.num = 0 then some (bidx,mem,turns) else
    match t.reading with
    | .failed again => if retry && again then readLoop retry mem p buflen bidx turns else some (-1,mem,turns)
    | .data bytes =>
      if buflen < bytes.length then none
      else if bytes = [] then some (bidx,mem,turns)
      else
        let mem := place mem p bytes
        let p := p + bytes.length
        let bidx := bidx + bytes.length
        let buflen := buflen - bytes.length
        if buflen < 1 then some (bidx,mem,turns) else readLoop retry mem p buflen bidx turns

/-- The value, the memory and the turns that are left. -/
def serialReadInto (s : SerialSession) (mem : Nat → Byte) (buf buflen : Nat) (turns : List Turn) :
    Option (Int × (Nat → Byte) × List Turn) :=
  if s.fd < 0 then some (-1,mem,turns) else readLoop false mem buf buflen 0 turns

def ipReadInto (s : IpSession) (mem : Nat → Byte) (buf buflen : Nat) (turns : List Turn) :
    Option (Int × (Nat → Byte) × List Turn) :=
  if s.fd < 0 then some (-1,mem,turns) else readLoop true mem buf buflen 0 turns

/-! What is to be read. -/

def Turn.chunk (t : Turn) : List Byte :=
  if t.num = 0 then [] else
  match t.reading with
  | .failed _ => []
  | .data bytes => bytes

def received (turns : List Turn) : List Byte := (turns.map Turn.chunk).flatten

/-- The buffer's first bytes are these, and no others were written. -/
structure Stored (mem : Nat → Byte) (buf buflen : Nat) (bytes : List Byte) (n : Int) (after : Nat → Byte) : Prop where
  count : n = bytes.length
  fits : bytes.length ≤ buflen
  stored : ∀ i b, bytes[i]? = some b → after (buf + i) = b
  outside : ∀ a, a < buf ∨ buf + bytes.length ≤ a → after a = mem a

/-- Turns that bring a stream piece by piece until there is no room left or no more of it;
nothing is waited for in vain. -/
inductive Segmentation (retry : Bool) : (room : Nat) → (stream : List Byte) → List Turn → Prop
  | full (stream : List Byte) (turns : List Turn) : Segmentation retry 0 stream turns
  | ended {num : Int} (ready : num ≠ 0) (room : Nat) (turns : List Turn) :
      Segmentation retry room [] (⟨num,.data []⟩ :: turns)
  | again {num : Int} (ready : num ≠ 0) (retries : retry = true) {room : Nat} {stream : List Byte} {turns : List Turn}
      (later : Segmentation retry room stream turns) : Segmentation retry room stream (⟨num,.failed true⟩ :: turns)
  | piece {num : Int} (ready : num ≠ 0) {room : Nat} {bytes stream : List Byte} {turns : List Turn}
      (filled : bytes ≠ []) (fits : bytes.length ≤ room) (later : Segmentation retry (room - bytes.length) stream turns) :
      Segmentation retry room (bytes ++ stream) (⟨num,.data bytes⟩ :: turns)

/-- What a session's read does, by its descriptor. -/
structure Assembles (retry : Bool) (fd : Int)
    (read : (Nat → Byte) → Nat → Nat → List Turn → Option (Int × (Nat → Byte) × List Turn)) : Prop where
  stores : ∀ mem buf buflen turns n after rest, 0 < buflen → read mem buf buflen turns = some (n,after,rest) → 0 ≤ n →
    ∃ used, turns = used ++ rest ∧ Stored mem buf buflen (received used) n after
  segments : ∀ mem buf buflen stream turns turns', 0 < buflen → Segmentation retry buflen stream turns →
    Segmentation retry buflen stream turns' → ∃ n after rest rest', read mem buf buflen turns = some (n,after,rest) ∧
      read mem buf buflen turns' = some (n,after,rest') ∧ (0 ≤ fd → n = min buflen stream.length)

/-! Bytes in memory. -/

section Place

variable (mem : Nat → Byte) (p : Nat)

@[simp] theorem place_nil : place mem p [] = mem := by
  funext a
  simp [place]

private theorem place_append (first second : List Byte) :
    place (place mem p first) (p + first.length) second = place mem p (first ++ second) := by
  funext a
  unfold place
  by_cases before : a < p
  · rw [if_pos (by omega),if_pos before,if_pos before]
  · rw [if_neg before]
    by_cases early : a < p + first.length
    · rw [if_pos early,if_neg before,List.getElem?_append_left (by omega)]
    · have beyond : first[a - p]? = none := List.getElem?_eq_none (by omega)
      rw [if_neg early,if_neg before,List.getElem?_append_right (by omega),beyond,Option.getD_none,Nat.sub_sub]

private theorem place_stored {bytes : List Byte} {buflen : Nat} (fits : bytes.length ≤ buflen) :
    Stored mem p buflen bytes bytes.length (place mem p bytes) where
  count := rfl
  fits := fits
  stored i b held := by
    rw [place,if_neg (by omega),Nat.add_sub_cancel_left,held,Option.getD_some]
  outside a away := by
    unfold place
    split_ifs with before
    · rfl
    · rw [List.getElem?_eq_none (by omega),Option.getD_none]

end Place

/-! The loops. -/

private theorem received_cons (t : Turn) (turns : List Turn) : received (t :: turns) = t.chunk ++ received turns := rfl

/-- The chunks of the turns that are gone lie one after the other where the cursor was. -/
def Placed (mem : Nat → Byte) (p room : Nat) (bidx : Int) (turns : List Turn) (n : Int) (after : Nat → Byte)
    (rest : List Turn) : Prop :=
  ∃ used, turns = used ++ rest ∧ (received used).length ≤ room ∧ after = place mem p (received used) ∧
    (n = -1 ∨ n = bidx + (received used).length)

section Loop

variable {retry : Bool} {mem after : Nat → Byte} {p room : Nat} {bidx n : Int} {rest : List Turn}

private theorem readLoop_quiet {num : Int} (quiet : num = 0) (reading : Reading) (turns : List Turn) :
    readLoop retry mem p room bidx (⟨num,reading⟩ :: turns) = some (bidx,mem,turns) := by
  rw [readLoop,if_pos quiet]

private theorem readLoop_failed {num : Int} (ready : num ≠ 0) (again : Bool) (turns : List Turn) :
    readLoop retry mem p room bidx (⟨num,.failed again⟩ :: turns) =
      if retry && again then readLoop retry mem p room bidx turns else some (-1,mem,turns) := by
  rw [readLoop,if_neg ready]

private theorem readLoop_ended {num : Int} (ready : num ≠ 0) (turns : List Turn) :
    readLoop retry mem p room bidx (⟨num,.data []⟩ :: turns) = some (bidx,mem,turns) := by
  rw [readLoop,if_neg ready]
  simp

private theorem readLoop_data {num : Int} (ready : num ≠ 0) {bytes : List Byte} (filled : bytes ≠ [])
    (fits : bytes.length ≤ room) (turns : List Turn) :
    readLoop retry mem p room bidx (⟨num,.data bytes⟩ :: turns) =
      if room = bytes.length then some (bidx + bytes.length,place mem p bytes,turns)
      else readLoop retry (place mem p bytes) (p + bytes.length) (room - bytes.length) (bidx + bytes.length) turns := by
  have full : room - bytes.length < 1 ↔ room = bytes.length := by omega
  rw [readLoop,if_neg ready]
  simp only [if_neg (Nat.not_lt_of_le fits),if_neg filled,full]

/-- What one turn does, and what is then left to the turns behind it. -/
inductive Turned (retry : Bool) (mem after : Nat → Byte) (p room : Nat) (bidx n : Int) (turns rest : List Turn) : Turn → Prop
  | quiet {num : Int} (silent : num = 0) (reading : Reading) (value : n = bidx) (kept : after = mem) (left : rest = turns) :
      Turned retry mem after p room bidx n turns rest ⟨num,reading⟩
  | ended {num : Int} (ready : num ≠ 0) (value : n = bidx) (kept : after = mem) (left : rest = turns) :
      Turned retry mem after p room bidx n turns rest ⟨num,.data []⟩
  | failed {num : Int} (ready : num ≠ 0) {again : Bool} (final : (retry && again) = false) (value : n = -1)
      (kept : after = mem) (left : rest = turns) : Turned retry mem after p room bidx n turns rest ⟨num,.failed again⟩
  | again {num : Int} (ready : num ≠ 0) {again : Bool} (retries : (retry && again) = true)
      (later : readLoop retry mem p room bidx turns = some (n,after,rest)) :
      Turned retry mem after p room bidx n turns rest ⟨num,.failed again⟩
  | full {num : Int} (ready : num ≠ 0) {bytes : List Byte} (filled : bytes ≠ []) (fits : room = bytes.length)
      (value : n = bidx + bytes.length) (stored : after = place mem p bytes) (left : rest = turns) :
      Turned retry mem after p room bidx n turns rest ⟨num,.data bytes⟩
  | part {num : Int} (ready : num ≠ 0) {bytes : List Byte} (filled : bytes ≠ []) (fits : bytes.length < room)
      (later : readLoop retry (place mem p bytes) (p + bytes.length) (room - bytes.length) (bidx + bytes.length) turns =
        some (n,after,rest)) : Turned retry mem after p room bidx n turns rest ⟨num,.data bytes⟩

private theorem readLoop_turned {t : Turn} {turns : List Turn}
    (ends : readLoop retry mem p room bidx (t :: turns) = some (n,after,rest)) :
    Turned retry mem after p room bidx n turns rest t := by
  obtain ⟨num,reading⟩ := t
  by_cases silent : num = 0
  · rw [readLoop_quiet silent,Option.some.injEq,Prod.mk.injEq,Prod.mk.injEq] at ends
    exact .quiet silent reading ends.1.symm ends.2.1.symm ends.2.2.symm
  cases reading with
  | failed again =>
    rw [readLoop_failed silent] at ends
    split_ifs at ends with retries
    · exact .again silent retries ends
    · rw [Option.some.injEq,Prod.mk.injEq,Prod.mk.injEq] at ends
      exact .failed silent (Bool.eq_false_iff.mpr retries) ends.1.symm ends.2.1.symm ends.2.2.symm
  | data bytes =>
    by_cases empty : bytes = []
    · subst empty
      rw [readLoop_ended silent,Option.some.injEq,Prod.mk.injEq,Prod.mk.injEq] at ends
      exact .ended silent ends.1.symm ends.2.1.symm ends.2.2.symm
    have fits : bytes.length ≤ room := by
      by_contra beyond
      simp [readLoop,silent,Nat.lt_of_not_le beyond] at ends
    rw [readLoop_data silent empty fits] at ends
    split_ifs at ends with full
    · rw [Option.some.injEq,Prod.mk.injEq,Prod.mk.injEq] at ends
      exact .full silent empty full ends.1.symm ends.2.1.symm ends.2.2.symm
    · exact .part silent empty (by omega) ends

private theorem placed_last (t : Turn) (fits : t.chunk.length ≤ room) (value : n = -1 ∨ n = bidx + t.chunk.length) :
    Placed mem p room bidx (t :: rest) n (place mem p t.chunk) rest := by
  have single : received [t] = t.chunk := List.append_nil _
  exact ⟨[t],rfl,by rw [single]; exact fits,by rw [single],by rw [single]; exact value⟩

private theorem placed_cons (t : Turn) {turns : List Turn} (fits : t.chunk.length ≤ room)
    (later : Placed (place mem p t.chunk) (p + t.chunk.length) (room - t.chunk.length) (bidx + t.chunk.length) turns n
      after rest) : Placed mem p room bidx (t :: turns) n after rest := by
  obtain ⟨used,rfl,few,rfl,value⟩ := later
  refine ⟨t :: used,rfl,?_,?_,value.imp id fun counted => ?_⟩
  · rw [received_cons,List.length_append]
    omega
  · rw [received_cons,place_append]
  · rw [received_cons,List.length_append,counted,Nat.cast_add,Int.add_assoc]

private theorem placed_nothing (t : Turn) (nothing : t.chunk = []) (value : n = -1 ∨ n = bidx) :
    Placed mem p room bidx (t :: rest) n mem rest := by
  have single : received [t] = [] := by rw [received_cons,nothing]; rfl
  exact ⟨[t],rfl,by simp [single],by simp [single],by simpa [single] using value⟩

private theorem placed_skip (t : Turn) {turns : List Turn} (nothing : t.chunk = [])
    (later : Placed mem p room bidx turns n after rest) : Placed mem p room bidx (t :: turns) n after rest := by
  apply placed_cons t (by simp [nothing])
  simpa [nothing] using later

/-- What a loop has put together when it ends, well or not. -/
private theorem readLoop_placed {turns : List Turn} (ends : readLoop retry mem p room bidx turns = some (n,after,rest)) :
    Placed mem p room bidx turns n after rest := by
  induction turns generalizing mem p room bidx with
  | nil => simp [readLoop] at ends
  | cons t turns ih =>
    cases readLoop_turned ends with
    | quiet silent reading value kept left =>
      obtain ⟨rfl,rfl⟩ := And.intro kept left
      exact placed_nothing _ (if_pos silent) (Or.inr value)
    | ended ready value kept left =>
      obtain ⟨rfl,rfl⟩ := And.intro kept left
      exact placed_nothing _ (if_neg ready) (Or.inr value)
    | failed ready final value kept left =>
      obtain ⟨rfl,rfl⟩ := And.intro kept left
      exact placed_nothing _ (if_neg ready) (Or.inl value)
    | again ready retries later => exact placed_skip _ (if_neg ready) (ih later)
    | @full num ready bytes filled fits value stored left =>
      obtain ⟨rfl,rfl⟩ := And.intro stored left
      have brought : (Turn.mk num (.data bytes)).chunk = bytes := if_neg ready
      have last : Placed mem p room bidx (⟨num,.data bytes⟩ :: rest) n _ rest :=
        placed_last ⟨num,.data bytes⟩ (brought.symm ▸ fits.ge) (Or.inr (by rw [brought,value]))
      rwa [brought] at last
    | @part num ready bytes filled fits later =>
      have brought : (Turn.mk num (.data bytes)).chunk = bytes := if_neg ready
      apply placed_cons ⟨num,.data bytes⟩ (brought.symm ▸ fits.le)
      rw [brought]
      exact ih later

/-- A loop that a stream is brought to piece by piece puts together what there is room for. -/
private theorem readLoop_segments {stream : List Byte} {turns : List Turn} (segments : Segmentation retry room stream turns)
    (positive : 0 < room) : ∃ rest, readLoop retry mem p room bidx turns =
      some (bidx + (min room stream.length : Nat),place mem p (stream.take room),rest) := by
  induction segments generalizing mem p bidx with
  | full => exact absurd positive (Nat.lt_irrefl 0)
  | ended ready room turns => exact ⟨turns,by rw [readLoop_ended ready]; simp⟩
  | again ready retries later ih =>
    rw [readLoop_failed ready,if_pos (by rw [retries]; rfl)]
    exact ih positive
  | @piece num ready room bytes stream turns filled fits later ih =>
    rw [readLoop_data ready filled fits]
    split_ifs with full
    · subst full
      exact ⟨turns,by simp⟩
    · obtain ⟨rest,ends⟩ := @ih (place mem p bytes) (p + bytes.length) (bidx + bytes.length) (by omega)
      have count : bytes.length + min (room - bytes.length) stream.length = min room (bytes ++ stream).length := by
        rw [List.length_append]
        omega
      refine ⟨rest,ends.trans ?_⟩
      rw [place_append,List.take_append,List.take_of_length_le fits,← count,Nat.cast_add,Int.add_assoc]

end Loop

private theorem loop_assembles (retry : Bool) (fd : Int) : Assembles retry fd fun mem buf buflen turns =>
    if fd < 0 then some (-1,mem,turns) else readLoop retry mem buf buflen 0 turns where
  stores mem buf buflen turns n after rest _ ends returned := by
    split_ifs at ends with closed
    · rw [Option.some.injEq,Prod.mk.injEq] at ends
      exact absurd returned (by rw [← ends.1]; decide)
    · obtain ⟨used,split,fits,rfl,failed | value⟩ := readLoop_placed ends
      · exact absurd returned (by rw [failed]; decide)
      · rw [Int.zero_add] at value
        exact ⟨used,split,value ▸ place_stored mem buf fits⟩
  segments mem buf buflen stream turns turns' positive first second := by
    split_ifs with closed
    · exact ⟨_,_,_,_,rfl,rfl,fun valid => absurd closed (Int.not_lt.mpr valid)⟩
    · have ends {turns : List Turn} (segments : Segmentation retry buflen stream turns) :
          ∃ rest, readLoop retry mem buf buflen 0 turns =
            some ((0 : Int) + (min buflen stream.length : Nat),place mem buf (stream.take buflen),rest) :=
        readLoop_segments segments positive
      obtain ⟨⟨rest,one⟩,rest',other⟩ := And.intro (ends first) (ends second)
      exact ⟨_,_,rest,rest',one,other,fun _ => Int.zero_add _⟩

/-- Both reads put together what the stream brings, and how it comes makes no difference. -/
theorem reads_assemble (serial : SerialSession) (ip : IpSession) :
    Assembles false serial.fd (serialReadInto serial) ∧ Assembles true ip.fd (ipReadInto ip) :=
  ⟨loop_assembles false serial.fd,loop_assembles true ip.fd⟩

/-! The reads without their buffer. -/

def Turn.poll (t : Turn) : Poll :=
  if t.num = 0 then .quiet else
  match t.reading with
  | .failed again => .failed again
  | .data bytes => .data bytes

private theorem poll_quiet {num : Int} (silent : num = 0) (reading : Reading) : (Turn.mk num reading).poll = .quiet :=
    if_pos silent

private theorem poll_failed {num : Int} (ready : num ≠ 0) (again : Bool) : (Turn.mk num (.failed again)).poll =
    .failed again :=
  if_neg ready

private theorem poll_data {num : Int} (ready : num ≠ 0) (bytes : List Byte) : (Turn.mk num (.data bytes)).poll =
    .data bytes :=
  if_neg ready

private theorem readLoop_poll {retry : Bool} {mem after : Nat → Byte} {p room : Nat} {bidx n : Int} {turns rest : List Turn}
    (ends : readLoop retry mem p room bidx turns = some (n,after,rest)) :
    ∃ code bytes, pollRead retry room (turns.map Turn.poll) = some (code,bytes) ∧ after = place mem p bytes ∧
      (code = -1 ∧ n = -1 ∨ 0 ≤ code ∧ n = bidx + code) := by
  induction turns generalizing mem p room bidx with
  | nil => simp [readLoop] at ends
  | cons t turns ih =>
    rw [List.map_cons]
    cases readLoop_turned ends with
    | quiet silent reading value kept left =>
      rw [poll_quiet silent,pollRead]
      exact ⟨0,[],rfl,kept.trans (place_nil mem p).symm,Or.inr ⟨le_rfl,by rw [value,Int.add_zero]⟩⟩
    | ended ready value kept left =>
      rw [poll_data ready,pollRead]
      exact ⟨0,[],by simp,kept.trans (place_nil mem p).symm,Or.inr ⟨le_rfl,by rw [value,Int.add_zero]⟩⟩
    | failed ready final value kept left =>
      rw [poll_failed ready,pollRead,final]
      exact ⟨-1,[],rfl,kept.trans (place_nil mem p).symm,Or.inl ⟨rfl,value⟩⟩
    | again ready retries later =>
      rw [poll_failed ready,pollRead,if_pos retries]
      exact ih later
    | @full num ready bytes filled fits value stored left =>
      have taken : bytes.take room = bytes := List.take_of_length_le fits.ge
      have all : room - bytes.length < 1 := by omega
      rw [poll_data ready,pollRead]
      simp only [taken,if_neg filled,if_pos all]
      exact ⟨bytes.length,bytes,rfl,stored,Or.inr ⟨Int.natCast_nonneg _,value⟩⟩
    | @part num ready bytes filled fits later =>
      have taken : bytes.take room = bytes := List.take_of_length_le fits.le
      have more : ¬ room - bytes.length < 1 := by omega
      obtain ⟨code,behind,polled,rfl,value⟩ := ih later
      rw [poll_data ready,pollRead]
      simp only [taken,if_neg filled,if_neg more,polled,Option.map_some]
      refine ⟨_,_,rfl,place_append mem p bytes behind,?_⟩
      rcases value with ⟨rfl,rfl⟩ | ⟨valid,rfl⟩
      · exact Or.inl ⟨rfl,rfl⟩
      · have counted : ¬ code < 0 := Int.not_lt.mpr valid
        exact Or.inr ⟨by rw [if_neg counted]; omega,by rw [if_neg counted,Int.add_assoc]⟩

private theorem loop_refines {retry : Bool} {fd : Int} {mem after : Nat → Byte} {buf buflen : Nat} {turns rest : List Turn}
    {n : Int}
    (ends : (if fd < 0 then some (-1,mem,turns) else readLoop retry mem buf buflen 0 turns) = some (n,after,rest)) :
    ∃ bytes, (if fd < 0 then some (-1,[]) else pollRead retry buflen (turns.map Turn.poll)) = some (n,bytes) ∧
      after = place mem buf bytes := by
  split_ifs at ends ⊢ with closed
  · rw [Option.some.injEq,Prod.mk.injEq,Prod.mk.injEq] at ends
    obtain ⟨rfl,rfl,rfl⟩ := ends
    exact ⟨[],rfl,(place_nil mem buf).symm⟩
  · obtain ⟨code,bytes,polled,placed,value⟩ := readLoop_poll ends
    have same : code = n := by omega
    exact ⟨bytes,same ▸ polled,placed⟩

/-- The reads of the sessions are these with the buffer left out. -/
theorem reads_refine {mem after : Nat → Byte} {buf buflen : Nat} {turns rest : List Turn} {n : Int} :
    (∀ s, serialReadInto s mem buf buflen turns = some (n,after,rest) →
      ∃ bytes, serialRead s buflen (turns.map Turn.poll) = some (n,bytes) ∧ after = place mem buf bytes) ∧
    ∀ s, ipReadInto s mem buf buflen turns = some (n,after,rest) →
      ∃ bytes, ipRead s buflen (turns.map Turn.poll) = some (n,bytes) ∧ after = place mem buf bytes :=
  ⟨fun _ => loop_refines,fun _ => loop_refines⟩

end Mybmm.StreamReads
