import Mybmm.Support.Arrays
import Mybmm.Support.Feed
import Mybmm.Support.Routine

/-! dsfuncs.c: packets on a byte stream. The receiver looks for a start byte, takes
the header byte by byte and the data with one call. -/
namespace Mybmm.Devserver
open Arrays Feed Routine

def packetStart : Byte := 0xD5

def packetEnd : Byte := 0xEB

def packet (opcode unit : Byte) (data : List Byte) : List Byte :=
  packetStart :: opcode :: unit :: BitVec.ofNat 8 data.length :: data ++ [packetEnd]

/-- The stream, and the variables of the caller that a call fills in. -/
structure Conn where
  feed : Pieces Byte
  opcode : Byte
  unit : Byte
  data : List Byte

def fed (feed : Pieces Byte) (s : Conn) : Conn := { s with feed := feed }

/-- One byte, or else a return; `read` gives less than one. -/
def readByte : Routine Conn Byte := fun s =>
  match read 1 s.feed with
  | (some (b :: _),rest) => some (.ok b,fed rest s)
  | (_,rest) => some (.error (-1),fed rest s)

/-- Up to and with the start byte; the code is that of the call that ends the search. -/
def seek (feed : Pieces Byte) : Except Int Unit × Pieces Byte :=
  match _brought : read 1 feed with
  | (none,rest) => (.error (-1),rest)
  | (some [],rest) => (.error 0,rest)
  | (some (ch :: _),rest) => if ch = packetStart then (.ok (),rest) else seek rest
termination_by (contents feed).length
decreasing_by exact read_shorter _brought

def findStart : Routine Conn Unit := fun s =>
  let (found,rest) := seek s.feed
  some (found,fed rest s)

def readData (n : Nat) : Routine Conn Unit := fun s =>
  match read n s.feed with
  | (some (b :: bs),rest) => some (.ok (),{ s with feed := rest, data := b :: bs ++ s.data.drop (bs.length + 1) })
  | (_,rest) => some (.error (-1),fed rest s)

def within (n : Nat) : Routine Conn Unit := index (if n ≤ 256 then some () else none)

def drain (left i : Nat) : Routine Conn Unit := do
  within (i + left)
  modify fun s => fed (advance left s.feed) s

def finish (i len : Nat) : Routine Conn Int := do
  let ch ← readByte
  if ch ≠ packetEnd then orReturn (-1) none else do
    within (i + 1)
    return len

def body (data : Bool) (datasz len : Nat) : Routine Conn Int :=
  if data = true ∧ datasz ≠ 0 ∧ len ≠ 0 then do
    readData (min len datasz)
    within (4 + min len datasz)
    drain (len - min len datasz) (4 + min len datasz)
    finish (4 + len) (min len datasz)
  else do
    drain len 4
    finish (4 + len) len

/-- `data` tells whether there is a buffer. -/
def devserverRecv (data : Bool) (datasz : Nat) : Routine Conn Int := do
  findStart
  let opcode ← readByte
  modify fun s => { s with opcode := opcode }
  let unit ← readByte
  modify fun s => { s with unit := unit }
  let len ← readByte
  body data datasz len.toNat

/-! A steady stream. -/

/-- `g` is what is left of `f` after its first `k` elements, one by one. -/
structure After (f g : Pieces Byte) (k : Nat) (rest : List Byte) : Prop where
  steady : Steady g
  contents : contents g = rest
  joined : ∀ start n, Joined f (k + start) n ↔ Joined g start n

private theorem after_trans {f g h : Pieces Byte} {j k : Nat} {xs ys : List Byte} (first : After f g j xs)
    (second : After g h k ys) : After f h (j + k) ys where
  steady := second.steady
  contents := second.contents
  joined start n := by rw [Nat.add_assoc,first.joined,second.joined]

private theorem after_read_one {f : Pieces Byte} (steady : Steady f) {b : Byte} {rest : List Byte}
    (first : contents f = b :: rest) : ∃ g, read 1 f = (some [b],g) ∧ After f g 1 rest := by
  obtain ⟨g,brought,still,left⟩ := read_one steady first
  refine ⟨g,brought,{ steady := still, contents := left, joined := fun start n => ?_ }⟩
  rw [Nat.add_comm]
  exact joined_read_one steady brought start n

private theorem readByte_steady {s : Conn} (steady : Steady s.feed) {b : Byte} {rest : List Byte}
    (first : contents s.feed = b :: rest) : ∃ g, readByte s = some (.ok b,fed g s) ∧ After s.feed g 1 rest := by
  obtain ⟨g,brought,after⟩ := after_read_one steady first
  exact ⟨g,by simp only [readByte,brought],after⟩

private theorem seek_steady {feed : Pieces Byte} (steady : Steady feed) (junk rest : List Byte) (clean : packetStart ∉ junk)
    (ahead : contents feed = junk ++ packetStart :: rest) :
    ∃ g, seek feed = (.ok (),g) ∧ After feed g (junk.length + 1) rest := by
  induction junk generalizing feed with
  | nil =>
    obtain ⟨g,brought,after⟩ := after_read_one steady ahead
    refine ⟨g,?_,after⟩
    rw [seek,brought]
    simp
  | cons b junk ih =>
    obtain ⟨g,brought,after⟩ := after_read_one steady ahead
    rw [List.mem_cons,not_or] at clean
    obtain ⟨last,found,later⟩ := ih after.steady clean.2 after.contents
    refine ⟨last,?_,?_⟩
    · rw [seek,brought]
      simp only [if_neg (Ne.symm clean.1)]
      exact found
    · rw [List.length_cons,Nat.add_comm _ 1]
      exact after_trans after later

theorem recv_header (data : Bool) (datasz : Nat) (s : Conn) (steady : Steady s.feed) (junk rest : List Byte)
    (opcode unit len : Byte) (clean : packetStart ∉ junk)
    (ahead : contents s.feed = junk ++ packetStart :: opcode :: unit :: len :: rest) :
    ∃ g, devserverRecv data datasz s = body data datasz len.toNat { s with feed := g, opcode := opcode, unit := unit } ∧
      After s.feed g (junk.length + 4) rest := by
  obtain ⟨f1,found,after1⟩ := seek_steady steady junk _ clean ahead
  have start : findStart s = some (.ok (),fed f1 s) := by simp only [findStart,found]
  obtain ⟨f2,read2,after2⟩ := readByte_steady (s := fed f1 s) after1.steady after1.contents
  obtain ⟨f3,read3,after3⟩ := readByte_steady (s := { fed f2 s with opcode := opcode }) after2.steady after2.contents
  obtain ⟨f4,read4,after4⟩ := readByte_steady (s := { fed f3 s with opcode := opcode, unit := unit }) after3.steady
    after3.contents
  have path : After s.feed f4 (junk.length + 1 + (1 + (1 + 1))) rest :=
    after_trans after1 (after_trans after2 (after_trans after3 after4))
  rw [show junk.length + 1 + (1 + (1 + 1)) = junk.length + 4 by omega] at path
  refine ⟨f4,?_,path⟩
  rw [devserverRecv,bind_ok start,bind_ok read2,bind_modify]
  exact (bind_ok read3).trans (bind_ok read4)

theorem drain_steady (s : Conn) (steady : Steady s.feed) (i : Nat) (xs rest : List Byte) (fits : i + xs.length ≤ 256)
    (ahead : contents s.feed = xs ++ rest) :
    ∃ g, drain xs.length i s = some (.ok (),fed g s) ∧ After s.feed g xs.length rest := by
  obtain ⟨still,left,joined⟩ := advance_steady steady xs rest ahead
  refine ⟨advance xs.length s.feed,?_,{ steady := still, contents := left, joined := joined }⟩
  rw [drain,within,if_pos fits,bind_index]
  rfl

theorem finish_steady (s : Conn) (steady : Steady s.feed) (i len : Nat) (ch : Byte) (rest : List Byte)
    (fits : i + 1 ≤ 256) (ahead : contents s.feed = ch :: rest) :
    ∃ g, finish i len s = some (if ch = packetEnd then .ok (len : Int) else .error (-1),fed g s) ∧
      After s.feed g 1 rest := by
  obtain ⟨g,read,after⟩ := readByte_steady steady ahead
  refine ⟨g,?_,after⟩
  rw [finish,bind_ok read]
  by_cases mark : ch = packetEnd
  · rw [if_neg (by simpa using mark),within,if_pos fits,if_pos mark]
    rfl
  · rw [if_pos mark,if_neg mark]
    rfl

/-! Any stream: what a part of the receiver takes from it. -/

theorem readByte_cases (s : Conn) :
    (∃ b g, readByte s = some (.ok b,fed g s) ∧ contents s.feed = b :: contents g) ∨
      ∃ g, readByte s = some (.error (-1),fed g s) ∧ contents s.feed = contents g := by
  have parts := read_contents 1 s.feed
  have short := read_length 1 s.feed
  rcases result : read 1 s.feed with ⟨piece,g⟩
  rw [result] at parts short
  rcases piece with _ | bs
  · exact Or.inr ⟨g,by simp only [readByte,result],parts⟩
  · cases bs with
    | nil => exact Or.inr ⟨g,by simp only [readByte,result],parts⟩
    | cons b bs =>
      obtain rfl : bs = [] := by
        cases bs with
        | nil => rfl
        | cons c bs => simp at short
      exact Or.inl ⟨b,g,by simp only [readByte,result],parts⟩

theorem findStart_cases (s : Conn) :
    ∃ junk g, packetStart ∉ junk ∧
      ((findStart s = some (.ok (),fed g s) ∧ contents s.feed = junk ++ packetStart :: contents g) ∨
        ∃ code, findStart s = some (.error code,fed g s) ∧ contents s.feed = junk ++ contents g) := by
  suffices ∀ feed : Pieces Byte, ∃ junk g, packetStart ∉ junk ∧
      ((seek feed = (.ok (),g) ∧ contents feed = junk ++ packetStart :: contents g) ∨
        ∃ code, seek feed = (.error code,g) ∧ contents feed = junk ++ contents g) by
    obtain ⟨junk,g,clean,⟨found,parts⟩ | ⟨code,found,parts⟩⟩ := this s.feed
    · exact ⟨junk,g,clean,Or.inl ⟨by simp only [findStart,found],parts⟩⟩
    · exact ⟨junk,g,clean,Or.inr ⟨code,by simp only [findStart,found],parts⟩⟩
  intro feed
  induction size : (contents feed).length using Nat.strongRecOn generalizing feed with
  | _ size ih =>
    have parts := read_contents 1 feed
    have short := read_length 1 feed
    rcases result : read 1 feed with ⟨piece,g⟩
    rw [result] at parts short
    rcases piece with _ | bs
    · exact ⟨[],g,by simp,Or.inr ⟨-1,by rw [seek,result],parts⟩⟩
    · cases bs with
      | nil => exact ⟨[],g,by simp,Or.inr ⟨0,by rw [seek,result],parts⟩⟩
      | cons b bs =>
        obtain rfl : bs = [] := by
          cases bs with
          | nil => rfl
          | cons c bs => simp at short
        by_cases start : b = packetStart
        · exact ⟨[],g,by simp,Or.inl ⟨by rw [seek,result]; simp [start],by rw [parts,start]; rfl⟩⟩
        · obtain ⟨junk,h,clean,rest⟩ := ih (contents g).length (size ▸ read_shorter result) g rfl
          have next : seek feed = seek g := by
            rw [seek,result]
            simp only [if_neg start]
          refine ⟨b :: junk,h,by simp [clean,Ne.symm start],?_⟩
          rw [next,parts]
          rcases rest with ⟨found,after⟩ | ⟨code,found,after⟩
          · exact Or.inl ⟨found,by simp [after]⟩
          · exact Or.inr ⟨code,found,by simp [after]⟩

theorem readData_cases (n : Nat) (s : Conn) :
    (∃ xs g, readData n s = some (.ok (),{ s with feed := g, data := xs ++ s.data.drop xs.length }) ∧ xs.length ≤ n ∧
        contents s.feed = xs ++ contents g) ∨
      ∃ g, readData n s = some (.error (-1),fed g s) ∧ contents s.feed = contents g := by
  have parts := read_contents n s.feed
  have short := read_length n s.feed
  rcases result : read n s.feed with ⟨piece,g⟩
  rw [result] at parts short
  rcases piece with _ | bs
  · exact Or.inr ⟨g,by simp only [readData,result],parts⟩
  · cases bs with
    | nil => exact Or.inr ⟨g,by simp only [readData,result],parts⟩
    | cons b bs => exact Or.inl ⟨b :: bs,g,by simp only [readData,result,List.length_cons],short,parts⟩

private theorem advance_contents (k : Nat) (f : Pieces Byte) :
    ∃ xs, contents f = xs ++ contents (advance k f) ∧ xs.length ≤ k := by
  induction k generalizing f with
  | zero => exact ⟨[],rfl,Nat.le_refl 0⟩
  | succ k ih =>
    obtain ⟨xs,after,bound⟩ := ih (read 1 f).2
    have short := read_length 1 f
    refine ⟨(read 1 f).1.getD [] ++ xs,?_,?_⟩
    · rw [read_contents 1 f,after,List.append_assoc]
      rfl
    · rw [List.length_append]
      omega

/-- What is left after the data are received: some bytes are drained, and one decides,
unless there is none. -/
theorem drain_finish_cases {s t : Conn} {ending : Except Int Int} {left i j len : Nat}
    (run : (do drain left i; finish j len : Routine Conn Int) s = some (ending,t)) :
    t.data = s.data ∧ ∃ ys, ys.length ≤ left ∧ (contents s.feed = ys ++ contents t.feed ∨
      ∃ b, contents s.feed = ys ++ b :: contents t.feed ∧ ending = if b = packetEnd then .ok (len : Int) else .error (-1)) := by
  obtain ⟨ys,skipped,bound⟩ := advance_contents left s.feed
  by_cases fits : i + left ≤ 256
  · have drained : drain left i s = some (.ok (),fed (advance left s.feed) s) := by
      rw [drain,within,if_pos fits,bind_index]
      rfl
    rw [bind_ok drained,finish] at run
    rcases readByte_cases (fed (advance left s.feed) s) with ⟨b,h,last,after⟩ | ⟨h,last,after⟩
    · rw [bind_ok last] at run
      have parts : contents s.feed = ys ++ b :: contents h := skipped.trans (congrArg _ after)
      by_cases mark : b = packetEnd
      · rw [if_neg (by simpa using mark)] at run
        by_cases more : j + 1 ≤ 256
        · rw [within,if_pos more] at run
          obtain ⟨rfl,rfl⟩ := Prod.mk.inj (Option.some.inj run)
          exact ⟨rfl,ys,bound,Or.inr ⟨b,parts,(if_pos mark).symm⟩⟩
        · rw [within,if_neg more] at run
          exact absurd run (by simp [bind,index])
      · rw [if_pos mark] at run
        obtain ⟨rfl,rfl⟩ := Prod.mk.inj (Option.some.inj run)
        exact ⟨rfl,ys,bound,Or.inr ⟨b,parts,(if_neg mark).symm⟩⟩
    · rw [bind_error last] at run
      obtain ⟨rfl,rfl⟩ := Prod.mk.inj (Option.some.inj run)
      exact ⟨rfl,ys,bound,Or.inl (skipped.trans (congrArg _ after))⟩
  · rw [bind_none (by rw [drain,within,if_neg fits]; rfl)] at run
    contradiction

end Mybmm.Devserver
