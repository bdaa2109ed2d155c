import Mathlib.Algebra.Order.Ring.Nat
import Mybmm.Support.Arrays

/-! Attributes one behind the other in a message: each has its size and its type in
front and is filled up to a multiple of four. A reader goes from one to the next by
their sizes, as far as the length it is given and the sizes allow. -/
namespace Mybmm.Attributes
open Arrays

def align (n : Nat) : Nat := (n + 3) / 4 * 4

def word (n : Nat) : List Byte := [BitVec.ofNat 8 n,BitVec.ofNat 8 (n / 2 ^ 8)]

structure Attribute where
  type : Nat
  data : List Byte
deriving DecidableEq

def Attribute.size (a : Attribute) : Nat := 4 + a.data.length

def Attribute.bytes (a : Attribute) : List Byte :=
  word a.size ++ word a.type ++ a.data ++ List.replicate (align a.size - a.size) 0

structure Attribute.Fits (a : Attribute) : Prop where
  size : a.size < 2 ^ 16
  type : a.type < 2 ^ 16

def written (attrs : List Attribute) : List Byte := attrs.flatMap Attribute.bytes

/-- The last attribute of a type. -/
def lookup (type : Nat) (attrs : List Attribute) : Option (List Byte) :=
  ((attrs.filter fun a => a.type = type).getLast?).map Attribute.data

/-- The size and the type in front. -/
def header : List Byte → Option (Nat × Nat)
  | a :: b :: c :: d :: _ => some ((b ++ a : BitVec 16).toNat,(d ++ c : BitVec 16).toNat)
  | _ => none

/-- How a reader with a length finds attributes. -/
inductive Chain : List Byte → Int → List Attribute → Prop
  | short {s : List Byte} {len : Int} (less : len < 4) : Chain s len []
  | broken {s : List Byte} {len : Int} {size type : Nat} (more : 4 ≤ len) (head : header s = some (size,type))
      (bad : ¬ (4 ≤ size ∧ size ≤ len)) : Chain s len []
  | next {s : List Byte} {len : Int} {size type : Nat} {found : List Attribute} (more : 4 ≤ len)
      (head : header s = some (size,type)) (good : 4 ≤ size ∧ size ≤ len)
      (later : Chain (s.drop (align size)) (len - align size) found) :
      Chain s len (⟨type,(s.drop 4).take (size - 4)⟩ :: found)

theorem le_align (n : Nat) : n ≤ align n := by
  unfold align
  omega

theorem align_lt (n : Nat) : align n < n + 4 := by
  unfold align
  omega

theorem lookup_append (type : Nat) (attrs others : List Attribute) :
    lookup type (attrs ++ others) = (lookup type others).or (lookup type attrs) := by
  rw [lookup,List.filter_append,List.getLast?_append,lookup,lookup]
  cases (others.filter fun a => a.type = type).getLast? <;> rfl

theorem word_joined {n : Nat} (small : n < 2 ^ 16) :
    (BitVec.ofNat 8 (n / 2 ^ 8) ++ BitVec.ofNat 8 n : BitVec 16).toNat = n := by
  rw [BitVec.toNat_append,← Nat.shiftLeft_add_eq_or_of_lt (BitVec.isLt _),Nat.shiftLeft_eq,BitVec.toNat_ofNat,
    BitVec.toNat_ofNat]
  omega

theorem bytes_length (a : Attribute) : a.bytes.length = align a.size := by
  have := le_align a.size
  simp only [Attribute.bytes,word,List.length_append,List.length_cons,List.length_nil,List.length_replicate]
  have size : a.size = 4 + a.data.length := rfl
  omega

theorem bytes_header {a : Attribute} (fits : a.Fits) (rest : List Byte) :
    header (a.bytes ++ rest) = some (a.size,a.type) := by
  have size := word_joined fits.size
  have type := word_joined fits.type
  simp only [Attribute.bytes,word,List.cons_append,List.nil_append,header,size,type]

theorem bytes_data (a : Attribute) (rest : List Byte) : ((a.bytes ++ rest).drop 4).take (a.size - 4) = a.data := by
  have front : a.bytes ++ rest = (word a.size ++ word a.type) ++ (a.data ++
      (List.replicate (align a.size - a.size) 0 ++ rest)) := by
    simp only [Attribute.bytes,List.append_assoc]
  have length : a.size - 4 = a.data.length := by
    rw [Attribute.size]
    omega
  rw [front,length]
  exact List.take_left

theorem bytes_behind (a : Attribute) (rest : List Byte) : (a.bytes ++ rest).drop (align a.size) = rest := by
  rw [← bytes_length]
  exact List.drop_left

/-- What is written is found again, and then whatever follows. -/
theorem chain_written {attrs : List Attribute} (fits : ∀ a ∈ attrs, a.Fits) {rest : List Byte} {k : Nat}
    {found : List Attribute} (behind : Chain rest k found) :
    Chain (written attrs ++ rest) ((written attrs).length + k : Nat) (attrs ++ found) := by
  induction attrs with
  | nil => simpa [written] using behind
  | cons a attrs ih =>
    have later := ih fun b member => fits b (List.mem_cons_of_mem a member)
    have total : (written (a :: attrs)).length = align a.size + (written attrs).length := by
      rw [written,List.flatMap_cons,List.length_append,bytes_length]
      rfl
    have front : written (a :: attrs) ++ rest = a.bytes ++ (written attrs ++ rest) := by
      rw [written,List.flatMap_cons,List.append_assoc]
      rfl
    have least := le_align a.size
    have size : a.size = 4 + a.data.length := rfl
    have here : Chain (a.bytes ++ (written attrs ++ rest)) ((written (a :: attrs)).length + k : Nat)
        (⟨a.type,((a.bytes ++ (written attrs ++ rest)).drop 4).take (a.size - 4)⟩ :: (attrs ++ found)) := by
      refine .next (by omega) (bytes_header (fits a List.mem_cons_self) _) ⟨by omega,by omega⟩ ?_
      rw [bytes_behind]
      have left : (((written (a :: attrs)).length + k : Nat) : Int) - align a.size =
          ((written attrs).length + k : Nat) := by omega
      rw [left]
      exact later
    rw [front]
    rw [bytes_data] at here
    exact here

theorem chain_all {attrs : List Attribute} (fits : ∀ a ∈ attrs, a.Fits) (rest : List Byte) :
    Chain (written attrs ++ rest) (written attrs).length attrs := by
  have none : Chain rest (0 : Nat) [] := .short (by omega)
  simpa using chain_written fits none

theorem header_some {s : List Byte} (enough : 4 ≤ s.length) : ∃ size type, header s = some (size,type) := by
  match s with
  | a :: b :: c :: d :: rest => exact ⟨_,_,rfl⟩
  | [] | [_] | [_,_] | [_,_,_] => simp at enough

/-- A reader whose length lies in the message comes to an end, and what it finds lies there. -/
theorem chain_exists (turns : Nat) {s : List Byte} {len : Int} (inside : len ≤ s.length) (enough : len < turns) :
    ∃ found, Chain s len found ∧ (found.map Attribute.size).sum ≤ len.toNat := by
  induction turns generalizing s len with
  | zero => exact ⟨[],.short (by omega),by simp⟩
  | succ turns ih =>
    by_cases more : 4 ≤ len
    · obtain ⟨size,type,head⟩ := header_some (s := s) (by omega)
      by_cases good : 4 ≤ size ∧ (size : Int) ≤ len
      · have least := le_align size
        have behind : len - align size ≤ (s.drop (align size)).length := by
          rw [List.length_drop]
          omega
        obtain ⟨found,chain,total⟩ := ih behind (by omega)
        have here : (⟨type,(s.drop 4).take (size - 4)⟩ : Attribute).size ≤ size := by
          simp only [Attribute.size,List.length_take]
          omega
        refine ⟨_,.next more head good chain,?_⟩
        rw [List.map_cons,List.sum_cons]
        omega
      · exact ⟨[],.broken more head good,by simp⟩
    · exact ⟨[],.short (by omega),by simp⟩

end Mybmm.Attributes
