import Mathlib.Data.List.AList
import Mathlib.Data.List.Perm.Subperm

/-! Cells on a heap that are linked in both directions. An address is a number other
than zero; a run of cells is told by the addresses and the contents, between the
addresses before and behind it. -/
namespace Mybmm.Links

variable {α : Type}

structure Cell (α : Type) where
  content : α
  prev : Nat
  next : Nat
deriving DecidableEq

abbrev Heap (α : Type) := AList fun _ : Nat => Cell α

abbrev Run (α : Type) := List (Nat × α)

namespace Run

def addresses (run : Run α) : List Nat := run.map Prod.fst

def first (behind : Nat) : Run α → Nat
  | [] => behind
  | (a,_) :: _ => a

def last : Nat → Run α → Nat
  | before, [] => before
  | _, (a,_) :: rest => last a rest

end Run
open Run

def Linked (heap : Heap α) : Nat → Run α → Nat → Prop
  | _, [], _ => True
  | before, (a,x) :: rest, behind =>
    heap.lookup a = some ⟨x,before,first behind rest⟩ ∧ Linked heap a rest behind

def change (heap : Heap α) (a : Nat) (f : Cell α → Cell α) : Option (Heap α) :=
  (heap.lookup a).map fun cell => heap.insert a (f cell)

@[simp] theorem first_nil (behind : Nat) : first behind ([] : Run α) = behind := rfl

@[simp] theorem first_cons (behind : Nat) (node : Nat × α) (rest : Run α) : first behind (node :: rest) = node.1 := rfl

@[simp] theorem last_nil (before : Nat) : last before ([] : Run α) = before := rfl

@[simp] theorem last_cons (before : Nat) (node : Nat × α) (rest : Run α) :
    last before (node :: rest) = last node.1 rest := rfl

theorem first_append (behind : Nat) (xs ys : Run α) : first behind (xs ++ ys) = first (first behind ys) xs := by
  cases xs <;> rfl

theorem last_append (before : Nat) (xs ys : Run α) : last before (xs ++ ys) = last (last before xs) ys := by
  induction xs generalizing before with
  | nil => rfl
  | cons node xs ih => exact ih node.1

theorem first_mem (behind : Nat) (run : Run α) : first behind run = behind ∧ run = [] ∨ first behind run ∈ addresses run := by
  cases run with
  | nil => exact Or.inl ⟨rfl,rfl⟩
  | cons node rest => exact Or.inr (by simp [addresses])

theorem last_mem (before : Nat) (run : Run α) : last before run = before ∧ run = [] ∨ last before run ∈ addresses run := by
  induction run generalizing before with
  | nil => exact Or.inl ⟨rfl,rfl⟩
  | cons node rest ih =>
    refine Or.inr ?_
    rcases ih node.1 with ⟨same,_⟩ | member
    · simp [addresses,same]
    · simpa [addresses] using Or.inr (by simpa [addresses] using member)

theorem lookup_change {heap after : Heap α} {a : Nat} {f : Cell α → Cell α} (changed : change heap a f = some after)
    (b : Nat) : after.lookup b = if b = a then (heap.lookup a).map f else heap.lookup b := by
  obtain ⟨cell,held,rfl⟩ := Option.map_eq_some_iff.mp changed
  by_cases here : b = a
  · subst here
    simp [held]
  · simp [here]

theorem linked_append (heap : Heap α) (before : Nat) (xs ys : Run α) (behind : Nat) :
    Linked heap before (xs ++ ys) behind ↔
      Linked heap before xs (first behind ys) ∧ Linked heap (last before xs) ys behind := by
  induction xs generalizing before with
  | nil => simp [Linked]
  | cons node xs ih =>
    obtain ⟨a,x⟩ := node
    simp only [List.cons_append,Linked,ih,first_append,last_cons]
    rw [and_assoc]

theorem linked_frame {heap after : Heap α} {before : Nat} {run : Run α} {behind : Nat}
    (same : ∀ a ∈ addresses run, after.lookup a = heap.lookup a) (linked : Linked heap before run behind) :
    Linked after before run behind := by
  induction run generalizing before with
  | nil => trivial
  | cons node rest ih =>
    obtain ⟨a,x⟩ := node
    refine ⟨(same a (by simp [addresses])).trans linked.1,ih (fun b member => same b ?_) linked.2⟩
    exact List.mem_cons_of_mem a member

theorem linked_lookup {heap : Heap α} {before : Nat} {run : Run α} {behind : Nat} (linked : Linked heap before run behind)
    (a : Nat) (x : α) (member : (a,x) ∈ run) : ∃ prev next, heap.lookup a = some ⟨x,prev,next⟩ := by
  induction run generalizing before with
  | nil => contradiction
  | cons node rest ih =>
    rcases List.mem_cons.mp member with rfl | later
    · exact ⟨_,_,linked.1⟩
    · exact ih linked.2 later

theorem linked_keys {heap : Heap α} {before : Nat} {run : Run α} {behind : Nat}
    (linked : Linked heap before run behind) : addresses run ⊆ heap.keys := by
  intro a member
  obtain ⟨⟨b,x⟩,inside,rfl⟩ := List.mem_map.mp member
  obtain ⟨prev,next,held⟩ := linked_lookup linked b x inside
  refine AList.mem_keys.mp (AList.lookup_isSome.mp ?_)
  rw [held]
  rfl

theorem linked_length {heap : Heap α} {before : Nat} {run : Run α} {behind : Nat}
    (linked : Linked heap before run behind) (distinct : (addresses run).Nodup) : run.length ≤ heap.keys.length := by
  have fewer := (List.subperm_of_subset distinct (linked_keys linked)).length_le
  rwa [addresses,List.length_map] at fewer

/-! Changing the ends. -/

theorem linked_setPrev {heap after : Heap α} {before p behind a : Nat} {x : α} {rest : Run α}
    (linked : Linked heap before ((a,x) :: rest) behind) (distinct : (addresses ((a,x) :: rest)).Nodup)
    (changed : change heap a (fun cell => { cell with prev := p }) = some after) :
    Linked after p ((a,x) :: rest) behind := by
  obtain ⟨apart,_⟩ := List.nodup_cons.mp distinct
  refine ⟨?_,linked_frame (fun b member => ?_) linked.2⟩
  · rw [lookup_change changed,if_pos rfl,linked.1]
    rfl
  · have other : b ≠ a := fun same => apart (same ▸ member)
    rw [lookup_change changed,if_neg other]

theorem linked_setNext {heap after : Heap α} {before n behind : Nat} {run : Run α} (some : run ≠ [])
    (linked : Linked heap before run behind) (distinct : (addresses run).Nodup)
    (changed : change heap (last before run) (fun cell => { cell with next := n }) = .some after) :
    Linked after before run n := by
  induction run generalizing before with
  | nil => contradiction
  | cons node rest ih =>
    obtain ⟨a,x⟩ := node
    obtain ⟨apart,later⟩ := List.nodup_cons.mp distinct
    cases rest with
    | nil =>
      refine ⟨?_,trivial⟩
      simp only [last_cons,last_nil] at changed
      rw [lookup_change changed,if_pos rfl,linked.1]
      rfl
    | cons second rest =>
      refine ⟨?_,ih (by simp) linked.2 later changed⟩
      have other : a ≠ last a (second :: rest) := by
        intro same
        rcases last_mem a (second :: rest) with ⟨_,none⟩ | member
        · simp at none
        · exact apart (same ▸ member)
      rw [lookup_change changed,last_cons,if_neg other]
      exact linked.1

/-! Changing a content. -/

theorem linked_setContent {heap after : Heap α} {before behind a : Nat} {x : α} {xs ys : Run α}
    (linked : Linked heap before (xs ++ (a,x) :: ys) behind) (distinct : (addresses (xs ++ (a,x) :: ys)).Nodup) (y : α)
    (changed : change heap a (fun cell => { cell with content := y }) = some after) :
    Linked after before (xs ++ (a,y) :: ys) behind := by
  rw [addresses,List.map_append,List.map_cons] at distinct
  obtain ⟨_,right,apart⟩ := List.nodup_append.mp distinct
  obtain ⟨own,_⟩ := List.nodup_cons.mp right
  obtain ⟨front,held,back⟩ := (linked_append heap before xs ((a,x) :: ys) behind).mp linked
  have others (b : Nat) (other : b ≠ a) : after.lookup b = heap.lookup b := by
    rw [lookup_change changed,if_neg other]
  refine (linked_append after before xs ((a,y) :: ys) behind).mpr ⟨?_,?_,?_⟩
  · exact linked_frame (fun b member => others b (apart b member a List.mem_cons_self)) front
  · rw [lookup_change changed,if_pos rfl,held]
    rfl
  · exact linked_frame (fun b member => others b fun same => own (same ▸ member)) back

/-! The same for a run that may be empty: then there is no end to change. -/

def setNext (heap : Heap α) (a n : Nat) : Option (Heap α) :=
  if a = 0 then some heap else change heap a fun cell => { cell with next := n }

def setPrev (heap : Heap α) (a p : Nat) : Option (Heap α) :=
  if a = 0 then some heap else change heap a fun cell => { cell with prev := p }

theorem change_some {heap : Heap α} {before behind : Nat} {run : Run α} (linked : Linked heap before run behind) {a : Nat}
    (member : a ∈ addresses run) (f : Cell α → Cell α) : ∃ after, change heap a f = some after := by
  obtain ⟨⟨b,x⟩,inside,rfl⟩ := List.mem_map.mp member
  obtain ⟨prev,next,held⟩ := linked_lookup linked b x inside
  exact ⟨_,by rw [change,held]; rfl⟩

theorem change_frame {heap after : Heap α} {a : Nat} {f : Cell α → Cell α} (changed : change heap a f = some after)
    {run : Run α} (member : a ∈ addresses run) (b : Nat) (outside : b ∉ addresses run) :
    after.lookup b = heap.lookup b := by
  have other : b ≠ a := fun same => outside (same ▸ member)
  rw [lookup_change changed,if_neg other]

theorem setNext_linked {heap : Heap α} {run : Run α} {behind : Nat} (linked : Linked heap 0 run behind)
    (nonzero : 0 ∉ addresses run) (distinct : (addresses run).Nodup) (n : Nat) :
    ∃ after, setNext heap (last 0 run) n = some after ∧ Linked after 0 run n ∧
      ∀ b, b ∉ addresses run → after.lookup b = heap.lookup b := by
  rcases last_mem 0 run with ⟨zero,rfl⟩ | member
  · exact ⟨heap,by rw [setNext,if_pos zero],trivial,fun _ _ => rfl⟩
  · have some : run ≠ [] := by
      rintro rfl
      contradiction
    have held : last 0 run ≠ 0 := fun zero => nonzero (zero ▸ member)
    obtain ⟨after,changed⟩ := change_some linked member fun cell => { cell with next := n }
    exact ⟨after,by rw [setNext,if_neg held,changed],linked_setNext some linked distinct changed,
      change_frame changed member⟩

theorem setPrev_linked {heap : Heap α} {run : Run α} {before : Nat} (linked : Linked heap before run 0)
    (nonzero : 0 ∉ addresses run) (distinct : (addresses run).Nodup) (p : Nat) :
    ∃ after, setPrev heap (first 0 run) p = some after ∧ Linked after p run 0 ∧
      ∀ b, b ∉ addresses run → after.lookup b = heap.lookup b := by
  cases run with
  | nil => exact ⟨heap,rfl,trivial,fun _ _ => rfl⟩
  | cons node rest =>
    obtain ⟨a,x⟩ := node
    have member : a ∈ addresses ((a,x) :: rest) := List.mem_cons_self
    have held : a ≠ 0 := fun zero => nonzero (zero ▸ member)
    obtain ⟨after,changed⟩ := change_some linked member fun cell => { cell with prev := p }
    exact ⟨after,by rw [setPrev,first_cons,if_neg held,changed],linked_setPrev linked distinct changed,
      change_frame changed member⟩

/-! A cell more at the end, and one less. -/

def link (heap : Heap α) (end_ a : Nat) : Option (Heap α) := (setNext heap end_ a).bind fun heap => setPrev heap a end_

def unlink (heap : Heap α) (a : Nat) : Option (Heap α) :=
  (heap.lookup a).bind fun cell => (setNext heap cell.prev cell.next).bind fun heap => setPrev heap cell.next cell.prev

theorem link_linked {heap : Heap α} {run : Run α} (linked : Linked heap 0 run 0) (nonzero : 0 ∉ addresses run)
    (distinct : (addresses run).Nodup) {a : Nat} {x : α} (new : a ∉ addresses run) (proper : a ≠ 0)
    (alone : heap.lookup a = some ⟨x,0,0⟩) :
    ∃ after, link heap (last 0 run) a = some after ∧ Linked after 0 (run ++ [(a,x)]) 0 ∧
      ∀ b, b ∉ addresses (run ++ [(a,x)]) → after.lookup b = heap.lookup b := by
  obtain ⟨middle,changed,long,frame⟩ := setNext_linked linked nonzero distinct a
  have single : Linked middle 0 [(a,x)] 0 := ⟨(frame a new).trans alone,trivial⟩
  obtain ⟨after,again,cell,others⟩ :=
    setPrev_linked single (by simpa [addresses] using Ne.symm proper) (by simp [addresses]) (last 0 run)
  refine ⟨after,by rw [link,changed]; exact again,?_,fun b outside => ?_⟩
  · rw [linked_append]
    refine ⟨linked_frame (fun b member => others b ?_) long,cell⟩
    have apart : b ≠ a := fun same => new (same ▸ member)
    simpa [addresses] using apart
  · simp only [addresses,List.map_append,List.mem_append,not_or] at outside
    rw [others b outside.2,frame b outside.1]

theorem unlink_linked {heap : Heap α} {xs ys : Run α} {a : Nat} {x : α} (linked : Linked heap 0 (xs ++ (a,x) :: ys) 0)
    (nonzero : 0 ∉ addresses (xs ++ (a,x) :: ys)) (distinct : (addresses (xs ++ (a,x) :: ys)).Nodup) :
    ∃ after, unlink heap a = some after ∧ Linked (after.erase a) 0 (xs ++ ys) 0 ∧
      ∀ b, b ∉ addresses (xs ++ (a,x) :: ys) → (after.erase a).lookup b = heap.lookup b := by
  simp only [addresses,List.map_append,List.map_cons] at nonzero distinct
  obtain ⟨left,right,apart⟩ := List.nodup_append.mp distinct
  obtain ⟨own,right⟩ := List.nodup_cons.mp right
  simp only [List.mem_append,List.mem_cons,not_or] at nonzero
  obtain ⟨ahead,held,behind⟩ := (linked_append heap 0 xs ((a,x) :: ys) 0).mp linked
  obtain ⟨middle,changed,front,frame⟩ := setNext_linked ahead nonzero.1 left (first 0 ys)
  have rest : Linked middle a ys 0 := by
    refine linked_frame (fun b member => frame b fun other => ?_) behind
    exact apart b other b (List.mem_cons_of_mem a member) rfl
  obtain ⟨after,again,back,others⟩ := setPrev_linked rest nonzero.2.2 right (last 0 xs)
  have unlinked : unlink heap a = some after := by
    rw [unlink,held]
    show (setNext heap (last 0 xs) (first 0 ys)).bind _ = _
    rw [changed]
    exact again
  have erased (b : Nat) (other : b ≠ a) : (after.erase a).lookup b = after.lookup b := AList.lookup_erase_ne other
  refine ⟨after,unlinked,(linked_append _ 0 xs ys 0).mpr ⟨?_,?_⟩,fun b outside => ?_⟩
  · refine linked_frame (fun b member => ?_) front
    have other : b ≠ a := fun same => apart b member a List.mem_cons_self same
    rw [erased b other,others b fun later => apart b member b (List.mem_cons_of_mem a later) rfl]
  · refine linked_frame (fun b member => ?_) back
    exact erased b fun same => own (same ▸ member)
  · simp only [addresses,List.map_append,List.map_cons,List.mem_append,List.mem_cons,not_or] at outside
    rw [erased b outside.2.1,others b outside.2.2,frame b outside.1]

/-! The ends, when a cell is taken out. -/

theorem first_unlinked {xs ys : Run α} {a : Nat} {x : α} (distinct : (addresses (xs ++ (a,x) :: ys)).Nodup) :
    (if a = first 0 (xs ++ (a,x) :: ys) then first 0 ys else first 0 (xs ++ (a,x) :: ys)) = first 0 (xs ++ ys) := by
  cases xs with
  | nil => simp
  | cons node xs =>
    have apart : a ≠ node.1 := by
      rintro rfl
      simp [addresses] at distinct
    simp [apart]

theorem last_unlinked {xs ys : Run α} {a : Nat} {x : α} (distinct : (addresses (xs ++ (a,x) :: ys)).Nodup) :
    (if a = last 0 (xs ++ (a,x) :: ys) then last 0 xs else last 0 (xs ++ (a,x) :: ys)) = last 0 (xs ++ ys) := by
  rw [last_append,last_append,last_cons]
  cases ys with
  | nil => simp
  | cons node ys =>
    have apart : a ≠ last node.1 ys := by
      intro same
      simp only [addresses,List.map_append,List.map_cons] at distinct
      have own := (List.nodup_cons.mp (List.nodup_append.mp distinct).2.1).1
      rcases last_mem node.1 ys with ⟨one,_⟩ | member
      · exact own (by simp [same,one])
      · exact own (List.mem_cons_of_mem _ (same ▸ member))
    simp [apart]

/-! Following the links. One who has passed more cells than there are comes round for
ever. -/

/-- The first cell, from an address on, with a content of the kind; zero for none. -/
def seek (heap : Heap α) (kind : α → Bool) : (steps : Nat) → Nat → Option Nat
  | 0, _ => none
  | steps + 1, a =>
    if a = 0 then some 0 else
    (heap.lookup a).bind fun cell => if kind cell.content then some a else seek heap kind steps cell.next

def count (heap : Heap α) : (steps : Nat) → Nat → Option Nat
  | 0, _ => none
  | steps + 1, a =>
    if a = 0 then some 0 else (heap.lookup a).bind fun cell => (count heap steps cell.next).map (· + 1)

theorem seek_linked {heap : Heap α} (kind : α → Bool) {before : Nat} {run : Run α} (linked : Linked heap before run 0)
    (nonzero : 0 ∉ addresses run) (steps : Nat) (enough : run.length < steps) :
    seek heap kind steps (first 0 run) = some (first 0 (run.dropWhile fun node => !kind node.2)) := by
  induction run generalizing before steps with
  | nil =>
    obtain ⟨steps,rfl⟩ := Nat.exists_eq_succ_of_ne_zero (Nat.ne_zero_of_lt enough)
    simp [seek]
  | cons node rest ih =>
    obtain ⟨a,x⟩ := node
    obtain ⟨steps,rfl⟩ := Nat.exists_eq_succ_of_ne_zero (Nat.ne_zero_of_lt enough)
    simp only [addresses,List.map_cons,List.mem_cons,not_or] at nonzero
    simp only [List.length_cons,Nat.succ_lt_succ_iff] at enough
    have later := ih linked.2 nonzero.2 steps enough
    rw [seek,first_cons,if_neg (Ne.symm nonzero.1),linked.1]
    by_cases found : kind x
    · simp [found]
    · simpa [found] using later

theorem count_linked {heap : Heap α} {before : Nat} {run : Run α} (linked : Linked heap before run 0)
    (nonzero : 0 ∉ addresses run) (steps : Nat) (enough : run.length < steps) :
    count heap steps (first 0 run) = some run.length := by
  induction run generalizing before steps with
  | nil =>
    obtain ⟨steps,rfl⟩ := Nat.exists_eq_succ_of_ne_zero (Nat.ne_zero_of_lt enough)
    simp [count]
  | cons node rest ih =>
    obtain ⟨a,x⟩ := node
    obtain ⟨steps,rfl⟩ := Nat.exists_eq_succ_of_ne_zero (Nat.ne_zero_of_lt enough)
    simp only [addresses,List.map_cons,List.mem_cons,not_or] at nonzero
    simp only [List.length_cons,Nat.succ_lt_succ_iff] at enough
    have later := ih linked.2 nonzero.2 steps enough
    rw [count,first_cons,if_neg (Ne.symm nonzero.1),linked.1]
    simpa using later

end Mybmm.Links
