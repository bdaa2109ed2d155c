import Mathlib.Logic.Function.Basic
import Mybmm.Support.Links

/-! list.c. What an item points to is not kept, nor whether it was freed, which is left to
the callers; the null pointer is zero. A call comes with what `malloc` returns in its course,
zero when there is no memory, and a pointer that leads nowhere leaves it without meaning. -/
namespace Mybmm.Lists
open Links Run

structure Content where
  item : Nat
  size : Int
deriving DecidableEq

structure Head where
  first : Nat
  last : Nat
  next : Nat
deriving DecidableEq

structure Store where
  heap : Heap Content
  heads : AList fun _ : Nat => Head

def empty : Store := ⟨∅,∅⟩

/-- `_newitem`; `copy` is where the item is copied to. -/
def newitem (heap : Heap Content) (item : Nat) (size : Int) (address copy : Nat) : Option (Nat × Heap Content) :=
  if address = 0 then some (0,heap)
  else if address ∈ heap then none
  else if size ≠ 0 ∧ copy = 0 then some (0,heap)
  else some (address,heap.insert address ⟨⟨if size = 0 then item else copy,size⟩,0,0⟩)

def listAdd (s : Store) (lp item : Nat) (size : Int) (address copy : Nat) : Option (Nat × Store) := do
  if lp = 0 then return (0,s)
  let (ip,heap) ← newitem s.heap item size address copy
  if ip = 0 then return (0,{ s with heap := heap })
  let head ← s.heads.lookup lp
  if head.first = 0 then
    let heads := s.heads.insert lp ⟨ip,ip,ip⟩
    return (← (heap.lookup ip).map fun cell => cell.content.item,⟨heap,heads⟩)
  else
    let heap ← change heap head.last fun cell => { cell with next := ip }
    let heap ← change heap ip fun cell => { cell with prev := head.last }
    let heads := s.heads.insert lp { head with last := ip }
    return (← (heap.lookup ip).map fun cell => cell.content.item,⟨heap,heads⟩)

/-- One step more than there are items. -/
def steps (s : Store) : Nat := s.heap.keys.length + 1

def listCount (s : Store) (lp : Nat) : Option Int :=
  if lp = 0 then some (-1) else
  (s.heads.lookup lp).bind fun head => (count s.heap (steps s) head.first).map Nat.cast

def listCreate (s : Store) (address : Nat) : Option (Nat × Store) :=
  if address = 0 then some (0,s)
  else if address ∈ s.heads then none
  else some (address,{ s with heads := s.heads.insert address ⟨0,0,0⟩ })

def listDelete (s : Store) (lp item : Nat) : Option (Int × Store) := do
  if lp = 0 then return (-1,s)
  let head ← s.heads.lookup lp
  let ip ← seek s.heap (fun content => content.item = item) (steps s) head.first
  if ip = 0 then return (1,s)
  let ⟨_,prev,next⟩ ← s.heap.lookup ip
  let heap ← setNext s.heap prev next
  let heap ← setPrev heap next prev
  let head := { head with first := if ip = head.first then next else head.first }
  let head := { head with last := if ip = head.last then prev else head.last }
  let head := { head with next := if ip = head.next then next else head.next }
  return (0,⟨heap.erase ip,s.heads.insert lp head⟩)

def listGetNext (s : Store) (lp : Nat) : Option (Nat × Store) := do
  if lp = 0 then return (0,s)
  let head ← s.heads.lookup lp
  if head.next = 0 then return (0,s)
  let ip ← s.heap.lookup head.next
  return (ip.content.item,{ s with heads := s.heads.insert lp { head with next := ip.next } })

def listReset (s : Store) (lp : Nat) : Option (Int × Store) := do
  if lp = 0 then return (-1,s)
  let head ← s.heads.lookup lp
  return (0,{ s with heads := s.heads.insert lp { head with next := head.first } })

/-! What a list is for: items in a row, some of them passed. -/

structure Listing where
  passed : Run Content
  ahead : Run Content

namespace Listing

def nodes (l : Listing) : Run Content := l.passed ++ l.ahead

def add (l : Listing) (node : Nat × Content) : Listing :=
  if l.nodes = [] then ⟨[],[node]⟩
  else if l.ahead = [] then ⟨l.passed ++ [node],[]⟩
  else ⟨l.passed,l.ahead ++ [node]⟩

def holds (item : Nat) (node : Nat × Content) : Bool := node.2.item = item

def delete (l : Listing) (item : Nat) : Listing :=
  if l.passed.any (holds item) then ⟨l.passed.eraseP (holds item),l.ahead⟩
  else ⟨l.passed,l.ahead.eraseP (holds item)⟩

def reset (l : Listing) : Listing := ⟨[],l.nodes⟩

def getNext (l : Listing) : Listing :=
  match l.ahead with
  | [] => l
  | node :: rest => ⟨l.passed ++ [node],rest⟩

theorem nodes_add (l : Listing) (node : Nat × Content) : (l.add node).nodes = l.nodes ++ [node] := by
  unfold add
  split
  · rename_i empty
    rw [empty]
    rfl
  · split
    · rename_i last
      simp [nodes,last]
    · simp [nodes]

theorem nodes_delete (l : Listing) (item : Nat) : (l.delete item).nodes = l.nodes.eraseP (holds item) := by
  unfold delete
  split
  · rename_i inside
    obtain ⟨node,member,held⟩ := List.any_eq_true.mp inside
    rw [nodes,nodes,List.eraseP_append_left held _ member]
  · rename_i outside
    rw [nodes,nodes,List.eraseP_append_right]
    intro node member held
    exact outside (List.any_eq_true.mpr ⟨node,member,held⟩)

private theorem nodes_reset (l : Listing) : l.reset.nodes = l.nodes := rfl

private theorem nodes_getNext (l : Listing) : l.getNext.nodes = l.nodes := by
  unfold getNext
  split
  · rfl
  · rename_i node rest ahead
    simp [nodes,ahead]

end Listing

/-- A head and the heap show a listing: one chain, linked both ways, its ends and the
first item ahead. -/
structure Shows (heap : Heap Content) (head : Head) (l : Listing) : Prop where
  linked : Linked heap 0 l.nodes 0
  nonzero : 0 ∉ addresses l.nodes
  distinct : (addresses l.nodes).Nodup
  first : head.first = first 0 l.nodes
  last : head.last = last 0 l.nodes
  next : head.next = Run.first 0 l.ahead

structure Represents (s : Store) (listings : Nat → Listing) : Prop where
  shows : ∀ lp head, s.heads.lookup lp = some head → Shows s.heap head (listings lp)
  apart : ∀ lp lq, lp ∈ s.heads → lq ∈ s.heads → lp ≠ lq →
    ∀ a ∈ addresses (listings lp).nodes, a ∉ addresses (listings lq).nodes
  proper : 0 ∉ s.heads

/-- What a call does that concerns one list: it shows another listing, and all lists
are still there. -/
structure Turns (s : Store) (listings : Nat → Listing) (lp : Nat) (l : Listing) (after : Store) : Prop where
  represents : Represents after (Function.update listings lp l)
  live : ∀ lq, lq ∈ s.heads → lq ∈ after.heads

/-! What each call does to the list it is for. -/

section Calls

variable {s : Store} {listings : Nat → Listing} {lp : Nat} {head : Head}

private theorem shows_keys {heap : Heap Content} {l : Listing} (shows : Shows heap head l) (a : Nat)
    (member : a ∈ addresses l.nodes) : a ∈ heap := AList.mem_keys.mpr (linked_keys shows.linked member)

private theorem turns_put (represents : Represents s listings) (proper : lp ≠ 0) {heap : Heap Content} {after : Head}
    {l : Listing} (shows : Shows heap after l)
    (frame : ∀ lq other, lq ≠ lp → s.heads.lookup lq = some other →
      ∀ b ∈ addresses (listings lq).nodes, heap.lookup b = s.heap.lookup b ∧ b ∉ addresses l.nodes) :
    Turns s listings lp l ⟨heap,s.heads.insert lp after⟩ := by
  refine ⟨?_,fun lq live => (AList.mem_insert _).mpr (Or.inr live)⟩
  have others (lq : Nat) (apart : lq ≠ lp) (member : lq ∈ s.heads.insert lp after) :
      lq ∈ s.heads ∧ ∃ head, s.heads.lookup lq = some head := by
    have old := ((AList.mem_insert _).mp member).resolve_left apart
    exact ⟨old,Option.isSome_iff_exists.mp (AList.lookup_isSome.mpr old)⟩
  constructor
  · intro lq other found
    by_cases same : lq = lp
    · subst same
      rw [AList.lookup_insert] at found
      obtain rfl := Option.some.inj found
      simpa using shows
    · rw [AList.lookup_insert_ne same] at found
      rw [Function.update_of_ne same]
      have before := represents.shows lq other found
      exact { before with linked := linked_frame (fun a member => (frame lq other same found a member).1) before.linked }
  · intro lq lr first second differ a member
    by_cases left : lq = lp
    · subst left
      have right : lr ≠ lq := Ne.symm differ
      obtain ⟨_,r,found⟩ := others lr right second
      rw [Function.update_self] at member
      rw [Function.update_of_ne right]
      exact fun also => (frame lr r right found a also).2 member
    · obtain ⟨old,q,found⟩ := others lq left first
      rw [Function.update_of_ne left] at member
      by_cases right : lr = lp
      · subst right
        rw [Function.update_self]
        exact (frame lq q left found a member).2
      · rw [Function.update_of_ne right]
        exact represents.apart lq lr old (others lr right second).1 differ a member
  · intro zero
    exact represents.proper (others 0 (Ne.symm proper) zero).1

theorem proper_of_held (represents : Represents s listings) (held : s.heads.lookup lp = some head) : lp ≠ 0 :=
  fun zero => represents.proper (zero ▸ AList.lookup_isSome.mp (by rw [held]; rfl))

/-- What happens to the cells of a list, and to cells that are new, does not touch the other lists. -/
theorem turns_insert (represents : Represents s listings) (held : s.heads.lookup lp = some head)
    {heap : Heap Content} {after : Head} {l : Listing} (shows : Shows heap after l)
    (frame : ∀ b, b ∉ addresses (listings lp).nodes → b ∈ s.heap → heap.lookup b = s.heap.lookup b)
    (within : ∀ a ∈ addresses l.nodes, a ∈ addresses (listings lp).nodes ∨ a ∉ s.heap) :
    Turns s listings lp l ⟨heap,s.heads.insert lp after⟩ := by
  have live {lq : Nat} {other : Head} (found : s.heads.lookup lq = some other) : lq ∈ s.heads :=
    AList.lookup_isSome.mp (by rw [found]; rfl)
  refine turns_put represents (proper_of_held represents held) shows fun lq other differ found b member => ?_
  have kept : b ∈ s.heap := shows_keys (represents.shows lq other found) b member
  have outside := represents.apart lq lp (live found) (live held) differ b member
  exact ⟨frame b outside kept,fun also => (within b also).elim outside fun new => new kept⟩

private theorem turns_move (represents : Represents s listings) (held : s.heads.lookup lp = some head) {l : Listing}
    (nodes : l.nodes = (listings lp).nodes) :
    Turns s listings lp l ⟨s.heap,s.heads.insert lp { head with next := first 0 l.ahead }⟩ := by
  have shows := represents.shows lp head held
  refine turns_insert represents held ?_ (fun _ _ _ => rfl) ?_
  · exact
      { linked := nodes ▸ shows.linked
        nonzero := nodes ▸ shows.nonzero
        distinct := nodes ▸ shows.distinct
        first := nodes ▸ shows.first
        last := nodes ▸ shows.last
        next := rfl }
  · rw [nodes]
    exact fun a member => Or.inl member

theorem listReset_spec (represents : Represents s listings) (held : s.heads.lookup lp = some head) :
    ∃ after, listReset s lp = some (0,after) ∧
      Turns s listings lp (listings lp).reset after := by
  have moved := turns_move represents held (Listing.nodes_reset (listings lp))
  have proper := proper_of_held represents held
  rw [Listing.reset,← (represents.shows lp head held).first] at moved
  exact ⟨_,by simp only [listReset,if_neg proper,held]; rfl,moved⟩

theorem listGetNext_spec (represents : Represents s listings) (held : s.heads.lookup lp = some head) :
    ∃ after, listGetNext s lp = some (((listings lp).ahead.head?.map fun node => node.2.item).getD 0,after) ∧
      Turns s listings lp (listings lp).getNext after := by
  have shows := represents.shows lp head held
  have proper := proper_of_held represents held
  have next := shows.next
  cases ahead : (listings lp).ahead with
  | nil =>
    have last : head.next = 0 := by rw [next,ahead]; rfl
    refine ⟨s,by simp [listGetNext,proper,held,last],?_⟩
    have same : (listings lp).getNext = listings lp := by simp [Listing.getNext,ahead]
    refine ⟨?_,fun _ live => live⟩
    rw [same,Function.update_eq_self]
    exact represents
  | cons node rest =>
    obtain ⟨a,x⟩ := node
    have here : head.next = a := by rw [next,ahead]; rfl
    have nonzero : head.next ≠ 0 := by
      rw [here]
      rintro rfl
      exact shows.nonzero (by simp [Listing.nodes,ahead,addresses])
    have linked := shows.linked
    rw [Listing.nodes,ahead,linked_append] at linked
    have cell := linked.2.1
    rw [← here] at cell
    have moved := turns_move represents held (Listing.nodes_getNext (listings lp))
    have rests : (listings lp).getNext.ahead = rest := by simp [Listing.getNext,ahead]
    rw [rests] at moved
    exact ⟨_,by simp [listGetNext,proper,held,nonzero,cell],moved⟩

theorem listCount_spec (represents : Represents s listings) (held : s.heads.lookup lp = some head) :
    listCount s lp = some ((listings lp).nodes.length : Int) := by
  have shows := represents.shows lp head held
  have proper := proper_of_held represents held
  have enough : (listings lp).nodes.length < steps s :=
    Nat.lt_succ_of_le (linked_length shows.linked shows.distinct)
  have counted := count_linked shows.linked shows.nonzero (steps s) enough
  rw [← shows.first] at counted
  simp [listCount,proper,held,counted]

theorem split_holds (nodes : Run Content) (item : Nat) :
    (∀ node ∈ nodes, Listing.holds item node = false) ∧ nodes.dropWhile (fun node => !Listing.holds item node) = [] ∨
      ∃ xs a x ys, nodes = xs ++ (a,x) :: ys ∧ (∀ node ∈ xs, Listing.holds item node = false) ∧
        Listing.holds item (a,x) = true ∧ nodes.dropWhile (fun node => !Listing.holds item node) = (a,x) :: ys := by
  induction nodes with
  | nil => exact Or.inl ⟨by simp,rfl⟩
  | cons node rest ih =>
    by_cases held : Listing.holds item node
    · exact Or.inr ⟨[],node.1,node.2,rest,rfl,by simp,held,by simp [held]⟩
    · rcases ih with ⟨without,dropped⟩ | ⟨xs,a,x,ys,split,without,found,dropped⟩
      · exact Or.inl ⟨by simpa [held] using without,by simpa [held] using dropped⟩
      · refine Or.inr ⟨node :: xs,a,x,ys,by rw [split]; rfl,?_,found,by simpa [held] using dropped⟩
        simpa [held] using without

/-- The first node that holds an item has been passed, or it lies ahead. -/
theorem holder_cases {l : Listing} {item : Nat} {xs ys : Run Content} {a : Nat} {x : Content}
    (split : l.nodes = xs ++ (a,x) :: ys) (without : ∀ node ∈ xs, Listing.holds item node = false)
    (held : Listing.holds item (a,x) = true) :
    (∃ cs, l.passed = xs ++ (a,x) :: cs ∧ l.delete item = ⟨xs ++ cs,l.ahead⟩) ∨
      ∃ bs, l.ahead = bs ++ (a,x) :: ys ∧ l.delete item = ⟨l.passed,bs ++ ys⟩ := by
  have unpassed (bs : Run Content) (passed : xs = l.passed ++ bs) (ahead : l.ahead = bs ++ (a,x) :: ys) :
      l.delete item = ⟨l.passed,bs ++ ys⟩ := by
    have none : l.passed.any (Listing.holds item) = false := by
      simpa [passed] using fun b y member => without (b,y) (by simp [passed,member])
    have erased : l.ahead.eraseP (Listing.holds item) = bs ++ ys := by
      rw [ahead,List.eraseP_append_right _ (by simpa using fun b y member => without (b,y) (by simp [passed,member]))]
      simp [held]
    rw [Listing.delete,none,erased]
    rfl
  rcases List.append_eq_append_iff.mp split with ⟨bs,passed,ahead⟩ | ⟨cs,passed,rest⟩
  · exact Or.inr ⟨bs,ahead,unpassed bs passed ahead⟩
  · cases cs with
    | nil =>
      have ahead : l.ahead = [] ++ (a,x) :: ys := by simpa using rest.symm
      exact Or.inr ⟨[],ahead,unpassed [] (by simpa using passed.symm) ahead⟩
    | cons node cs =>
      obtain ⟨rfl,_⟩ := List.cons.inj rest
      have inside : l.passed.any (Listing.holds item) = true :=
        List.any_eq_true.mpr ⟨(a,x),by simp [passed],held⟩
      have erased : l.passed.eraseP (Listing.holds item) = xs ++ cs := by
        rw [passed,List.eraseP_append_right _ (by simpa using without)]
        simp [held]
      refine Or.inl ⟨cs,passed,?_⟩
      rw [Listing.delete,inside,erased]
      rfl

/-- The cursor of what is left, when a node is taken out. -/
private theorem delete_ahead {l : Listing} {item : Nat} (distinct : (addresses l.nodes).Nodup) {xs ys : Run Content}
    {a : Nat}
    {x : Content} (split : l.nodes = xs ++ (a,x) :: ys) (nonzero : a ≠ 0)
    (without : ∀ node ∈ xs, Listing.holds item node = false) (held : Listing.holds item (a,x) = true) :
    (if a = first 0 l.ahead then first 0 ys else first 0 l.ahead) = first 0 (l.delete item).ahead := by
  rw [Listing.nodes,addresses,List.map_append] at distinct
  obtain ⟨_,part,disjoint⟩ := List.nodup_append.mp distinct
  rcases holder_cases split without held with ⟨cs,passed,deleted⟩ | ⟨bs,ahead,deleted⟩
  · have apart : a ≠ first 0 l.ahead := by
      intro same
      rcases first_mem 0 l.ahead with ⟨zero,_⟩ | member
      · exact nonzero (same.trans zero)
      · exact disjoint a (by simp [passed]) a (same ▸ member) rfl
    rw [deleted,if_neg apart]
  · rw [ahead] at part
    rw [deleted,ahead,first_unlinked part]

/-- Looking for an item ends at the first node that holds it. -/
theorem seek_first (represents : Represents s listings) (held : s.heads.lookup lp = some head) (item : Nat) :
    seek s.heap (fun content => content.item = item) (steps s) head.first =
      some (first 0 ((listings lp).nodes.dropWhile fun node => !Listing.holds item node)) := by
  have shows := represents.shows lp head held
  have enough : (listings lp).nodes.length < steps s :=
    Nat.lt_succ_of_le (linked_length shows.linked shows.distinct)
  rw [shows.first]
  exact seek_linked _ shows.linked shows.nonzero (steps s) enough

theorem listDelete_spec (represents : Represents s listings) (held : s.heads.lookup lp = some head) (item : Nat) :
    (∀ node ∈ (listings lp).nodes, node.2.item ≠ item) ∧ listDelete s lp item = some (1,s) ∨
      (∃ node ∈ (listings lp).nodes, node.2.item = item) ∧ ∃ after, listDelete s lp item = some (0,after) ∧
        Turns s listings lp ((listings lp).delete item) after := by
  have shows := represents.shows lp head held
  have proper := proper_of_held represents held
  have sought := seek_first represents held item
  rcases split_holds (listings lp).nodes item with ⟨without,dropped⟩ | ⟨xs,a,x,ys,split,without,found,dropped⟩
  · left
    have gone : seek s.heap (fun content => content.item = item) (steps s) head.first = some 0 := by
      rw [sought,dropped]
      rfl
    exact ⟨fun node member => by simpa [Listing.holds] using without node member,by simp [listDelete,proper,held,gone]⟩
  · right
    have here : seek s.heap (fun content => content.item = item) (steps s) head.first = some a := by
      rw [sought,dropped]
      rfl
    have inside : (a,x) ∈ (listings lp).nodes := by rw [split]; simp
    refine ⟨⟨(a,x),inside,by simpa [Listing.holds] using found⟩,?_⟩
    have nonzero : a ≠ 0 := by
      rintro rfl
      exact shows.nonzero (List.mem_map_of_mem inside)
    have linked := split ▸ shows.linked
    have distinct := split ▸ shows.distinct
    obtain ⟨heap,unlinked,rest,frame⟩ := unlink_linked linked (split ▸ shows.nonzero) distinct
    have cell := ((linked_append _ 0 xs _ 0).mp linked).2.1
    rw [unlink,cell,Option.bind_some,Option.bind_eq_some_iff] at unlinked
    obtain ⟨middle,one,two⟩ := unlinked
    have nodes : ((listings lp).delete item).nodes = xs ++ ys := by
      rw [Listing.nodes_delete,split,List.eraseP_append_right _ (by simpa using without)]
      simp [found]
    let after : Head :=
      { first := if a = head.first then first 0 ys else head.first
        last := if a = head.last then last 0 xs else head.last
        next := if a = head.next then first 0 ys else head.next }
    have deleted : listDelete s lp item = some (0,⟨heap.erase a,s.heads.insert lp after⟩) := by
      simp [listDelete,proper,held,here,nonzero,cell,one,two,after]
    have fewer : (addresses (xs ++ ys)).Sublist (addresses (listings lp).nodes) := by
      rw [split]
      exact List.Sublist.map _ (List.Sublist.append_left (List.sublist_cons_self _ _) xs)
    have shown : Shows (heap.erase a) after ((listings lp).delete item) :=
      { linked := nodes ▸ rest
        nonzero := fun zero => shows.nonzero (fewer.subset (nodes ▸ zero))
        distinct := nodes ▸ fewer.nodup shows.distinct
        first := by rw [nodes,← first_unlinked distinct,← split,← shows.first]
        last := by rw [nodes,← last_unlinked distinct,← split,← shows.last]
        next := by rw [← delete_ahead shows.distinct split nonzero without found,← shows.next] }
    refine ⟨_,deleted,turns_insert represents held shown (fun b outside _ => frame b (split ▸ outside)) ?_⟩
    rw [nodes]
    exact fun b member => Or.inl (fewer.subset member)

theorem listCreate_spec (represents : Represents s listings) (address : Nat) (proper : address ≠ 0)
    (new : address ∉ s.heads) : ∃ after, listCreate s address = some (address,after) ∧
      Turns s listings address ⟨[],[]⟩ after := by
  refine ⟨_,by rw [listCreate,if_neg proper,if_neg new],?_⟩
  refine turns_put represents proper ⟨trivial,by simp [Listing.nodes,addresses],List.nodup_nil,rfl,rfl,rfl⟩ ?_
  exact fun _ _ _ _ b _ => ⟨rfl,by simp [Listing.nodes,addresses]⟩

/-- The item that a list keeps of what it is given: the pointer, or a copy. -/
def keeps (item : Nat) (size : Int) (copy : Nat) : Content := ⟨if size = 0 then item else copy,size⟩

theorem listAdd_spec (represents : Represents s listings) (held : s.heads.lookup lp = some head) (item : Nat) (size : Int)
    (address copy : Nat) (proper : address ≠ 0) (new : address ∉ s.heap) (copied : size ≠ 0 → copy ≠ 0) :
    ∃ after, listAdd s lp item size address copy = some ((keeps item size copy).item,after) ∧
      Turns s listings lp ((listings lp).add (address,keeps item size copy)) after := by
  have shows := represents.shows lp head held
  have lively := proper_of_held represents held
  let x := keeps item size copy
  let grown : Heap Content := s.heap.insert address ⟨x,0,0⟩
  have made : newitem s.heap item size address copy = some (address,grown) := by
    have enough : ¬ (size ≠ 0 ∧ copy = 0) := fun both => copied both.1 both.2
    rw [newitem,if_neg proper,if_neg new,if_neg enough]
    rfl
  have alone : grown.lookup address = some ⟨x,0,0⟩ := AList.lookup_insert _
  have apart : address ∉ addresses (listings lp).nodes := fun member => new (shows_keys shows address member)
  have elsewhere (b : Nat) (other : b ≠ address) : grown.lookup b = s.heap.lookup b := AList.lookup_insert_ne other
  have within (a : Nat) (member : a ∈ addresses ((listings lp).add (address,x)).nodes) :
      a ∈ addresses (listings lp).nodes ∨ a ∉ s.heap := by
    rw [Listing.nodes_add,addresses,List.map_append,List.mem_append] at member
    refine member.imp id fun last => ?_
    obtain rfl : a = address := by simpa using last
    exact new
  by_cases none : (listings lp).nodes = []
  · have first : head.first = 0 := by rw [shows.first,none]; rfl
    have added : (listings lp).add (address,x) = ⟨[],[(address,x)]⟩ := by rw [Listing.add,if_pos none]
    refine ⟨⟨grown,s.heads.insert lp ⟨address,address,address⟩⟩,?_,?_⟩
    · simp [listAdd,lively,made,proper,held,first,alone,x]
    · refine turns_insert represents held ?_ (fun b _ kept => elsewhere b fun same => new (same ▸ kept)) within
      rw [added]
      exact ⟨⟨alone,trivial⟩,by simpa [Listing.nodes,addresses] using Ne.symm proper,by simp [Listing.nodes,addresses],
        rfl,rfl,rfl⟩
  · have nonzero {a : Nat} (member : a ∈ addresses (listings lp).nodes) : a ≠ 0 :=
      fun zero => shows.nonzero (zero ▸ member)
    have first : head.first ≠ 0 := by
      rw [shows.first]
      exact nonzero ((first_mem 0 _).resolve_left fun empty => none empty.2)
    have last : head.last ≠ 0 := by
      rw [shows.last]
      exact nonzero ((last_mem 0 _).resolve_left fun empty => none empty.2)
    have linked : Linked grown 0 (listings lp).nodes 0 :=
      linked_frame (fun a member => elsewhere a fun same => apart (same ▸ member)) shows.linked
    obtain ⟨heap,joined,longer,frame⟩ := link_linked linked shows.nonzero shows.distinct apart proper alone
    obtain ⟨prev,next,cell⟩ := linked_lookup longer address x (by simp)
    rw [link,← shows.last,setNext,if_neg last,Option.bind_eq_some_iff] at joined
    obtain ⟨middle,one,two⟩ := joined
    rw [setPrev,if_neg proper] at two
    refine ⟨⟨heap,s.heads.insert lp { head with last := address }⟩,?_,turns_insert represents held ?_ ?_ within⟩
    · simp [listAdd,lively,made,proper,held,first,one,two,cell,x]
    · have nodes := Listing.nodes_add (listings lp) (address,x)
      refine
        { linked := nodes ▸ longer
          nonzero := ?_
          distinct := ?_
          first := ?_
          last := by rw [nodes,last_append]; rfl
          next := ?_ }
      · rw [nodes,addresses,List.map_append,List.mem_append,not_or]
        exact ⟨shows.nonzero,by simpa using Ne.symm proper⟩
      · rw [nodes,addresses,List.map_append,List.nodup_append]
        refine ⟨shows.distinct,by simp,fun a member b single same => apart ?_⟩
        obtain rfl : b = address := by simpa using single
        exact same ▸ member
      · rw [nodes,first_append,shows.first]
        cases run : (listings lp).nodes with
        | nil => exact absurd run none
        | cons node rest => rfl
      · rw [Listing.add,if_neg none,shows.next]
        cases run : (listings lp).ahead with
        | nil => rfl
        | cons node rest => rfl
    · intro b outside kept
      have other : b ≠ address := fun same => new (same ▸ kept)
      rw [frame b ?_,elsewhere b other]
      rw [addresses,List.map_append,List.mem_append,not_or]
      exact ⟨outside,by simpa using other⟩

end Calls

end Mybmm.Lists
