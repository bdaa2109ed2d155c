import Mathlib.Data.List.TakeWhile
import Mybmm.Support.Exchange
import Mybmm.Support.Libc
import Mybmm.ListRuns

/-! `list_sort` of list.c. A comparison is told two items with their sizes, and has no
meaning for items it is not made for. -/
namespace Mybmm.ListSort
open CString Libc Links Run Exchange Machine Mybmm.Lists

abbrev Comparison := Content → Content → Option Int

/-- `_compare`; `memory` is the text an item points to. -/
def compare (memory : Nat → Option Text) : Comparison := fun item1 item2 => do
  let val := strcmp (← memory item1.item) (← memory item2.item)
  return if val < 0 then -1 else if val > 0 then 1 else val

/-- The inner loop: the first cell from `ip2` on that the item of `ip1` compares with as
`comp`, zero for none. -/
def search (compare : Comparison) (comp : Int) (heap : Heap Content) (one : Content) : (steps : Nat) → Nat → Option Nat
  | 0, _ => none
  | steps + 1, ip2 => do
    if ip2 = 0 then return 0
    let cell ← heap.lookup ip2
    if (← compare one cell.content) = comp then return ip2
    search compare comp heap one steps cell.next

/-- The cells stay where they are, the items change places. -/
def swap (heap : Heap Content) (ip1 ip2 : Nat) : Option (Heap Content) := do
  let one ← heap.lookup ip1
  let two ← heap.lookup ip2
  let heap ← change heap ip1 fun cell => { cell with content := two.content }
  change heap ip2 fun cell => { cell with content := one.content }

/-- The outer loop, for as many turns as it may take. -/
def sort (compare : Comparison) (comp : Int) : (turns : Nat) → Heap Content → Nat → Option (Heap Content)
  | 0, _, _ => none
  | turns + 1, heap, ip1 => do
    if ip1 = 0 then return heap
    let cell ← heap.lookup ip1
    let ip2 ← search compare comp heap cell.content (heap.keys.length + 1) cell.next
    if ip2 = 0 then sort compare comp turns heap cell.next
    else sort compare comp turns (← swap heap ip1 ip2) ip1

def comp (order : Int) : Int := if order = 0 then 1 else -1

def listSort (memory : Nat → Option Text) (s : Store) (lp : Nat) (given : Option Comparison) (order : Int)
    (turns : Nat) : Option (Int × Store) := do
  if lp = 0 then return (-1,s)
  let head ← s.heads.lookup lp
  let heap ← sort (given.getD (compare memory)) (comp order) turns s.heap head.first
  return (0,{ s with heap := heap })

/-! What a comparison is to be, and what sorting leaves. -/

/-- A total preorder of the items, told by minus one, zero and one. -/
structure Orders (compare : Comparison) (items : List Content) : Prop where
  values : ∀ a ∈ items, ∀ b ∈ items, ∃ val, compare a b = some val ∧ compare b a = some (-val) ∧
    (val = -1 ∨ val = 0 ∨ val = 1)
  trans : ∀ a ∈ items, ∀ b ∈ items, ∀ c ∈ items, ∀ first second third, compare a b = some first →
    compare b c = some second → compare a c = some third → first ≤ 0 → second ≤ 0 → third ≤ 0

/-- The comparison given orders the items; without one they are texts. -/
def Comparable (memory : Nat → Option Text) (items : List Content) : Option Comparison → Prop
  | some compare => Orders compare items
  | none => ∀ a ∈ items, ∃ text, memory a.item = some text

def contents (l : Listing) : List Content := l.nodes.map Prod.snd

def InOrder (compare : Comparison) (order : Int) (items : List Content) : Prop :=
  items.Pairwise fun a b => ∃ val, compare a b = some val ∧ if order = 0 then val ≤ 0 else 0 ≤ val

def links (heap : Heap Content) (a : Nat) : Option (Nat × Nat) := (heap.lookup a).map fun cell => (cell.prev,cell.next)

/-- Of two stores: the cells of a list have the same contents in another order, and
nothing else differs. -/
structure Sorted (compare : Comparison) (order : Int) (s after : Store) (l sorted : Listing) : Prop where
  perm : (contents sorted).Perm (contents l)
  ordered : InOrder compare order (contents sorted)
  passed : addresses sorted.passed = addresses l.passed
  ahead : addresses sorted.ahead = addresses l.ahead
  heads : after.heads = s.heads
  links : ∀ a, links after.heap a = links s.heap a
  elsewhere : ∀ a, a ∉ addresses l.nodes → after.heap.lookup a = s.heap.lookup a

/-! Texts are ordered as `strcmp` has it. -/

private theorem compare_texts {memory : Nat → Option Text} {a b : Content} {s t : Text} (first : memory a.item = some s)
    (second : memory b.item = some t) : compare memory a b = some (strcmp s t) := by
  simp only [compare,first,second,Option.bind_eq_bind,Option.bind_some]
  rcases strcmp_values s t with less | same | more
  · simp [less]
  · simp [same]
  · simp [more]

private theorem compare_orders {memory : Nat → Option Text} {items : List Content}
    (texts : ∀ a ∈ items, ∃ text, memory a.item = some text) : Orders (compare memory) items where
  values := by
    intro a left b right
    obtain ⟨s,first⟩ := texts a left
    obtain ⟨t,second⟩ := texts b right
    refine ⟨strcmp s t,compare_texts first second,?_,strcmp_values s t⟩
    rw [compare_texts second first,strcmp_neg s t]
  trans := by
    intro a left b middle c right first second third one two three
    obtain ⟨s,held⟩ := texts a left
    obtain ⟨t,held'⟩ := texts b middle
    obtain ⟨u,held''⟩ := texts c right
    rw [compare_texts held held'] at one
    rw [compare_texts held' held''] at two
    rw [compare_texts held held''] at three
    obtain rfl := Option.some.inj one
    obtain rfl := Option.some.inj two
    obtain rfl := Option.some.inj three
    exact strcmp_trans s t u

/-! Out of order, by a comparison. -/

def Wrong (compare : Comparison) (comp : Int) (a b : Content) : Prop := compare a b = some comp

instance (compare : Comparison) (comp : Int) : DecidableRel (Wrong compare comp) :=
  fun a b => inferInstanceAs (Decidable (compare a b = some comp))

private theorem comp_cases (order : Int) : comp order = 1 ∨ comp order = -1 := by
  rw [comp]
  split_ifs
  · exact Or.inl rfl
  · exact Or.inr rfl

private theorem wrong_strict {compare : Comparison} {items : List Content} (orders : Orders compare items) (order : Int) :
    Strict (Wrong compare (comp order)) items where
  asymm := by
    intro a left b right wrong back
    obtain ⟨val,there,turned,_⟩ := orders.values a left b right
    obtain rfl := Option.some.inj (there.symm.trans wrong)
    have same := Option.some.inj (turned.symm.trans back)
    rcases comp_cases order with one | minus <;> omega
  trans := by
    intro a left b middle c right wrong next
    obtain ⟨val,ab,ba,_⟩ := orders.values a left b middle
    obtain ⟨val',bc,cb,_⟩ := orders.values b middle c right
    obtain ⟨val'',ac,ca,signs⟩ := orders.values a left c right
    obtain rfl := Option.some.inj (ab.symm.trans wrong)
    obtain rfl := Option.some.inj (bc.symm.trans next)
    rw [Wrong,ac,Option.some.injEq]
    -- equal ends would put the middle one level with both
    rcases comp_cases order with one | minus
    · have down := orders.trans c right b middle a left _ _ _ cb ba ca
      have level := orders.trans b middle a left c right _ _ _ ba ac bc
      omega
    · have up := orders.trans a left b middle c right _ _ _ ab bc ac
      have level := orders.trans c right a left b middle _ _ _ ca ab cb
      omega

private theorem inOrder_of_sorts {compare : Comparison} {items sorted : List Content} {order : Int}
    (orders : Orders compare items)
    (perm : sorted.Perm items) (ordered : sorted.Pairwise fun a b => ¬ Wrong compare (comp order) a b) :
    InOrder compare order sorted := by
  refine List.Pairwise.imp_of_mem (fun {a b} left right fine => ?_) ordered
  obtain ⟨val,held,_,signs⟩ := orders.values a (perm.subset left) b (perm.subset right)
  refine ⟨val,held,?_⟩
  rw [Wrong,held,Option.some.injEq,comp] at fine
  split_ifs at fine ⊢ <;> omega

/-! The loops on linked cells. -/

private theorem first_addresses {behind : Nat} {run other : Run Content} (same : addresses run = addresses other) :
    first behind run = first behind other := by
  cases run <;> cases other <;> simp_all [addresses]

private theorem last_addresses {before : Nat} {run other : Run Content} (same : addresses run = addresses other) :
    last before run = last before other := by
  induction run generalizing before other with
  | nil =>
    obtain rfl : other = [] := by simpa [addresses] using same.symm
    rfl
  | cons node rest ih =>
    cases other with
    | nil => simp [addresses] at same
    | cons node' rest' =>
      obtain ⟨head,tail⟩ := List.cons.inj same
      rw [last_cons,last_cons,head]
      exact ih tail

private theorem linked_links {heap after : Heap Content} {before behind : Nat} {run other : Run Content}
    (same : addresses other = addresses run) (linked : Linked heap before run behind)
    (again : Linked after before other behind) (a : Nat) (member : a ∈ addresses run) : links after a = links heap a := by
  induction run generalizing before other with
  | nil => contradiction
  | cons node rest ih =>
    cases other with
    | nil => simp [addresses] at same
    | cons node' rest' =>
      obtain ⟨b,x⟩ := node
      obtain ⟨b',y⟩ := node'
      obtain ⟨rfl,tail⟩ : b' = b ∧ addresses rest' = addresses rest := List.cons.inj same
      rcases List.mem_cons.mp member with rfl | later
      · rw [links,links,linked.1,again.1,first_addresses tail]
        rfl
      · exact ih tail linked.2 again.2 later

section Loops

variable {compare : Comparison} {way : Int} {heap : Heap Content}

private theorem search_linked (one : Content) {before : Nat} {run : Run Content} (linked : Linked heap before run 0)
    (nonzero : 0 ∉ addresses run) (compares : ∀ node ∈ run, ∃ val, compare one node.2 = some val) (steps : Nat)
    (enough : run.length < steps) : search compare way heap one steps (first 0 run) =
      some (first 0 (run.dropWhile fun node => ¬ Wrong compare way one node.2)) := by
  induction run generalizing before steps with
  | nil =>
    obtain ⟨steps,rfl⟩ := Nat.exists_eq_succ_of_ne_zero (Nat.ne_zero_of_lt enough)
    simp [search]
  | cons node rest ih =>
    obtain ⟨a,x⟩ := node
    obtain ⟨steps,rfl⟩ := Nat.exists_eq_succ_of_ne_zero (Nat.ne_zero_of_lt enough)
    simp only [addresses,List.map_cons,List.mem_cons,not_or] at nonzero
    simp only [List.length_cons,Nat.succ_lt_succ_iff] at enough
    obtain ⟨val,compared⟩ := compares (a,x) List.mem_cons_self
    have later := ih linked.2 nonzero.2 (fun node member => compares node (List.mem_cons_of_mem _ member)) steps enough
    rw [search,first_cons,if_neg (Ne.symm nonzero.1),linked.1]
    by_cases found : val = way
    · simp [compared,found,Wrong]
    · simpa [compared,found,Wrong] using later

private theorem swap_linked {before a b : Nat} {x y : Content} {bs cs : Run Content}
    (linked : Linked heap before ((a,x) :: (bs ++ (b,y) :: cs)) 0)
    (distinct : (addresses ((a,x) :: (bs ++ (b,y) :: cs))).Nodup) :
    ∃ after, swap heap a b = some after ∧ Linked after before ((a,y) :: (bs ++ (b,x) :: cs)) 0 ∧
      ∀ c, c ∉ addresses ((a,x) :: (bs ++ (b,y) :: cs)) → after.lookup c = heap.lookup c := by
  have second := ((linked_append heap a bs ((b,y) :: cs) 0).mp linked.2).2.1
  obtain ⟨middle,changed⟩ := change_some linked List.mem_cons_self fun cell => { cell with content := y }
  have whole : Linked heap before ([] ++ (a,x) :: (bs ++ (b,y) :: cs)) 0 := linked
  have half : Linked middle before ((a,y) :: bs ++ (b,y) :: cs) 0 := linked_setContent whole distinct y changed
  have apart : (addresses ((a,y) :: bs ++ (b,y) :: cs)).Nodup := by simpa [addresses] using distinct
  have inside : b ∈ addresses ((a,y) :: bs ++ (b,y) :: cs) := by simp [addresses]
  obtain ⟨after,again⟩ := change_some half inside fun cell => { cell with content := x }
  refine ⟨after,?_,linked_setContent half apart x again,fun c outside => ?_⟩
  · rw [swap,linked.1]
    simp [second,changed,again]
  · rw [change_frame again inside c (by simpa [addresses] using outside),
      change_frame changed List.mem_cons_self c outside]

private theorem sort_turn {before a : Nat} {x : Content} {rest : Run Content} (linked : Linked heap before ((a,x) :: rest) 0)
    (nonzero : 0 ∉ addresses ((a,x) :: rest)) (distinct : (addresses ((a,x) :: rest)).Nodup)
    (compares : ∀ node ∈ rest, ∃ val, compare x node.2 = some val) (ip2 : Nat)
    (found : first 0 (rest.dropWhile fun node => ¬ Wrong compare way x node.2) = ip2) (turns : Nat) :
    sort compare way (turns + 1) heap a =
      if ip2 = 0 then sort compare way turns heap (first 0 rest)
      else (swap heap a ip2).bind fun heap => sort compare way turns heap a := by
  simp only [addresses,List.map_cons,List.mem_cons,not_or] at nonzero
  have enough : rest.length < heap.keys.length + 1 :=
    Nat.lt_succ_of_le (Nat.le_trans (Nat.le_succ _) (linked_length linked distinct))
  have sought := (search_linked x linked.2 nonzero.2 compares _ enough).trans (congrArg some found)
  rw [sort,if_neg (Ne.symm nonzero.1),linked.1]
  simp [sought]

private theorem settle_turn {before a : Nat} {x : Content} {rest : Run Content}
    (linked : Linked heap before ((a,x) :: rest) 0)
    (nonzero : 0 ∉ addresses ((a,x) :: rest)) (distinct : (addresses ((a,x) :: rest)).Nodup)
    (compares : ∀ node ∈ rest, ∃ val, compare x node.2 = some val)
    (fine : ∀ node ∈ rest, ¬ Wrong compare way x node.2) (turns : Nat) :
    sort compare way (turns + 1) heap a = sort compare way turns heap (first 0 rest) := by
  have none : rest.dropWhile (fun node => ¬ Wrong compare way x node.2) = [] := by
    rw [List.dropWhile_eq_nil_iff]
    simpa using fine
  have turn := sort_turn linked nonzero distinct compares 0 (by rw [none]; rfl) turns
  rwa [if_pos rfl] at turn

private theorem exchange_turn {before a b : Nat} {x y : Content} {bs cs : Run Content}
    (linked : Linked heap before ((a,x) :: (bs ++ (b,y) :: cs)) 0)
    (nonzero : 0 ∉ addresses ((a,x) :: (bs ++ (b,y) :: cs)))
    (distinct : (addresses ((a,x) :: (bs ++ (b,y) :: cs))).Nodup)
    (compares : ∀ node ∈ bs ++ (b,y) :: cs, ∃ val, compare x node.2 = some val)
    (fine : ∀ node ∈ bs, ¬ Wrong compare way x node.2) (found : Wrong compare way x y) :
    ∃ middle, Linked middle before ((a,y) :: (bs ++ (b,x) :: cs)) 0 ∧
      (∀ c, c ∉ addresses ((a,x) :: (bs ++ (b,y) :: cs)) → middle.lookup c = heap.lookup c) ∧
      ∀ turns, sort compare way (turns + 1) heap a = sort compare way turns middle a := by
  have wrong : (bs ++ (b,y) :: cs).dropWhile (fun node => ¬ Wrong compare way x node.2) = (b,y) :: cs := by
    rw [List.dropWhile_append_of_pos (by simpa using fine),List.dropWhile_cons_of_neg (by simpa using found)]
  have proper : b ≠ 0 := by
    rintro rfl
    exact nonzero (by simp [addresses])
  obtain ⟨middle,swapped,half,kept⟩ := swap_linked linked distinct
  refine ⟨middle,half,kept,fun turns => ?_⟩
  rw [sort_turn linked nonzero distinct compares b (by rw [wrong]; rfl) turns,if_neg proper,swapped,Option.bind_some]

/-- The outer loop goes as the exchanges do. -/
private theorem sort_linked {items sorted : List Content} {n : Nat} (sorts : Sorts (Wrong compare way) items n sorted)
    (compares : ∀ a ∈ items, ∀ b ∈ items, ∃ val, compare a b = some val) (heap : Heap Content) {before : Nat}
    {run : Run Content} (holds : run.map Prod.snd = items) (linked : Linked heap before run 0)
    (nonzero : 0 ∉ addresses run) (distinct : (addresses run).Nodup) :
    ∃ after run', addresses run' = addresses run ∧ run'.map Prod.snd = sorted ∧ Linked after before run' 0 ∧
      (∀ a, a ∉ addresses run → after.lookup a = heap.lookup a) ∧
      ∀ turns, n < turns → sort compare way turns heap (first 0 run) = some after := by
  induction sorts generalizing heap before run with
  | done =>
    obtain rfl : run = [] := by simpa using holds
    refine ⟨heap,[],rfl,rfl,trivial,fun _ _ => rfl,fun turns enough => ?_⟩
    obtain ⟨turns,rfl⟩ := Nat.exists_eq_succ_of_ne_zero (Nat.ne_zero_of_lt enough)
    simp [sort]
  | settle fine later ih =>
    obtain ⟨⟨a,x⟩,rest,rfl,rfl,rfl⟩ := List.map_eq_cons_iff.mp holds
    have within (node : Nat × Content) (member : node ∈ rest) : node.2 ∈ rest.map Prod.snd := List.mem_map_of_mem member
    have turn := settle_turn linked nonzero distinct
      (fun node member => compares x List.mem_cons_self node.2 (List.mem_cons_of_mem x (within node member)))
      fun node member => fine node.2 (within node member)
    obtain ⟨own,apart⟩ := List.nodup_cons.mp distinct
    obtain ⟨after,run',same,contents,again,frame,sorted⟩ := ih
      (fun a left b right => compares a (List.mem_cons_of_mem x left) b (List.mem_cons_of_mem x right))
      heap rfl linked.2 (List.not_mem_of_not_mem_cons nonzero) apart
    refine ⟨after,(a,x) :: run',?_,?_,⟨?_,again⟩,?_,fun turns enough => ?_⟩
    · rw [addresses,List.map_cons,← addresses,same]
      rfl
    · rw [List.map_cons,contents]
    · rw [frame a own,linked.1,first_addresses same]
    · exact fun b outside => frame b (List.not_mem_of_not_mem_cons outside)
    · obtain ⟨turns,rfl⟩ := Nat.exists_eq_succ_of_ne_zero (Nat.ne_zero_of_lt enough)
      rw [first_cons,turn]
      exact sorted turns (Nat.lt_of_succ_lt_succ enough)
  | exchange fine found later ih =>
    obtain ⟨⟨a,x⟩,cells,rfl,rfl,parts⟩ := List.map_eq_cons_iff.mp holds
    obtain ⟨bs,right,rfl,rfl,last⟩ := List.map_eq_append_iff.mp parts
    obtain ⟨⟨b,y⟩,cs,rfl,rfl,rfl⟩ := List.map_eq_cons_iff.mp last
    have places : addresses ((a,y) :: (bs ++ (b,x) :: cs)) = addresses ((a,x) :: (bs ++ (b,y) :: cs)) := by
      simp [addresses]
    have others (node : Nat × Content) (member : node ∈ bs ++ (b,y) :: cs) : ∃ val, compare x node.2 = some val := by
      have inside : node.2 ∈ (bs ++ (b,y) :: cs).map Prod.snd := List.mem_map_of_mem member
      exact compares x List.mem_cons_self node.2 (List.mem_cons_of_mem x (by simpa using inside))
    obtain ⟨middle,half,kept,turn⟩ := exchange_turn linked nonzero distinct others
      (fun node member => fine node.2 (List.mem_map_of_mem member)) found
    obtain ⟨after,run',same,contents,again,frame,sorted⟩ := ih
      (fun a left b right => compares a ((perm_exchange _ _ _ _).subset left) b ((perm_exchange _ _ _ _).subset right))
      middle (by simp) half (places ▸ nonzero) (places ▸ distinct)
    refine ⟨after,run',same.trans places,contents,again,fun c outside => ?_,fun turns enough => ?_⟩
    · rw [frame c (places ▸ outside),kept c outside]
    · obtain ⟨turns,rfl⟩ := Nat.exists_eq_succ_of_ne_zero (Nat.ne_zero_of_lt enough)
      rw [first_cons,turn]
      exact sorted turns (Nat.lt_of_succ_lt_succ enough)

end Loops

/-! Sorting in a store. -/

section Stores

variable {s : Store} {listings : Nat → Listing} {lp : Nat} {head : Head}

/-- Other cells under the same heads. -/
private theorem turns_heap (represents : Represents s listings) (held : s.heads.lookup lp = some head) {heap : Heap Content}
    {l : Listing} (shows : Shows heap head l) (same : addresses l.nodes = addresses (listings lp).nodes)
    (frame : ∀ a, a ∉ addresses (listings lp).nodes → heap.lookup a = s.heap.lookup a) :
    Turns s listings lp l ⟨heap,s.heads⟩ := by
  have turns := turns_insert represents held shows (fun a outside _ => frame a outside)
    fun a member => Or.inl (same ▸ member)
  have equal (lq : Nat) : (s.heads.insert lp head).lookup lq = s.heads.lookup lq := by
    by_cases own : lq = lp
    · rw [own,AList.lookup_insert,held]
    · exact AList.lookup_insert_ne own
  have live (lq : Nat) (kept : lq ∈ s.heads) : lq ∈ s.heads.insert lp head := (AList.mem_insert _).mpr (Or.inr kept)
  exact
    { represents :=
        { shows := fun lq other found => turns.represents.shows lq other ((equal lq).trans found)
          apart := fun lq lr first second => turns.represents.apart lq lr (live lq first) (live lr second)
          proper := represents.proper }
      live := fun _ kept => kept }

/-- Cells at the same addresses, one after the other, show a listing that is split in
the same place. -/
private theorem shows_run {heap after : Heap Content} {l : Listing} (shows : Shows heap head l) {run : Run Content}
    (same : addresses run = addresses l.nodes) (linked : Linked after 0 run 0) :
    ∃ sorted : Listing, sorted.nodes = run ∧ addresses sorted.passed = addresses l.passed ∧
      addresses sorted.ahead = addresses l.ahead ∧ Shows after head sorted := by
  rw [Listing.nodes,addresses,addresses,List.map_append] at same
  obtain ⟨passed,ahead,rfl,left,right⟩ := List.map_eq_append_iff.mp same
  have whole : addresses (passed ++ ahead) = addresses l.nodes := by
    rw [addresses,List.map_append,left,right,Listing.nodes,addresses,List.map_append]
  exact ⟨⟨passed,ahead⟩,rfl,left,right,
    { linked := linked
      nonzero := whole ▸ shows.nonzero
      distinct := whole ▸ shows.distinct
      first := shows.first.trans (first_addresses whole.symm)
      last := shows.last.trans (last_addresses whole.symm)
      next := shows.next.trans (first_addresses right.symm) }⟩

private theorem comparable_orders {memory : Nat → Option Text} {items : List Content} {given : Option Comparison}
    (comparable : Comparable memory items given) : Orders (given.getD (compare memory)) items := by
  cases given with
  | none => exact compare_orders comparable
  | some compare => exact comparable

theorem listSort_sorts (represents : Represents s listings) (live : lp ∈ s.heads) (memory : Nat → Option Text)
    (given : Option Comparison) (comparable : Comparable memory (contents (listings lp)) given) (order : Int) :
    ∃ after sorted, Turns s listings lp sorted after ∧
      Sorted (given.getD (compare memory)) order s after (listings lp) sorted ∧
      ∀ turns, (listings lp).nodes.length * (listings lp).nodes.length < turns →
        listSort memory s lp given order turns = some (0,after) := by
  obtain ⟨head,held⟩ := ListRuns.held_of_live live
  have shows := represents.shows lp head held
  have proper := proper_of_held represents held
  have orders := comparable_orders comparable
  have compares : ∀ a ∈ contents (listings lp), ∀ b ∈ contents (listings lp), ∃ val,
      given.getD (compare memory) a b = some val := by
    intro a left b right
    obtain ⟨val,known,_⟩ := orders.values a left b right
    exact ⟨val,known⟩
  obtain ⟨n,items,bound,sorts⟩ := sorts_exists _ _ rfl (wrong_strict orders order)
  rw [contents,List.length_map] at bound
  obtain ⟨heap,run,same,contained,linked,frame,ends⟩ :=
    sort_linked sorts compares s.heap rfl shows.linked shows.nonzero shows.distinct
  obtain ⟨sorted,rfl,passed,ahead,shown⟩ := shows_run shows same linked
  refine ⟨⟨heap,s.heads⟩,sorted,turns_heap represents held shown same frame,?_,fun turns enough => ?_⟩
  · obtain rfl : contents sorted = items := contained
    have perm := sorts_perm sorts
    exact
      { perm := perm
        ordered := inOrder_of_sorts orders perm (sorts_ordered sorts)
        passed := passed
        ahead := ahead
        heads := rfl
        links := fun a => by
          by_cases member : a ∈ addresses (listings lp).nodes
          · exact linked_links same shows.linked linked a member
          · rw [links,frame a member,links]
        elsewhere := frame }
  · rw [listSort,if_neg proper,held]
    have sorting := ends turns (Nat.lt_of_le_of_lt bound enough)
    rw [← shows.first] at sorting
    simp [sorting]

end Stores

def names (item : Nat) : Option Text := some (if item = 5 then "pack_01".toList else "pack_02".toList)

def threeItems : List ListRuns.Op := [.create 1,.add 1 7 0 10 0,.add 1 5 0 11 0,.add 1 8 8 12 60,.reset 1,.getNext 1]

theorem listSort_sorts_three : ∃ s, run ListRuns.step empty threeItems = some s ∧
    ∃ listings, Represents s listings ∧ ∃ after sorted, Sorted (compare names) 0 s after (listings 1) sorted ∧
      ∃ turns, listSort names s 1 none 0 turns = some (0,after) := by
  have runs : ((run ListRuns.step empty threeItems).map fun s => decide (1 ∈ s.heads)) = some true := by decide
  obtain ⟨s,reached,live⟩ := Option.map_eq_some_iff.mp runs
  obtain ⟨listings,represents⟩ := ListRuns.run_represents threeItems s reached
  obtain ⟨after,sorted,_,sorts,ends⟩ :=
    listSort_sorts represents (of_decide_eq_true live) names none (fun _ _ => ⟨_,rfl⟩) 0
  exact ⟨s,reached,listings,represents,after,sorted,sorts,_,ends _ (Nat.lt_succ_self _)⟩

example : ((run ListRuns.step empty threeItems).bind fun s => (listSort names s 1 none 0 10).map fun (_,after) =>
    [10,11,12].map fun a => (after.heap.lookup a).map fun cell => (cell.content.item,cell.content.size)) =
      some [some (5,0),some (7,0),some (60,8)] := by decide

end Mybmm.ListSort
