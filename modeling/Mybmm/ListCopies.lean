import Mybmm.ListRuns

/-! list.c: lists whose items are copied to other lists, and lists that are given back.
`malloc` may fail at any item, which the copying does not notice. -/
namespace Mybmm.ListCopies
open Links Run Machine Mybmm.Lists ListRuns

/-- What `malloc` returns for a node and for an item; the turns that are left tell one
call from another. -/
structure Malloc where
  gives : Nat → Heap Content → Nat × Nat
  new : ∀ k heap, (gives k heap).1 = 0 ∨ (gives k heap).1 ∉ heap

section Calls

variable (m : Malloc)

/-- The loop that `list_add_list` and `list_dup` share. -/
def copyLoop (lp : Nat) : Nat → Nat → Store → Option Store
  | 0, _, _ => none
  | turns + 1, ip, s =>
    if ip = 0 then some s else do
      let cell ← s.heap.lookup ip
      let (address,copy) := m.gives turns s.heap
      let (_,s) ← listAdd s lp cell.content.item cell.content.size address copy
      let cell ← s.heap.lookup ip
      copyLoop lp turns cell.next s

def listAddList (s : Store) (lp lp2 : Nat) : Option (Int × Store) := do
  if lp = 0 then return (1,s)
  let head ← s.heads.lookup lp2
  return (0,← copyLoop m lp (steps s) head.first s)

def listDup (s : Store) (lp address : Nat) : Option (Nat × Store) := do
  if lp = 0 then return (0,s)
  let (newList,s) ← listCreate s address
  if newList = 0 then return (0,s)
  let head ← s.heads.lookup lp
  return (newList,← copyLoop m newList (steps s) head.first s)

end Calls

def destroyLoop : Nat → Nat → Heap Content → Option (Heap Content)
  | 0, _, _ => none
  | turns + 1, ip, heap =>
    if ip = 0 then some heap else
    (heap.lookup ip).bind fun cell => destroyLoop turns cell.next (heap.erase ip)

def listDestroy (s : Store) (lp : Nat) : Option (Int × Store) := do
  if lp = 0 then return (-1,s)
  let head ← s.heads.lookup lp
  return (0,⟨← destroyLoop (steps s) head.first s.heap,s.heads.erase lp⟩)

/-! What the copies are. -/

/-- What `malloc` returns in one turn leaves an item of this size without memory. -/
def Refused (size : Int) (given : Nat × Nat) : Prop := given.1 = 0 ∨ size ≠ 0 ∧ given.2 = 0

/-- The items of a list as they are added to `lp` turn by turn: each in its place, or left out
where `malloc` refused it in its turn. -/
inductive Copies (m : Malloc) (lp : Nat) : Nat → Store → Run Content → Run Content → Store → Prop
  | done {turns : Nat} {s : Store} : Copies m lp turns s [] [] s
  | kept {turns a address copy item : Nat} {x : Content} {nodes added : Run Content} {s middle after : Store}
      (given : m.gives turns s.heap = (address,copy)) (enough : ¬ Refused x.size (address,copy))
      (put : listAdd s lp x.item x.size address copy = some (item,middle))
      (later : Copies m lp turns middle nodes added after) :
      Copies m lp (turns + 1) s ((a,x) :: nodes) ((address,Lists.keeps x.item x.size copy) :: added) after
  | lost {turns a : Nat} {x : Content} {nodes added : Run Content} {s after : Store}
      (refused : Refused x.size (m.gives turns s.heap)) (later : Copies m lp turns s nodes added after) :
      Copies m lp (turns + 1) s ((a,x) :: nodes) added after

section Adding

variable {m : Malloc} {s : Store} {listings : Nat → Listing} {lp : Nat} {head : Head}

/-- An item is added, or it is refused and nothing has changed. -/
private theorem add_cases (represents : Represents s listings) (held : s.heads.lookup lp = some head) (item : Nat)
    (size : Int)
    {address copy : Nat} (new : address = 0 ∨ address ∉ s.heap) :
    Refused size (address,copy) ∧ listAdd s lp item size address copy = some (0,s) ∨
      ¬ Refused size (address,copy) ∧
        ∃ after, listAdd s lp item size address copy = some ((Lists.keeps item size copy).item,after) ∧
          Turns s listings lp ((listings lp).add (address,Lists.keeps item size copy)) after := by
  have proper := proper_of_held represents held
  by_cases failed : address = 0
  · left
    refine ⟨Or.inl failed,?_⟩
    simp [listAdd,newitem,proper,failed]
  have free := new.resolve_left failed
  by_cases enough : size ≠ 0 → copy ≠ 0
  · right
    refine ⟨?_,listAdd_spec represents held item size address copy failed free enough⟩
    rintro (none | ⟨sized,none⟩)
    · exact failed none
    · exact enough sized none
  · left
    obtain ⟨sized,none⟩ := Classical.not_imp.mp enough
    have absent := not_not.mp none
    refine ⟨Or.inr ⟨sized,absent⟩,?_⟩
    simp [listAdd,newitem,proper,failed,free,sized,absent]

private theorem turns_same (represents : Represents s listings) : Turns s listings lp (listings lp) s := by
  refine ⟨?_,fun _ live => live⟩
  rw [Function.update_eq_self]
  exact represents

private theorem turns_trans {after last : Store} {l k : Listing} (turns : Turns s listings lp l after)
    (more : Turns after (Function.update listings lp l) lp k last) : Turns s listings lp k last := by
  refine ⟨?_,fun lq live => more.live lq (turns.live lq live)⟩
  have represents := more.represents
  rwa [Function.update_idem] at represents

/-- Going through one list, whose items are added to another. -/
private theorem copyLoop_spec {lq : Nat} (apart : lq ≠ lp) (rest : Run Content) (passed : Run Content)
    (represents : Represents s listings) (live : lp ∈ s.heads) (other : lq ∈ s.heads)
    (nodes : (listings lq).nodes = passed ++ rest) (turns : Nat) (enough : rest.length < turns) :
    ∃ after added, copyLoop m lp turns (first 0 rest) s = some after ∧ Copies m lp turns s rest added after ∧
      Turns s listings lp (added.foldl Listing.add (listings lp)) after := by
  induction rest generalizing passed s listings turns with
  | nil =>
    cases turns with
    | zero => omega
    | succ turns => exact ⟨s,[],by rw [copyLoop,first_nil,if_pos rfl],.done,turns_same represents⟩
  | cons node rest ih =>
    obtain ⟨a,x⟩ := node
    cases turns with
    | zero => omega
    | succ turns =>
      have less : rest.length < turns := by
        rw [List.length_cons] at enough
        omega
      have onward : (listings lq).nodes = (passed ++ [(a,x)]) ++ rest := by
        rw [nodes]
        simp
      have cellOf {s : Store} {listings : Nat → Listing} (represents : Represents s listings) (other : lq ∈ s.heads)
          (nodes : (listings lq).nodes = passed ++ (a,x) :: rest) :
          a ≠ 0 ∧ s.heap.lookup a = some ⟨x,last 0 passed,first 0 rest⟩ := by
        obtain ⟨head,held⟩ := held_of_live other
        have shows := represents.shows lq head held
        have linked := shows.linked
        rw [nodes,linked_append] at linked
        refine ⟨?_,linked.2.1⟩
        rintro rfl
        exact shows.nonzero (by simp [nodes,addresses])
      obtain ⟨proper,cell⟩ := cellOf represents other nodes
      obtain ⟨head,held⟩ := held_of_live live
      rw [first_cons,copyLoop,if_neg proper,cell]
      rcases add_cases represents held x.item x.size (m.new turns s.heap) with
        ⟨refused,same⟩ | ⟨enough,after,added,moved⟩
      · obtain ⟨after,added,gone,copies,moved⟩ := ih (passed ++ [(a,x)]) represents live other onward turns less
        refine ⟨after,added,?_,.lost refused copies,moved⟩
        simp [same,cell,gone]
      · have kept : Function.update listings lp ((listings lp).add ((m.gives turns s.heap).1,
            Lists.keeps x.item x.size (m.gives turns s.heap).2)) lq = listings lq := Function.update_of_ne apart _ _
        have still := moved.live lq other
        obtain ⟨_,again⟩ := cellOf moved.represents still (kept ▸ nodes)
        obtain ⟨last,more,gone,copies,later⟩ :=
          ih (passed ++ [(a,x)]) moved.represents (moved.live lp live) still (kept ▸ onward) turns less
        refine ⟨last,((m.gives turns s.heap).1,Lists.keeps x.item x.size (m.gives turns s.heap).2) :: more,?_,
          .kept rfl enough added copies,?_⟩
        · simp [added,again,gone]
        · rw [List.foldl_cons]
          rw [Function.update_self] at later
          exact turns_trans moved later

private theorem steps_enough (represents : Represents s listings) (held : s.heads.lookup lp = some head) :
    (listings lp).nodes.length < steps s := by
  have shows := represents.shows lp head held
  exact Nat.lt_succ_of_le (linked_length shows.linked shows.distinct)

private theorem nodes_adds (l : Listing) (added : Run Content) : (added.foldl Listing.add l).nodes = l.nodes ++ added := by
  induction added generalizing l with
  | nil => simp
  | cons node added ih => rw [List.foldl_cons,ih,Listing.nodes_add,List.append_assoc,List.singleton_append]

/-- What is added to an empty list all lies ahead. -/
private theorem adds_ahead (ahead added : Run Content) : added.foldl Listing.add ⟨[],ahead⟩ = ⟨[],ahead ++ added⟩ := by
  induction added generalizing ahead with
  | nil => simp
  | cons node added ih =>
    have one : Listing.add ⟨[],ahead⟩ node = ⟨[],ahead ++ [node]⟩ := by
      cases ahead with
      | nil => rfl
      | cons first rest => simp [Listing.add,Listing.nodes]
    rw [List.foldl_cons,one,ih,List.append_assoc,List.singleton_append]

private theorem listAddList_spec {lq : Nat} (represents : Represents s listings) (live : lp ∈ s.heads) (other : lq ∈ s.heads)
    (apart : lq ≠ lp) : ∃ after added, listAddList m s lp lq = some (0,after) ∧
      Copies m lp (steps s) s (listings lq).nodes added after ∧
      Turns s listings lp (added.foldl Listing.add (listings lp)) after := by
  obtain ⟨_,mine⟩ := held_of_live live
  obtain ⟨head,held⟩ := held_of_live other
  have proper := proper_of_held represents mine
  obtain ⟨after,added,gone,copies,turns⟩ :=
    copyLoop_spec (m := m) apart (listings lq).nodes [] represents live other rfl (steps s) (steps_enough represents held)
  rw [← (represents.shows lq head held).first] at gone
  exact ⟨after,added,by simp [listAddList,proper,held,gone],copies,turns⟩

private theorem listDup_spec {address : Nat} (represents : Represents s listings) (live : lp ∈ s.heads)
    (proper : address ≠ 0)
    (new : address ∉ s.heads) : ∃ middle after added, listCreate s address = some (address,middle) ∧
      listDup m s lp address = some (address,after) ∧
      Copies m address (steps middle) middle (listings lp).nodes added after ∧
      Turns s listings address ⟨[],added⟩ after := by
  have apart : lp ≠ address := fun same => new (same ▸ live)
  obtain ⟨middle,created,turns⟩ := listCreate_spec represents address proper new
  have still := turns.live lp live
  have same : Function.update listings address ⟨[],[]⟩ lp = listings lp := Function.update_of_ne apart _ _
  obtain ⟨head,held⟩ := held_of_live still
  have mine : address ∈ middle.heads := by
    rw [listCreate,if_neg proper,if_neg new] at created
    obtain ⟨_,rfl⟩ := Prod.mk.inj (Option.some.inj created)
    exact (AList.mem_insert _).mpr (Or.inl rfl)
  obtain ⟨after,added,gone,copies,more⟩ :=
    copyLoop_spec (m := m) apart (listings lp).nodes [] turns.represents mine still (by rw [same]; rfl) (steps middle)
      (same ▸ steps_enough turns.represents held)
  have first := (turns.represents.shows lp head held).first
  rw [same] at first
  rw [← first] at gone
  rw [Function.update_self,adds_ahead,List.nil_append] at more
  have given : lp ≠ 0 := by
    obtain ⟨_,here⟩ := held_of_live live
    exact proper_of_held represents here
  exact ⟨middle,after,added,created,by simp [listDup,given,created,proper,held,gone],copies,turns_trans turns more⟩

/-- Every node is given back once, and nothing else. -/
private theorem destroyLoop_spec (run : Run Content) {heap : Heap Content} {before : Nat} (linked : Linked heap before run 0)
    (nonzero : 0 ∉ addresses run) (distinct : (addresses run).Nodup) (turns : Nat) (enough : run.length < turns) :
    ∃ after, destroyLoop turns (first 0 run) heap = some after ∧ (∀ a ∈ addresses run, a ∉ after) ∧
      ∀ b, b ∉ addresses run → after.lookup b = heap.lookup b := by
  induction run generalizing heap before turns with
  | nil =>
    cases turns with
    | zero => omega
    | succ turns => exact ⟨heap,by rw [destroyLoop,first_nil,if_pos rfl],by simp [addresses],fun _ _ => rfl⟩
  | cons node run ih =>
    obtain ⟨a,x⟩ := node
    cases turns with
    | zero => omega
    | succ turns =>
      have proper : a ≠ 0 := fun zero => nonzero (by simp [addresses,zero])
      have later : 0 ∉ addresses run := fun zero => nonzero (List.mem_cons_of_mem _ zero)
      obtain ⟨own,rest⟩ := List.nodup_cons.mp distinct
      have without (b : Nat) (apart : b ≠ a) : (heap.erase a).lookup b = heap.lookup b := AList.lookup_erase_ne apart
      have behind : Linked (heap.erase a) a run 0 :=
        linked_frame (fun b member => without b fun same => own (same ▸ member)) linked.2
      obtain ⟨after,gone,freed,kept⟩ := ih behind later rest turns (by rw [List.length_cons] at enough; omega)
      refine ⟨after,?_,?_,fun b outside => ?_⟩
      · rw [first_cons,destroyLoop,if_neg proper,linked.1]
        exact gone
      · intro b member
        rcases List.mem_cons.mp member with rfl | inside
        · rw [← AList.lookup_eq_none,kept _ own]
          exact AList.lookup_erase _ _
        · exact freed b inside
      · rw [addresses,List.map_cons,List.mem_cons,not_or] at outside
        rw [kept b outside.2,without b outside.1]

private theorem listDestroy_spec (represents : Represents s listings) (held : s.heads.lookup lp = some head) :
    ∃ after, listDestroy s lp = some (0,after) ∧ after.heads = s.heads.erase lp ∧ Represents after listings ∧
      (∀ a ∈ addresses (listings lp).nodes, a ∉ after.heap) ∧
      ∀ b, b ∉ addresses (listings lp).nodes → after.heap.lookup b = s.heap.lookup b := by
  have shows := represents.shows lp head held
  have proper := proper_of_held represents held
  have live : lp ∈ s.heads := AList.lookup_isSome.mp (by rw [held]; rfl)
  obtain ⟨heap,gone,freed,kept⟩ :=
    destroyLoop_spec (listings lp).nodes shows.linked shows.nonzero shows.distinct (steps s) (steps_enough represents held)
  rw [← shows.first] at gone
  refine ⟨⟨heap,s.heads.erase lp⟩,by simp [listDestroy,proper,held,gone],rfl,?_,freed,kept⟩
  constructor
  · intro lq other found
    have apart : lq ≠ lp := by
      rintro rfl
      rw [AList.lookup_erase] at found
      contradiction
    rw [AList.lookup_erase_ne apart] at found
    have before := represents.shows lq other found
    have there : lq ∈ s.heads := AList.lookup_isSome.mp (by rw [found]; rfl)
    exact { before with
      linked := linked_frame (fun a member => kept a (represents.apart lq lp there live apart a member)) before.linked }
  · exact fun lq lr one two => represents.apart lq lr (AList.mem_erase.mp one).2 (AList.mem_erase.mp two).2
  · exact fun zero => represents.proper (AList.mem_erase.mp zero).2

end Adding

/-! Runs in which lists are copied and given back, too. -/

/-- Each call has a `malloc` of its own. -/
inductive Deed where
  | call (op : Op)
  | addList (m : Malloc) (lp lp2 : Nat)
  | dup (m : Malloc) (lp address : Nat)
  | destroy (lp : Nat)

def perform (s : Store) : Deed → Option Store
  | .call op => step s op
  | .addList m lp lp2 => (listAddList m s lp lp2).map Prod.snd
  | .dup m lp address => (listDup m s lp address).map Prod.snd
  | .destroy lp => (listDestroy s lp).map Prod.snd

/-- A list that is added to itself ends only if it is empty; whatever the loop does
that ends is a row of additions. -/
private theorem copyLoop_represents {m : Malloc} {lp : Nat} (turns ip : Nat) {s after : Store}
    (represented : ∃ listings, Represents s listings) (gone : copyLoop m lp turns ip s = some after) :
    ∃ listings, Represents after listings := by
  induction turns generalizing ip s with
  | zero => contradiction
  | succ turns ih =>
    rw [copyLoop] at gone
    split at gone
    · cases gone
      exact represented
    · obtain ⟨cell,_,called⟩ := Option.bind_eq_some_iff.mp gone
      obtain ⟨⟨item,middle⟩,added,more⟩ := Option.bind_eq_some_iff.mp called
      obtain ⟨_,_,rest⟩ := Option.bind_eq_some_iff.mp more
      obtain ⟨listings,represents⟩ := represented
      obtain ⟨after,still,_⟩ := add_leads represents lp cell.content.item cell.content.size
        (m.gives turns s.heap).1 (m.gives turns s.heap).2 (by rw [step,added]; rfl)
      exact ih _ ⟨after,still⟩ rest

private theorem create_represents {s after : Store} {listings : Nat → Listing} {address given : Nat}
    (represents : Represents s listings) (created : listCreate s address = some (given,after)) :
    ∃ listings, Represents after listings := by
  obtain ⟨after,still,_⟩ := create_leads represents address (by rw [step,created]; rfl)
  exact ⟨after,still⟩

private theorem perform_represents {s next : Store} (represented : ∃ listings, Represents s listings) (deed : Deed)
    (done : perform s deed = some next) : ∃ listings, Represents next listings := by
  obtain ⟨listings,represents⟩ := represented
  cases deed with
  | call op =>
    obtain ⟨after,still,_⟩ := step_leads represents op done
    exact ⟨after,still⟩
  | addList m lp lp2 =>
    obtain ⟨⟨r,_⟩,called,rfl⟩ := Option.map_eq_some_iff.mp done
    rw [listAddList] at called
    split at called
    · cases called
      exact ⟨listings,represents⟩
    · obtain ⟨head,_,rest⟩ := Option.bind_eq_some_iff.mp called
      obtain ⟨after,gone,same⟩ := Option.bind_eq_some_iff.mp rest
      cases same
      exact copyLoop_represents _ _ ⟨listings,represents⟩ gone
  | dup m lp address =>
    obtain ⟨⟨r,_⟩,called,rfl⟩ := Option.map_eq_some_iff.mp done
    rw [listDup] at called
    split at called
    · cases called
      exact ⟨listings,represents⟩
    · obtain ⟨⟨newList,middle⟩,created,rest⟩ := Option.bind_eq_some_iff.mp called
      have begun := create_represents represents created
      dsimp only at rest
      split at rest
      · cases rest
        exact begun
      · obtain ⟨head,_,more⟩ := Option.bind_eq_some_iff.mp rest
        obtain ⟨after,gone,same⟩ := Option.bind_eq_some_iff.mp more
        cases same
        exact copyLoop_represents _ _ begun gone
  | destroy lp =>
    obtain ⟨⟨r,_⟩,called,rfl⟩ := Option.map_eq_some_iff.mp done
    rcases pointer_cases s lp with null | ⟨proper,none⟩ | ⟨_,head,held⟩
    · rw [listDestroy,if_pos null] at called
      cases called
      exact ⟨listings,represents⟩
    · simp [listDestroy,proper,none] at called
    · obtain ⟨after,destroyed,_,still,_⟩ := listDestroy_spec represents held
      cases destroyed.symm.trans called
      exact ⟨listings,still⟩

/-- What the calls do in a store that shows these listings: a list that is copied is what
it was, and the copy is a list of its own. -/
structure Shares (s : Store) (listings : Nat → Listing) : Prop where
  represents : Represents s listings
  adds : ∀ m lp lq, lp ∈ s.heads → lq ∈ s.heads → lq ≠ lp → ∃ after added, listAddList m s lp lq = some (0,after) ∧
    Copies m lp (steps s) s (listings lq).nodes added after ∧
    Turns s listings lp (added.foldl Listing.add (listings lp)) after ∧
    (added.foldl Listing.add (listings lp)).nodes = (listings lp).nodes ++ added
  dups : ∀ m lp address, lp ∈ s.heads → address ≠ 0 → address ∉ s.heads →
    ∃ middle after added, listCreate s address = some (address,middle) ∧ listDup m s lp address = some (address,after) ∧
      Copies m address (steps middle) middle (listings lp).nodes added after ∧ Turns s listings address ⟨[],added⟩ after
  destroys : ∀ lp, lp ∈ s.heads → ∃ after, listDestroy s lp = some (0,after) ∧ after.heads = s.heads.erase lp ∧
    Represents after listings ∧ (∀ a ∈ addresses (listings lp).nodes, a ∉ after.heap) ∧
    ∀ b, b ∉ addresses (listings lp).nodes → after.heap.lookup b = s.heap.lookup b

/-- However lists are made, changed, gone through, copied and given back. -/
theorem copies_apart (deeds : List Deed) {s : Store} (reached : run perform empty deeds = some s) :
    ∃ listings, Shares s listings := by
  obtain ⟨listings,represents⟩ := run_invariant (fun s => ∃ listings, Represents s listings)
    (fun s deed next represented done => perform_represents represented deed done) ⟨_,empty_represents⟩ reached
  refine ⟨listings,represents,?_,?_,?_⟩
  · intro m lp lq live other apart
    obtain ⟨after,added,called,copies,turns⟩ := listAddList_spec represents live other apart
    exact ⟨after,added,called,copies,turns,nodes_adds _ _⟩
  · exact fun m lp address live proper new => listDup_spec represents live proper new
  · intro lp live
    obtain ⟨head,held⟩ := held_of_live live
    exact listDestroy_spec represents held

/-- One address for each turn, as long as it is free. -/
def numbered : Malloc where
  gives := fun k heap => (if k + 2 ∈ heap then 0 else k + 2,1)
  new := fun k heap => by
    by_cases taken : k + 2 ∈ heap
    · exact Or.inl (if_pos taken)
    · exact Or.inr (by rwa [if_neg taken])

theorem copies_apart_given : ∃ s listings, run perform empty
    [.call (.create 100),.call (.add 100 7 0 1 0),.dup numbered 100 200,.addList numbered 100 200,.destroy 200] = some s ∧
      Shares s listings := by
  obtain ⟨listings,shares⟩ := copies_apart
    [.call (.create 100),.call (.add 100 7 0 1 0),.dup numbered 100 200,.addList numbered 100 200,.destroy 200] rfl
  exact ⟨_,listings,rfl,shares⟩

end Mybmm.ListCopies
