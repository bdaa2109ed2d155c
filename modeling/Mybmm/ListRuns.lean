import Mybmm.Support.Progress
import Mybmm.Lists

/-! Runs of the calls of list.c on any number of lists, and what one gets who goes
through a list while others take items out of it. -/
namespace Mybmm.ListRuns
open Links Run Machine Mybmm.Lists

inductive Op where
  | create (address : Nat)
  | add (lp item : Nat) (size : Int) (address copy : Nat)
  | delete (lp item : Nat)
  | reset (lp : Nat)
  | getNext (lp : Nat)

def step (s : Store) : Op → Option Store
  | .create address => (listCreate s address).map Prod.snd
  | .add lp item size address copy => (listAdd s lp item size address copy).map Prod.snd
  | .delete lp item => (listDelete s lp item).map Prod.snd
  | .reset lp => (listReset s lp).map Prod.snd
  | .getNext lp => (listGetNext s lp).map Prod.snd

/-! What one who goes through a list is given, and what is taken out ahead of it. -/

/-- The items returned, the nodes they were in, and those deleted before they were reached. -/
structure Tour where
  returned : List Nat := []
  reached : List Nat := []
  lost : List Nat := []

def cursor (s : Store) (lp : Nat) : Nat := ((s.heads.lookup lp).map Head.next).getD 0

/-- The node that `list_delete` comes to, zero for none. -/
def found (s : Store) (lp item : Nat) : Option Nat :=
  (s.heads.lookup lp).bind fun head => seek s.heap (fun content => content.item = item) (steps s) head.first

def meet (lp : Nat) (s : Store) (t : Tour) : Op → Tour
  | .getNext lq =>
    match listGetNext s lp with
    | some (item,_) =>
      if lq ≠ lp ∨ item = 0 then t
      else { t with returned := t.returned ++ [item], reached := t.reached ++ [cursor s lp] }
    | none => t
  | .delete lq item =>
    match found s lp item with
    | some a => if lq ≠ lp ∨ a = 0 ∨ a ∈ t.reached then t else { t with lost := t.lost ++ [a] }
    | none => t
  | _ => t

def tour (lp : Nat) : Store → Tour → List Op → Option (Tour × Store)
  | s, t, [] => some (t,s)
  | s, t, op :: ops => (step s op).bind fun next => tour lp next (meet lp s t op) ops

/-- Calls that neither add to a list nor reset it. -/
def Quiet (lp : Nat) : Op → Prop
  | .add lq _ _ _ _ => lq ≠ lp
  | .reset lq => lq ≠ lp
  | _ => True

/-- From the reset until null is returned, one is given what was in the list at the
reset, in order, except what was deleted before. -/
def Iterates (s : Store) (lp : Nat) (nodes : Run Content) : Prop :=
  ∀ start ops t last item after, listReset s lp = some (0,start) → (∀ op ∈ ops, Quiet lp op) →
    tour lp start {} ops = some (t,last) → listGetNext last lp = some (item,after) → item = 0 →
      t.returned = (nodes.filter fun node => node.1 ∉ t.lost).map (fun node => node.2.item) ∧
        t.reached = (nodes.filter fun node => node.1 ∉ t.lost).map Prod.fst

/-- What a store keeps to that shows these listings. -/
structure Keeps (s : Store) (listings : Nat → Listing) : Prop where
  represents : Represents s listings
  cursors : ∀ lp head, s.heads.lookup lp = some head → head.next = 0 ∨ head.next ∈ addresses (listings lp).nodes
  adds : ∀ lp item size address copy, lp ∈ s.heads → address ≠ 0 → address ∉ s.heap → (size ≠ 0 → copy ≠ 0) →
    ∃ after, listAdd s lp item size address copy = some ((keeps item size copy).item,after) ∧
      Turns s listings lp ((listings lp).add (address,keeps item size copy)) after ∧
      ((listings lp).add (address,keeps item size copy)).nodes = (listings lp).nodes ++ [(address,keeps item size copy)]
  deletes : ∀ lp item, lp ∈ s.heads →
    (∀ node ∈ (listings lp).nodes, node.2.item ≠ item) ∧ listDelete s lp item = some (1,s) ∨
      (∃ node ∈ (listings lp).nodes, node.2.item = item) ∧ ∃ after, listDelete s lp item = some (0,after) ∧
        Turns s listings lp ((listings lp).delete item) after ∧
        ((listings lp).delete item).nodes = (listings lp).nodes.eraseP fun node => node.2.item = item
  counts : ∀ lp, lp ∈ s.heads → listCount s lp = some ((listings lp).nodes.length : Int)
  iterates : ∀ lp, lp ∈ s.heads → (∀ node ∈ (listings lp).nodes, node.2.item ≠ 0) → Iterates s lp (listings lp).nodes

/-! Every step leads from listings to listings. -/

def Op.list : Op → Nat
  | .create address => address
  | .add lp _ _ _ _ => lp
  | .delete lp _ => lp
  | .reset lp => lp
  | .getNext lp => lp

def Leads (s : Store) (listings : Nat → Listing) (lp : Nat) (next : Store) : Prop :=
  ∃ after, Represents next after ∧ (∀ lq, lq ≠ lp → after lq = listings lq) ∧ ∀ lq, lq ∈ s.heads → lq ∈ next.heads

section Steps

variable {s next : Store} {listings : Nat → Listing}

private theorem leads_same (represents : Represents s listings) (lp : Nat) : Leads s listings lp s :=
  ⟨listings,represents,fun _ _ => rfl,fun _ live => live⟩

private theorem leads_turns {lp : Nat} {l : Listing} (turns : Turns s listings lp l next) : Leads s listings lp next :=
  ⟨_,turns.represents,fun _ other => Function.update_of_ne other _ _,turns.live⟩

/-- A pointer is null, leads nowhere, or is that of a list. -/
theorem pointer_cases (s : Store) (lp : Nat) :
    lp = 0 ∨ lp ≠ 0 ∧ s.heads.lookup lp = none ∨ lp ≠ 0 ∧ ∃ head, s.heads.lookup lp = some head := by
  by_cases null : lp = 0
  · exact Or.inl null
  · cases found : s.heads.lookup lp with
    | none => exact Or.inr (Or.inl ⟨null,rfl⟩)
    | some head => exact Or.inr (Or.inr ⟨null,head,rfl⟩)

/-- A call on a list returns at once for a null pointer, and has no meaning for one
that leads nowhere. -/
private theorem call_leads {ρ : Type} {call : Option (ρ × Store)} {r : ρ} (represents : Represents s listings) (lp : Nat)
    (null : lp = 0 → ∃ q, call = some (q,s)) (gone : lp ≠ 0 → s.heads.lookup lp = none → call = none)
    (held : ∀ head, s.heads.lookup lp = some head → ∃ q after, call = some (q,after) ∧ Leads s listings lp after)
    (called : call = some (r,next)) : Leads s listings lp next := by
  rcases pointer_cases s lp with here | ⟨proper,none⟩ | ⟨_,head,found⟩
  · obtain ⟨q,returned⟩ := null here
    obtain ⟨_,rfl⟩ := Prod.mk.inj (Option.some.inj (returned.symm.trans called))
    exact leads_same represents lp
  · rw [gone proper none] at called
    contradiction
  · obtain ⟨q,after,returned,leads⟩ := held head found
    obtain ⟨_,rfl⟩ := Prod.mk.inj (Option.some.inj (returned.symm.trans called))
    exact leads

theorem create_leads (represents : Represents s listings) (address : Nat)
    (taken : step s (.create address) = some next) : Leads s listings address next := by
  obtain ⟨⟨r,_⟩,called,rfl⟩ := Option.map_eq_some_iff.mp taken
  by_cases failed : address = 0
  · rw [listCreate,if_pos failed] at called
    obtain ⟨_,rfl⟩ := Prod.mk.inj (Option.some.inj called)
    exact leads_same represents address
  · by_cases old : address ∈ s.heads
    · rw [listCreate,if_neg failed,if_pos old] at called
      contradiction
    · obtain ⟨after,created,turns⟩ := listCreate_spec represents address failed old
      obtain ⟨_,rfl⟩ := Prod.mk.inj (Option.some.inj (created.symm.trans called))
      exact leads_turns turns

private theorem newitem_cases {heap grown : Heap Content} {item : Nat} {size : Int} {address copy ip : Nat}
    (made : newitem heap item size address copy = some (ip,grown)) :
    ip = 0 ∧ grown = heap ∨ address ≠ 0 ∧ address ∉ heap ∧ (size ≠ 0 → copy ≠ 0) := by
  unfold newitem at made
  split at made
  · obtain ⟨rfl,rfl⟩ := Prod.mk.inj (Option.some.inj made)
    exact Or.inl ⟨rfl,rfl⟩
  split at made
  · contradiction
  split at made
  · obtain ⟨rfl,rfl⟩ := Prod.mk.inj (Option.some.inj made)
    exact Or.inl ⟨rfl,rfl⟩
  · rename_i proper new enough
    exact Or.inr ⟨proper,new,fun copied none => enough ⟨copied,none⟩⟩

theorem add_leads (represents : Represents s listings) (lp item : Nat) (size : Int) (address copy : Nat)
    (taken : step s (.add lp item size address copy) = some next) : Leads s listings lp next := by
  obtain ⟨⟨r,_⟩,called,rfl⟩ := Option.map_eq_some_iff.mp taken
  by_cases null : lp = 0
  · simp only [listAdd,if_pos null] at called
    obtain ⟨_,rfl⟩ := Prod.mk.inj (Option.some.inj called)
    exact leads_same represents lp
  cases made : newitem s.heap item size address copy with
  | none => simp [listAdd,null,made] at called
  | some result =>
    obtain ⟨ip,grown⟩ := result
    rcases newitem_cases made with ⟨rfl,rfl⟩ | ⟨proper,new,copied⟩
    · simp only [listAdd,if_neg null,made] at called
      obtain ⟨_,rfl⟩ := Prod.mk.inj (Option.some.inj called)
      exact leads_same represents lp
    · cases held : s.heads.lookup lp with
      | none =>
        have given : ip ≠ 0 := by
          have enough : ¬ (size ≠ 0 ∧ copy = 0) := fun both => copied both.1 both.2
          rw [newitem,if_neg proper,if_neg new,if_neg enough] at made
          obtain ⟨rfl,_⟩ := Prod.mk.inj (Option.some.inj made)
          exact proper
        simp [listAdd,null,made,given,held] at called
      | some head =>
        obtain ⟨after,added,turns⟩ := listAdd_spec represents held item size address copy proper new copied
        obtain ⟨_,rfl⟩ := Prod.mk.inj (Option.some.inj (added.symm.trans called))
        exact leads_turns turns

private theorem delete_leads (represents : Represents s listings) (lp item : Nat)
    (taken : step s (.delete lp item) = some next) : Leads s listings lp next := by
  obtain ⟨⟨r,_⟩,called,rfl⟩ := Option.map_eq_some_iff.mp taken
  refine call_leads represents lp (fun null => ?_) (fun null gone => ?_) (fun head held => ?_) called
  · exact ⟨_,if_pos null⟩
  · simp [listDelete,null,gone]
  · rcases listDelete_spec represents held item with ⟨_,kept⟩ | ⟨_,after,deleted,turns⟩
    · exact ⟨_,s,kept,leads_same represents lp⟩
    · exact ⟨_,after,deleted,leads_turns turns⟩

private theorem reset_leads (represents : Represents s listings) (lp : Nat) (taken : step s (.reset lp) = some next) :
    Leads s listings lp next := by
  obtain ⟨⟨r,_⟩,called,rfl⟩ := Option.map_eq_some_iff.mp taken
  refine call_leads represents lp (fun null => ?_) (fun null gone => ?_) (fun head held => ?_) called
  · exact ⟨_,if_pos null⟩
  · simp [listReset,null,gone]
  · obtain ⟨after,reset,turns⟩ := listReset_spec represents held
    exact ⟨_,after,reset,leads_turns turns⟩

private theorem getNext_leads (represents : Represents s listings) (lp : Nat) (taken : step s (.getNext lp) = some next) :
    Leads s listings lp next := by
  obtain ⟨⟨r,_⟩,called,rfl⟩ := Option.map_eq_some_iff.mp taken
  refine call_leads represents lp (fun null => ?_) (fun null gone => ?_) (fun head held => ?_) called
  · exact ⟨_,if_pos null⟩
  · simp [listGetNext,null,gone]
  · obtain ⟨after,given,turns⟩ := listGetNext_spec represents held
    exact ⟨_,after,given,leads_turns turns⟩

theorem step_leads (represents : Represents s listings) (op : Op) (taken : step s op = some next) :
    Leads s listings op.list next := by
  cases op with
  | create address => exact create_leads represents address taken
  | add lp item size address copy => exact add_leads represents lp item size address copy taken
  | delete lp item => exact delete_leads represents lp item taken
  | reset lp => exact reset_leads represents lp taken
  | getNext lp => exact getNext_leads represents lp taken

end Steps

theorem empty_represents : Represents empty fun _ => ⟨[],[]⟩ where
  shows := fun lp head found => absurd found (by simp [empty])
  apart := fun lp _ live => absurd live (by simp [empty])
  proper := by simp [empty]

theorem run_represents (ops : List Op) (s : Store) (reached : run step empty ops = some s) :
    ∃ listings, Represents s listings := by
  refine run_invariant (fun s => ∃ listings, Represents s listings) ?_ ⟨_,empty_represents⟩ reached
  rintro s op next ⟨listings,represents⟩ taken
  obtain ⟨after,still,_⟩ := step_leads represents op taken
  exact ⟨after,still⟩

/-! Going through a list. -/

/-- What has been met of the nodes: those reached and those ahead are the ones that
are not lost. -/
structure Met (nodes : Run Content) (t : Tour) (l : Listing) : Prop where
  split : ∃ done, (nodes.filter fun node => node.1 ∉ t.lost) = done ++ l.ahead ∧
    t.reached = done.map Prod.fst ∧ t.returned = done.map fun node => node.2.item
  passed : ∀ node ∈ l.passed, node.1 ∈ t.reached

private theorem met_reset (l : Listing) : Met l.nodes {} l.reset where
  split := ⟨[],by simp [Listing.reset],rfl,rfl⟩
  passed := by simp [Listing.reset]

section Tours

variable {s : Store} {listings : Nat → Listing} {lp : Nat} {head : Head} {nodes : Run Content} {t : Tour}

private theorem met_getNext (represents : Represents s listings) (held : s.heads.lookup lp = some head)
    (items : ∀ node ∈ nodes, node.2.item ≠ 0) (met : Met nodes t (listings lp)) :
    Met nodes (meet lp s t (.getNext lp)) (listings lp).getNext := by
  obtain ⟨after,given,_⟩ := listGetNext_spec represents held
  obtain ⟨done,split,reached,returned⟩ := met.split
  rw [meet,given]
  cases ahead : (listings lp).ahead with
  | nil =>
    have same : (listings lp).getNext = listings lp := by simp [Listing.getNext,ahead]
    rw [same]
    simpa using met
  | cons node rest =>
    have inside : node ∈ nodes := by
      have part : node ∈ nodes.filter fun node => node.1 ∉ t.lost := by rw [split,ahead]; simp
      exact (List.mem_filter.mp part).1
    have here : cursor s lp = node.1 := by
      rw [cursor,held]
      show head.next = _
      rw [(represents.shows lp head held).next,ahead]
      rfl
    have moved : (listings lp).getNext = ⟨(listings lp).passed ++ [node],rest⟩ := by simp [Listing.getNext,ahead]
    rw [moved]
    simp only [List.head?_cons,Option.map_some,Option.getD_some,ne_eq,not_true,items node inside,false_or,if_false,here]
    constructor
    · exact ⟨done ++ [node],by rw [split,ahead]; simp,by simp [reached],by simp [returned]⟩
    · intro other member
      rcases List.mem_append.mp member with before | last
      · exact List.mem_append_left _ (met.passed other before)
      · obtain rfl : other = node := by simpa using last
        simp

private theorem found_eq (represents : Represents s listings) (held : s.heads.lookup lp = some head) (item : Nat) :
    found s lp item = some (first 0 ((listings lp).nodes.dropWhile fun node => !Listing.holds item node)) := by
  rw [found,held]
  exact seek_first represents held item

private theorem filter_lost {lost : List Nat} {done bs ys : Run Content} {a : Nat} {x : Content}
    (distinct : (addresses nodes).Nodup)
    (split : (nodes.filter fun node => node.1 ∉ lost) = done ++ (bs ++ (a,x) :: ys)) :
    a ∉ done.map Prod.fst ∧ (nodes.filter fun node => node.1 ∉ lost ++ [a]) = done ++ (bs ++ ys) := by
  have part : (addresses (done ++ (bs ++ (a,x) :: ys))).Nodup := by
    rw [← split]
    exact (List.filter_sublist.map Prod.fst).nodup distinct
  simp only [addresses,List.map_append,List.map_cons] at part
  obtain ⟨_,later,apart⟩ := List.nodup_append.mp part
  obtain ⟨_,last,before⟩ := List.nodup_append.mp later
  have own := (List.nodup_cons.mp last).1
  refine ⟨fun member => apart a member a (by simp) rfl,?_⟩
  have twice : (nodes.filter fun node => node.1 ∉ lost ++ [a]) =
      (nodes.filter fun node => node.1 ∉ lost).filter fun node => node.1 ≠ a := by
    rw [List.filter_filter]
    refine List.filter_congr fun node _ => ?_
    simp [and_comm]
  have keep (run : Run Content) (absent : a ∉ run.map Prod.fst) : (run.filter fun node => node.1 ≠ a) = run := by
    refine List.filter_eq_self.mpr fun node member => ?_
    have other : node.1 ≠ a := fun same => absent (same ▸ List.mem_map_of_mem member)
    simpa using other
  rw [twice,split,List.filter_append,List.filter_append,keep done fun member => apart a member a (by simp) rfl,
    keep bs fun member => before a member a List.mem_cons_self rfl]
  simpa using keep ys own

private theorem met_delete (represents : Represents s listings) (held : s.heads.lookup lp = some head)
    (distinct : (addresses nodes).Nodup) (met : Met nodes t (listings lp)) (item : Nat) :
    (∀ node ∈ (listings lp).nodes, node.2.item ≠ item) ∧ meet lp s t (.delete lp item) = t ∨
      (∃ node ∈ (listings lp).nodes, node.2.item = item) ∧
        Met nodes (meet lp s t (.delete lp item)) ((listings lp).delete item) := by
  have shows := represents.shows lp head held
  have at_ := found_eq represents held item
  rcases split_holds (listings lp).nodes item with ⟨without,dropped⟩ | ⟨xs,a,x,ys,split,without,holds,dropped⟩
  · rw [dropped] at at_
    exact Or.inl ⟨fun node member => by simpa [Listing.holds] using without node member,by simp [meet,at_]⟩
  · have inside : (a,x) ∈ (listings lp).nodes := by rw [split]; simp
    have nonzero : a ≠ 0 := by
      rintro rfl
      exact shows.nonzero (List.mem_map_of_mem inside)
    refine Or.inr ⟨⟨(a,x),inside,by simpa [Listing.holds] using holds⟩,?_⟩
    rw [dropped] at at_
    obtain ⟨done,parts,reached,returned⟩ := met.split
    rcases holder_cases split without holds with ⟨cs,passed,deleted⟩ | ⟨bs,ahead,deleted⟩
    · have seen : a ∈ t.reached := met.passed (a,x) (by rw [passed]; simp)
      rw [deleted,meet,at_]
      simp only [first_cons,ne_eq,not_true,nonzero,seen,false_or,if_true]
      refine ⟨⟨done,parts,reached,returned⟩,fun node member => met.passed node ?_⟩
      rw [passed]
      rcases List.mem_append.mp member with left | right
      · exact List.mem_append_left _ left
      · exact List.mem_append_right _ (List.mem_cons_of_mem _ right)
    · rw [ahead] at parts
      obtain ⟨unseen,rest⟩ := filter_lost distinct parts
      rw [← reached] at unseen
      rw [deleted,meet,at_]
      simp only [first_cons,ne_eq,not_true,nonzero,unseen,false_or,if_false]
      exact ⟨⟨done,rest,reached,returned⟩,met.passed⟩

private theorem meet_other {op : Op} (other : op.list ≠ lp) : meet lp s t op = t := by
  cases op with
  | create | add | reset => rfl
  | delete lq item =>
    have apart : lq ≠ lp := other
    simp only [meet]
    cases found s lp item <;> simp [apart]
  | getNext lq =>
    have apart : lq ≠ lp := other
    simp only [meet]
    cases listGetNext s lp <;> simp [apart]

theorem held_of_live (live : lp ∈ s.heads) : ∃ head, s.heads.lookup lp = some head :=
  Option.isSome_iff_exists.mp (AList.lookup_isSome.mpr live)

/-- One call on the way: on this list it is a get or a delete. -/
private theorem step_met (represents : Represents s listings) (live : lp ∈ s.heads) (distinct : (addresses nodes).Nodup)
    (items : ∀ node ∈ nodes, node.2.item ≠ 0) (met : Met nodes t (listings lp)) {op : Op} (quiet : Quiet lp op)
    {next : Store} (taken : step s op = some next) :
    ∃ after, Represents next after ∧ lp ∈ next.heads ∧ Met nodes (meet lp s t op) (after lp) := by
  obtain ⟨head,held⟩ := held_of_live live
  by_cases own : op.list = lp
  swap
  · obtain ⟨after,still,others,alive⟩ := step_leads represents op taken
    refine ⟨after,still,alive lp live,?_⟩
    rw [meet_other own,others lp (Ne.symm own)]
    exact met
  cases op with
  | create address =>
    obtain rfl : address = lp := own
    have proper := proper_of_held represents held
    simp [step,listCreate,proper,live] at taken
  | add lq => exact absurd own quiet
  | reset lq => exact absurd own quiet
  | delete lq item =>
    obtain rfl : lq = lp := own
    obtain ⟨⟨r,_⟩,called,rfl⟩ := Option.map_eq_some_iff.mp taken
    rcases met_delete represents held distinct met item with ⟨without,same⟩ | ⟨node,lost⟩
    · rcases listDelete_spec represents held item with ⟨_,kept⟩ | ⟨⟨node,member,holds⟩,_⟩
      · obtain ⟨_,rfl⟩ := Prod.mk.inj (Option.some.inj (kept.symm.trans called))
        exact ⟨listings,represents,live,by rw [same]; exact met⟩
      · exact absurd holds (without node member)
    · rcases listDelete_spec represents held item with ⟨without,_⟩ | ⟨_,after,deleted,turns⟩
      · obtain ⟨node,member,holds⟩ := node
        exact absurd holds (without node member)
      · obtain ⟨_,rfl⟩ := Prod.mk.inj (Option.some.inj (deleted.symm.trans called))
        exact ⟨_,turns.represents,turns.live lq live,by simpa using lost⟩
  | getNext lq =>
    obtain rfl : lq = lp := own
    obtain ⟨⟨r,_⟩,called,rfl⟩ := Option.map_eq_some_iff.mp taken
    obtain ⟨after,given,turns⟩ := listGetNext_spec represents held
    obtain ⟨_,rfl⟩ := Prod.mk.inj (Option.some.inj (given.symm.trans called))
    exact ⟨_,turns.represents,turns.live lq live,by simpa using met_getNext represents held items met⟩

private theorem tour_met (distinct : (addresses nodes).Nodup) (items : ∀ node ∈ nodes, node.2.item ≠ 0) (ops : List Op)
    (quiet : ∀ op ∈ ops, Quiet lp op) {t' : Tour} {last : Store} (represents : Represents s listings)
    (live : lp ∈ s.heads) (met : Met nodes t (listings lp)) (gone : tour lp s t ops = some (t',last)) :
    ∃ after, Represents last after ∧ lp ∈ last.heads ∧ Met nodes t' (after lp) := by
  induction ops generalizing s t listings with
  | nil =>
    obtain ⟨rfl,rfl⟩ := Prod.mk.inj (Option.some.inj gone)
    exact ⟨listings,represents,live,met⟩
  | cons op ops ih =>
    obtain ⟨next,taken,later⟩ := Option.bind_eq_some_iff.mp gone
    obtain ⟨after,still,alive,again⟩ :=
      step_met represents live distinct items met (quiet op List.mem_cons_self) taken
    exact ih (fun op member => quiet op (List.mem_cons_of_mem _ member)) still alive again later

private theorem iterates (represents : Represents s listings) (live : lp ∈ s.heads)
    (items : ∀ node ∈ (listings lp).nodes, node.2.item ≠ 0) : Iterates s lp (listings lp).nodes := by
  intro start ops t last item after reset quiet gone given null
  obtain ⟨head,held⟩ := held_of_live live
  have shows := represents.shows lp head held
  obtain ⟨begun,done,turns⟩ := listReset_spec represents held
  obtain ⟨_,rfl⟩ := Prod.mk.inj (Option.some.inj (done.symm.trans reset))
  have first : Met (listings lp).nodes {} (Function.update listings lp (listings lp).reset lp) := by
    simpa using met_reset (listings lp)
  obtain ⟨reached,final,alive,met⟩ :=
    tour_met shows.distinct items ops quiet turns.represents (turns.live lp live) first gone
  obtain ⟨lastHead,lastHeld⟩ := held_of_live alive
  obtain ⟨beyond,got,_⟩ := listGetNext_spec final lastHeld
  obtain ⟨same,_⟩ := Prod.mk.inj (Option.some.inj (got.symm.trans given))
  obtain ⟨done,split,addressed,returned⟩ := met.split
  have none : (reached lp).ahead = [] := by
    cases ahead : (reached lp).ahead with
    | nil => rfl
    | cons node rest =>
      have part : node ∈ (listings lp).nodes.filter fun node => node.1 ∉ t.lost := by rw [split,ahead]; simp
      rw [ahead] at same
      exact absurd (same.trans null) (items node (List.mem_filter.mp part).1)
  rw [none,List.append_nil] at split
  rw [split]
  exact ⟨returned,addressed⟩

end Tours

theorem lists_keep (ops : List Op) (s : Store) (reached : run step empty ops = some s) :
    ∃ listings, Keeps s listings := by
  obtain ⟨listings,represents⟩ := run_represents ops s reached
  refine ⟨listings,
    { represents := represents
      cursors := fun lp head held => ?_
      adds := fun lp item size address copy live proper new copied => ?_
      deletes := fun lp item live => ?_
      counts := fun lp live => ?_
      iterates := fun lp live items => iterates represents live items }⟩
  · rw [(represents.shows lp head held).next]
    rcases first_mem 0 (listings lp).ahead with ⟨zero,_⟩ | member
    · exact Or.inl zero
    · refine Or.inr ?_
      rw [Listing.nodes,addresses,List.map_append]
      exact List.mem_append_right _ member
  · obtain ⟨head,held⟩ := held_of_live live
    obtain ⟨after,added,turns⟩ := listAdd_spec represents held item size address copy proper new copied
    exact ⟨after,added,turns,Listing.nodes_add _ _⟩
  · obtain ⟨head,held⟩ := held_of_live live
    rcases listDelete_spec represents held item with without | ⟨node,after,deleted,turns⟩
    · exact Or.inl without
    · exact Or.inr ⟨node,after,deleted,turns,Listing.nodes_delete _ _⟩
  · obtain ⟨head,held⟩ := held_of_live live
    exact listCount_spec represents held

def fewCalls : List Op :=
  [.create 1,.add 1 7 0 10 0,.add 1 8 4 11 50,.create 2,.add 2 9 0 12 0,.reset 1,.getNext 1,.delete 1 50,.add 2 6 0 11 0,
    .delete 1 3,.getNext 1]

theorem lists_keep_few : ∃ s, run step empty fewCalls = some s ∧ ∃ listings, Keeps s listings := by
  have runs : (run step empty fewCalls).isSome = true := by decide
  obtain ⟨s,reached⟩ := Option.isSome_iff_exists.mp runs
  exact ⟨s,reached,lists_keep fewCalls s reached⟩

/-! A list with a null pointer in it. -/

def nullFirst : List Op := [.create 1,.add 1 0 0 10 0,.add 1 5 0 11 0]

theorem nullFirst_ends : ¬ ∀ ops s listings, run step empty ops = some s → Represents s listings →
    ∀ lp, lp ∈ s.heads → Iterates s lp (listings lp).nodes := by
  intro all
  have runs : ((run step empty nullFirst).map fun s => (s.heads.lookup 1,
      (listReset s 1).bind fun (_,start) => (listGetNext start 1).map Prod.fst)) =
        some (some ⟨10,11,10⟩,some 0) := by decide
  obtain ⟨s,reached,facts⟩ := Option.map_eq_some_iff.mp runs
  obtain ⟨held,ends⟩ := Prod.mk.inj facts
  obtain ⟨listings,represents⟩ := run_represents nullFirst s reached
  obtain ⟨⟨r,start⟩,reset,given⟩ := Option.bind_eq_some_iff.mp ends
  obtain ⟨⟨_,after⟩,got,rfl⟩ := Option.map_eq_some_iff.mp given
  obtain ⟨begun,done,_⟩ := listReset_spec represents held
  obtain ⟨rfl,_⟩ := Prod.mk.inj (Option.some.inj (done.symm.trans reset))
  have live : 1 ∈ s.heads := AList.lookup_isSome.mp (by rw [held]; rfl)
  have law := (all nullFirst s listings reached represents 1 live start [] {} start 0 after reset (by simp) rfl got rfl).2
  have first := (represents.shows 1 _ held).first
  cases nodes : (listings 1).nodes with
  | nil => simp [nodes] at first
  | cons node rest => simp [nodes] at law

end Mybmm.ListRuns
