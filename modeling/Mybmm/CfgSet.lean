import Mybmm.CfgLookup

/-! The laws of `cfg_set_item` and `cfg_get_item`: a store is a map from names and keywords,
in any letter case, to values, and setting an item changes nothing else of it. -/
namespace Mybmm.CfgSet
open CString Libc Cfg CfgLookup

/-- `cfg_set_item` with what it returns. A null value is measured before anything is stored,
which has no meaning. -/
def cfgSetItemCode (info : Option CfgInfo) (sname iname : Text) (desc ival : Option Text) :
    Option (Nat × Option CfgInfo) :=
  match info with
  | none => some (1,none)
  | some info => ival.map fun ival => (0,some (cfgSetItem info sname iname desc ival))

/-- The item behind a section name and a keyword. -/
def itemAt (info : CfgInfo) (sname iname : Text) : Option CfgItem :=
  (cfgGetSection info sname).bind fun s => getItem s (toupper iname)

/-- Old sections and items keep their order, before any new ones. -/
def Extends (old new : CfgInfo) : Prop :=
  old.sections.map CfgSection.name <+: new.sections.map CfgSection.name ∧
    ∀ (i : Nat) (s t : CfgSection), old.sections[i]? = some s → new.sections[i]? = some t →
      s.items.map CfgItem.keyword <+: t.items.map CfgItem.keyword

/-! The first element of a list that has some property. -/

private theorem updateFirst_twice {α : Type} (p : α → Bool) (f g : α → α) (keeps : ∀ a, p (f a) = p a) (l : List α) :
    updateFirst p g (updateFirst p f l) = updateFirst p (fun a => g (f a)) l := by
  induction l with
  | nil => rfl
  | cons a l ih => cases hit : p a <;> simp [updateFirst,hit,keeps,ih]

private theorem updateFirst_new {α : Type} (p : α → Bool) (f : α → α) (l : List α) (a : α) (absent : l.find? p = none)
    (here : p a = true) : updateFirst p f (l ++ [a]) = l ++ [f a] := by
  induction l with
  | nil => simp [updateFirst,here]
  | cons b l ih =>
    rw [List.find?_cons] at absent
    split at absent
    · cases absent
    · rename_i miss
      simp [updateFirst,miss,ih absent]

private theorem updateFirst_at {α : Type} (p : α → Bool) (f : α → α) (l : List α) (i : Nat) (a b : α) (old : l[i]? = some a)
    (new : (updateFirst p f l)[i]? = some b) : b = a ∨ b = f a := by
  induction l generalizing i with
  | nil => simp at old
  | cons c l ih =>
    cases hit : p c with
    | true =>
      rw [updateFirst,if_pos hit] at new
      cases i with
      | zero =>
        obtain rfl : c = a := by simpa using old
        exact Or.inr (by simpa using new.symm)
      | succ i =>
        rw [List.getElem?_cons_succ] at old new
        exact Or.inl (Option.some.inj (new.symm.trans old))
    | false =>
      rw [updateFirst,if_neg (by simp [hit])] at new
      cases i with
      | zero =>
        rw [List.getElem?_cons_zero] at old new
        exact Or.inl (Option.some.inj (new.symm.trans old))
      | succ i => exact ih i (by simpa using old) (by simpa using new)

/-! The items of a section. -/

def replaceItem (desc : Option Text) (ival : Text) (item : CfgItem) : CfgItem :=
  { item with value := ival, desc := desc.or item.desc }

private theorem setItem_held {s : CfgSection} {name : Text} {item : CfgItem} (held : getItem s name = some item)
    (desc : Option Text) (ival : Text) : setItem s name desc ival =
      { s with items := updateFirst (fun item => item.keyword == name) (replaceItem desc ival) s.items } := by
  simp only [setItem,held]
  cases desc <;> rfl

private theorem setItem_new {s : CfgSection} {name : Text} (absent : getItem s name = none)
    (fits : name.length < cfgKeywordSize)
    (desc : Option Text) (ival : Text) : setItem s name desc ival = { s with items := s.items ++ [⟨name,desc,ival⟩] } := by
  have whole : name.take (cfgKeywordSize - 1) = name := List.take_of_length_le (Nat.le_sub_one_of_lt fits)
  simp only [setItem,absent,whole]

section
variable (s : CfgSection) (name : Text) (desc : Option Text) (fits : name.length < cfgKeywordSize)
include fits

private theorem getItem_set (ival : Text) : getItem (setItem s name desc ival) name =
    some ⟨name,desc.or ((getItem s name).bind CfgItem.desc),ival⟩ := by
  cases held : getItem s name with
  | none =>
    rw [getItem] at held
    rw [setItem_new held fits,getItem,List.find?_append,held,List.find?_singleton]
    simp
  | some item =>
    have keyword : item.keyword = name := by simpa using List.find?_some held
    rw [setItem_held held,getItem,find?_updateFirst_self _ (replaceItem desc ival) fun _ => rfl]
    rw [getItem] at held
    rw [held,Option.map_some,replaceItem,keyword]
    rfl

private theorem setItem_keywords (ival : Text) :
    (setItem s name desc ival).items.map CfgItem.keyword =
      s.items.map CfgItem.keyword ++ if getItem s name = none then [name] else [] := by
  cases held : getItem s name with
  | none =>
    rw [setItem_new held fits,List.map_append,if_pos rfl]
    rfl
  | some item =>
    rw [setItem_held held,if_neg (Option.some_ne_none item),List.append_nil]
    exact map_updateFirst _ (replaceItem desc ival) _ (fun _ => rfl) _

private theorem unique_set (ival : Text) (unique : (s.items.map CfgItem.keyword).Nodup) :
    ((setItem s name desc ival).items.map CfgItem.keyword).Nodup := by
  rw [setItem_keywords s name desc fits]
  split_ifs with absent
  · refine List.Nodup.append unique (List.nodup_singleton _) ?_
    rw [List.disjoint_singleton]
    intro held
    obtain ⟨item,member,rfl⟩ := List.mem_map.mp held
    exact absurd (List.find?_eq_none.mp absent item member) (by simp)
  · rwa [List.append_nil]

private theorem setItem_twice (ival later : Text) :
    setItem (setItem s name desc ival) name desc later = setItem s name desc later := by
  have again := getItem_set s name desc fits ival
  rw [setItem_held again]
  cases held : getItem s name with
  | none =>
    rw [setItem_new held fits,setItem_new held fits,updateFirst_new _ _ _ _ held (by simp)]
    cases desc <;> rfl
  | some item =>
    rw [setItem_held held,setItem_held held,updateFirst_twice]
    · cases desc <;> rfl
    · exact fun _ => rfl

end

/-! The store. -/

private theorem cfgSetItem_held {info : CfgInfo} {sname : Text} {s : CfgSection} (held : cfgGetSection info sname = some s)
    (iname : Text) (desc : Option Text) (ival : Text) : cfgSetItem info sname iname desc ival =
      ⟨updateFirst (fun s => s.name == toupper sname) (fun s => setItem s (toupper iname) desc ival) info.sections⟩ := by
  simp only [cfgSetItem,held]

private theorem cfgSetItem_new {info : CfgInfo} {sname : Text} (absent : cfgGetSection info sname = none)
    (fits : sname.length < cfgSectionNameSize) (iname : Text) (desc : Option Text) (ival : Text) :
    cfgSetItem info sname iname desc ival =
      ⟨info.sections ++ [setItem ⟨toupper sname,[]⟩ (toupper iname) desc ival]⟩ := by
  have whole : (toupper sname).take cfgSectionNameSize = toupper sname :=
    List.take_of_length_le (by simpa [toupper] using Nat.le_of_lt fits)
  simp only [cfgSetItem,absent,cfgCreateSection,whole]

private theorem upper_fits {iname : Text} (fits : iname.length < cfgKeywordSize) :
    (toupper iname).length < cfgKeywordSize := by
  rwa [toupper,List.length_map]

section
variable (info : CfgInfo) (sname iname : Text) (desc : Option Text) (ival : Text)
  (sfits : sname.length < cfgSectionNameSize) (ifits : iname.length < cfgKeywordSize)
include sfits

private theorem section_set (n : Text) : (cfgSetItem info sname iname desc ival).sections.find? (fun s => s.name == n) =
    if toupper sname = n then
      some (setItem ((cfgGetSection info sname).getD ⟨toupper sname,[]⟩) (toupper iname) desc ival)
    else info.sections.find? fun s => s.name == n := by
  cases held : cfgGetSection info sname with
  | none =>
    rw [cfgSetItem_new held sfits,List.find?_append,List.find?_singleton,setItem_name]
    rw [cfgGetSection] at held
    by_cases same : toupper sname = n
    · rw [if_pos same,if_pos (by simp [same]),← same,held]
      rfl
    · rw [if_neg same,if_neg (by simp [same]),Option.or_none]
  | some s =>
    rw [cfgSetItem_held held]
    split_ifs with same
    · subst same
      rw [find?_updateFirst_self _ _ fun s => by rw [setItem_name]]
      rw [cfgGetSection] at held
      rw [held]
      rfl
    · refine find?_updateFirst _ _ _ info.sections fun s hit => ?_
      have name : s.name = toupper sname := by simpa using hit
      simp [name,same]

include ifits

theorem find_set (n k : Text) : find (cfgSetItem info sname iname desc ival) n k =
    if toupper sname = n ∧ toupper iname = k then some ival else find info n k := by
  rw [find,section_set info sname iname desc ival sfits]
  by_cases name : toupper sname = n
  · rw [if_pos name,Option.bind_some]
    by_cases keyword : toupper iname = k
    · rw [if_pos ⟨name,keyword⟩,← keyword,getItem_set _ _ _ (upper_fits ifits)]
      rfl
    · rw [if_neg fun both => keyword both.2,setItem_other _ _ _ _ _ (upper_fits ifits) (Ne.symm keyword),find,← name]
      cases held : cfgGetSection info sname with
      | none =>
        rw [cfgGetSection] at held
        rw [held]
        rfl
      | some s =>
        rw [cfgGetSection] at held
        rw [held]
        rfl
  · rw [if_neg name,if_neg fun both => name both.1,find]

theorem itemAt_set : itemAt (cfgSetItem info sname iname desc ival) sname iname =
    some ⟨toupper iname,desc.or ((itemAt info sname iname).bind CfgItem.desc),ival⟩ := by
  rw [itemAt,cfgGetSection,section_set info sname iname desc ival sfits,if_pos rfl,Option.bind_some,
    getItem_set _ _ _ (upper_fits ifits),itemAt]
  cases cfgGetSection info sname with
  | none => rfl
  | some s => rfl

private theorem unique_store (unique : Unique info) : Unique (cfgSetItem info sname iname desc ival) := by
  cases held : cfgGetSection info sname with
  | none =>
    rw [cfgSetItem_new held sfits]
    refine ⟨?_,fun s member => ?_⟩
    · rw [List.map_append,List.map_singleton,setItem_name]
      refine List.Nodup.append unique.names (List.nodup_singleton _) ?_
      rw [List.disjoint_singleton]
      intro member
      obtain ⟨s,inside,named⟩ := List.mem_map.mp member
      exact absurd (List.find?_eq_none.mp held s inside) (by simp [named])
    · rcases List.mem_append.mp member with old | new
      · exact unique.keywords s old
      · rw [List.mem_singleton.mp new]
        exact unique_set _ _ _ (upper_fits ifits) _ List.nodup_nil
  | some s =>
    rw [cfgSetItem_held held]
    refine ⟨?_,fun t member => ?_⟩
    · rw [map_updateFirst _ _ _ fun s => setItem_name s _ _ _]
      exact unique.names
    · rcases mem_updateFirst _ _ _ t member with old | ⟨b,inside,rfl⟩
      · exact unique.keywords t old
      · exact unique_set _ _ _ (upper_fits ifits) _ (unique.keywords b inside)

private theorem extends_set : Extends info (cfgSetItem info sname iname desc ival) := by
  have grows (s : CfgSection) : s.items.map CfgItem.keyword <+: (setItem s (toupper iname) desc ival).items.map CfgItem.keyword := by
    rw [setItem_keywords _ _ _ (upper_fits ifits)]
    exact List.prefix_append _ _
  cases held : cfgGetSection info sname with
  | none =>
    rw [cfgSetItem_new held sfits]
    refine ⟨?_,fun i s t old new => ?_⟩
    · rw [List.map_append]
      exact List.prefix_append _ _
    · have inside : i < info.sections.length := (List.getElem?_eq_some_iff.mp old).1
      rw [List.getElem?_append_left inside,old] at new
      obtain rfl := Option.some.inj new
      exact List.prefix_rfl
  | some found =>
    rw [cfgSetItem_held held]
    refine ⟨?_,fun i s t old new => ?_⟩
    · exact ⟨[],(List.append_nil _).trans (map_updateFirst _ _ _ (fun s => setItem_name s _ _ _) _).symm⟩
    · rcases updateFirst_at _ _ _ i s t old new with rfl | rfl
      · exact List.prefix_rfl
      · exact grows s

private theorem cfgSetItem_twice (sname' iname' later : Text) (sameName : toupper sname' = toupper sname)
    (sameKeyword : toupper iname' = toupper iname) :
    cfgSetItem (cfgSetItem info sname iname desc ival) sname' iname' desc later =
      cfgSetItem info sname iname desc later := by
  have again : cfgGetSection (cfgSetItem info sname iname desc ival) sname' =
      some (setItem ((cfgGetSection info sname).getD ⟨toupper sname,[]⟩) (toupper iname) desc ival) := by
    rw [cfgGetSection,section_set info sname iname desc ival sfits,if_pos sameName.symm]
  rw [cfgSetItem_held again,sameName,sameKeyword]
  cases held : cfgGetSection info sname with
  | none =>
    rw [cfgSetItem_new held sfits,cfgSetItem_new held sfits,updateFirst_new _ _ _ _ held (by simp),
      setItem_twice _ _ _ (upper_fits ifits)]
  | some s =>
    rw [cfgSetItem_held held,cfgSetItem_held held,updateFirst_twice _ _ _ fun s => by rw [setItem_name]]
    simp only [setItem_twice _ _ _ (upper_fits ifits)]

end

/-- The laws of setting an item. -/
theorem set_laws (info : CfgInfo) (unique : Unique info) (sname iname : Text) (sfits : sname.length < cfgSectionNameSize)
    (ifits : iname.length < cfgKeywordSize - 1) (desc : Option Text) (ival : Text) :
    ∃ new, cfgSetItemCode (some info) sname iname desc (some ival) = some (0,some new) ∧
      (∀ sname' iname', cfgGetItem (some new) sname' iname' =
        if toupper sname' = toupper sname ∧ toupper iname' = toupper iname then some ival
        else cfgGetItem (some info) sname' iname') ∧
      Unique new ∧ Extends info new ∧
      (∀ sname' iname' later, toupper sname' = toupper sname → toupper iname' = toupper iname →
        cfgSetItemCode (some new) sname' iname' desc (some later) =
          cfgSetItemCode (some info) sname iname desc (some later)) ∧
      (desc = none → ∀ item ∈ itemAt info sname iname,
        itemAt new sname iname = some { item with value := ival }) := by
  have fits : iname.length < cfgKeywordSize := lt_of_lt_of_le ifits (Nat.sub_le _ _)
  refine ⟨_,rfl,fun sname' iname' => ?_,unique_store info sname iname desc ival sfits fits unique,
    extends_set info sname iname desc ival sfits fits,fun sname' iname' later name keyword => ?_,?_⟩
  · rw [cfgGetItem_eq,cfgGetItem_eq,find_set info sname iname desc ival sfits fits]
    simp only [eq_comm]
  · simp only [cfgSetItemCode,Option.map_some,
      cfgSetItem_twice info sname iname desc ival sfits fits sname' iname' later name keyword]
  · rintro rfl item held
    have keyword : item.keyword = toupper iname := by
      obtain ⟨s,_,found⟩ := Option.bind_eq_some_iff.mp held
      simpa using List.find?_some found
    rw [itemAt_set info sname iname none ival sfits fits,held,← keyword]
    rfl

def stored : CfgInfo := ⟨[⟨"SI".toList,[⟨"MAX".toList,some ";limit".toList,"1".toList⟩]⟩]⟩

theorem set_stored : ∃ new, cfgSetItemCode (some stored) "si".toList "Max".toList none (some "2".toList) = some (0,some new) ∧
    Unique new ∧ itemAt new "si".toList "Max".toList = some ⟨"MAX".toList,some ";limit".toList,"2".toList⟩ := by
  obtain ⟨new,done,_,unique,_,_,kept⟩ := set_laws stored ⟨by decide,by decide⟩ "si".toList "Max".toList (by decide)
    (by decide) none "2".toList
  exact ⟨new,done,unique,kept rfl ⟨"MAX".toList,some ";limit".toList,"1".toList⟩ (by decide)⟩

end Mybmm.CfgSet
