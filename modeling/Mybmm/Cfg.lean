import Mybmm.Support.Libc

/-! The configuration store: sections of keyword and value items, looked up
without regard to case, and the tables through which a structure's fields are
read from it. A null `CFG_INFO` is `none`; allocations succeed. -/
namespace Mybmm.Cfg
open CString Libc

structure CfgItem where
  keyword : Text
  desc : Option Text
  value : Text
deriving DecidableEq, Repr

structure CfgSection where
  name : Text
  items : List CfgItem
deriving DecidableEq, Repr

structure CfgInfo where
  sections : List CfgSection
deriving DecidableEq, Repr

def cfgKeywordSize : Nat := 64

def cfgSectionNameSize : Nat := 64

def updateFirst {α : Type} (p : α → Bool) (f : α → α) : List α → List α
  | [] => []
  | a :: rest => if p a then f a :: rest else a :: updateFirst p f rest

def cfgGetSection (info : CfgInfo) (name : Text) : Option CfgSection :=
  info.sections.find? (fun s => s.name == toupper name)

def cfgCreateSection (name : Text) : CfgSection := ⟨(toupper name).take cfgSectionNameSize,[]⟩

/-- `_cfg_get_item`: the first item with that keyword. -/
def getItem (s : CfgSection) (name : Text) : Option CfgItem :=
  s.items.find? (fun item => item.keyword == name)

def cfgGetItem (info : Option CfgInfo) (sectionName keyword : Text) : Option Text := do
  let info ← info
  let s ← cfgGetSection info sectionName
  let item ← getItem s (toupper keyword)
  return item.value

/-- The item part of `cfg_set_item`: an old item keeps its place, and its
description when none is given. -/
def setItem (s : CfgSection) (name : Text) (desc : Option Text) (ival : Text) : CfgSection :=
  let replace (item : CfgItem) : CfgItem :=
    { item with value := ival, desc := desc.orElse fun _ => item.desc }
  match getItem s name with
  | some _ => { s with items := updateFirst (fun item => item.keyword == name) replace s.items }
  | none => { s with items := s.items ++ [⟨name.take (cfgKeywordSize - 1),desc,ival⟩] }

def cfgSetItem (info : CfgInfo) (sname iname : Text) (desc : Option Text) (ival : Text) : CfgInfo :=
  let assign (s : CfgSection) : CfgSection := setItem s (toupper iname) desc ival
  match cfgGetSection info sname with
  | some _ => ⟨updateFirst (fun s => s.name == toupper sname) assign info.sections⟩
  | none => ⟨info.sections ++ [assign (cfgCreateSection sname)]⟩

@[simp] theorem setItem_name (s : CfgSection) (name : Text) (desc : Option Text) (ival : Text) :
    (setItem s name desc ival).name = s.name := by
  unfold setItem
  cases getItem s name <;> rfl

theorem find?_updateFirst {α : Type} (p q : α → Bool) (f : α → α) (l : List α)
    (passed : ∀ a, p a = true → q a = false ∧ q (f a) = false) :
    (updateFirst p f l).find? q = l.find? q := by
  induction l with
  | nil => rfl
  | cons a rest ih =>
    by_cases hit : p a = true
    · obtain ⟨before,after⟩ := passed a hit
      simp [updateFirst,hit,before,after]
    · cases found : q a <;> simp [updateFirst,hit,found,ih]

theorem cfgSetItem_other (info : CfgInfo) (sname iname : Text) (desc : Option Text) (ival other keyword : Text)
    (fits : sname.length ≤ cfgSectionNameSize) (apart : toupper other ≠ toupper sname) :
    cfgGetItem (some (cfgSetItem info sname iname desc ival)) other keyword =
      cfgGetItem (some info) other keyword := by
  have same : cfgGetSection (cfgSetItem info sname iname desc ival) other = cfgGetSection info other := by
    unfold cfgSetItem
    cases cfgGetSection info sname with
    | some _ =>
      refine find?_updateFirst _ _ _ info.sections fun s hit => ?_
      have name : s.name = toupper sname := by simpa using hit
      simp [name,Ne.symm apart]
    | none =>
      have whole : (toupper sname).take cfgSectionNameSize = toupper sname :=
        List.take_of_length_le (by simpa [toupper] using fits)
      simp [cfgGetSection,List.find?_append,cfgCreateSection,whole,Ne.symm apart]
  simp only [cfgGetItem,Option.bind_eq_bind,Option.bind_some,same]

private theorem find?_updateFirst_bind {α β : Type} (p q : α → Bool) (f : α → α) (g : α → Option β) (l : List α)
    (names : ∀ a, q (f a) = q a) (reads : ∀ a, g (f a) = g a) :
    ((updateFirst p f l).find? q).bind g = (l.find? q).bind g := by
  induction l with
  | nil => rfl
  | cons a rest ih =>
    cases hit : p a <;> cases found : q a <;> simp [updateFirst,hit,found,names,reads,ih]

theorem setItem_other (s : CfgSection) (name : Text) (desc : Option Text) (ival other : Text)
    (fits : name.length < cfgKeywordSize) (apart : other ≠ name) :
    getItem (setItem s name desc ival) other = getItem s other := by
  unfold setItem
  cases held : getItem s name with
  | some _ =>
    refine find?_updateFirst _ _ _ s.items fun item hit => ?_
    have keyword : item.keyword = name := by simpa using hit
    simp [keyword,Ne.symm apart]
  | none =>
    have whole : name.take (cfgKeywordSize - 1) = name := List.take_of_length_le (by omega)
    simp [getItem,List.find?_append,whole,Ne.symm apart]

/-- Setting an item, in whatever section, leaves items with other keywords alone. -/
theorem cfgSetItem_keyword (info : CfgInfo) (sname iname : Text) (desc : Option Text) (ival name keyword : Text)
    (fits : iname.length < cfgKeywordSize) (apart : toupper keyword ≠ toupper iname) :
    cfgGetItem (some (cfgSetItem info sname iname desc ival)) name keyword =
      cfgGetItem (some info) name keyword := by
  have reads (s : CfgSection) : getItem (setItem s (toupper iname) desc ival) (toupper keyword) =
      getItem s (toupper keyword) := setItem_other s _ desc ival _ (by simpa [toupper] using fits) apart
  simp only [cfgGetItem,Option.bind_eq_bind,Option.bind_some,cfgGetSection,cfgSetItem]
  cases info.sections.find? fun s => s.name == toupper sname with
  | some _ =>
    refine find?_updateFirst_bind _ _ _ _ info.sections (fun s => by rw [setItem_name]) fun s => ?_
    rw [reads]
  | none =>
    rw [List.find?_append]
    cases info.sections.find? fun s => s.name == toupper name with
    | some s => rfl
    | none =>
      cases named : (setItem (cfgCreateSection sname) (toupper iname) desc ival).name == toupper name with
      | false => simp only [List.find?_cons,named,List.find?_nil,Option.none_or]
      | true =>
        simp only [Option.none_or,List.find?_cons,named,Option.bind_some,reads,Option.bind_none]
        rfl

/-! Tables of options: where a structure keeps each one, and its default. -/

/-- A destination in a structure. Strings share the structure's text memory,
at the offset and with the size of their array. -/
inductive Dest (σ : Type) where
  | int (put : Int → σ → σ)
  | float (put : ℚ → σ → σ)
  | logical (put : Int → σ → σ)
  | string (memory : (Memory → Memory) → σ → σ) (offset dlen : Nat)

structure Proctab (σ : Type) where
  sectionName : Text
  keyword : Text
  dest : Dest σ
  default : Option Text

/-- `conv_type` from a string. A string destination receives as much as its
array holds, and after it the terminator. -/
def convType {σ : Type} (dest : Dest σ) (src : Text) (s : σ) : σ :=
  match dest with
  | .int put => put (atoi src) s
  | .float put => put (atof src) s
  | .logical put =>
    let temp := tolower src
    put (if temp = "yes".toList ∨ temp = "true".toList ∨ temp = "1".toList then 1 else 0) s
  | .string memory offset dlen => memory (fun m => strcpy m offset (src.take dlen)) s

/-- What one entry does: its value, or else its default, or else nothing. -/
def cfgGetEntry {σ : Type} (info : Option CfgInfo) (entry : Proctab σ) (s : σ) : σ :=
  match cfgGetItem info entry.sectionName entry.keyword with
  | some p => convType entry.dest p s
  | none =>
    match entry.default with
    | some p => convType entry.dest p s
    | none => s

def cfgGetTab {σ : Type} (info : Option CfgInfo) (tab : List (Proctab σ)) (s : σ) : σ :=
  tab.foldl (fun s entry => cfgGetEntry info entry s) s

@[simp] theorem cfgGetTab_nil {σ : Type} (info : Option CfgInfo) (s : σ) : cfgGetTab info [] s = s := rfl

@[simp] theorem cfgGetTab_cons {σ : Type} (info : Option CfgInfo) (entry : Proctab σ)
    (tab : List (Proctab σ)) (s : σ) :
    cfgGetTab info (entry :: tab) s = cfgGetTab info tab (cfgGetEntry info entry s) := rfl

theorem cfgGetTab_congr {σ : Type} {a b : Option CfgInfo} (tab : List (Proctab σ)) (s : σ)
    (same : ∀ entry ∈ tab, cfgGetItem a entry.sectionName entry.keyword =
      cfgGetItem b entry.sectionName entry.keyword) : cfgGetTab a tab s = cfgGetTab b tab s := by
  induction tab generalizing s with
  | nil => rfl
  | cons entry tab ih =>
    have head : cfgGetEntry a entry s = cfgGetEntry b entry s := by
      simp only [cfgGetEntry,same entry (by simp)]
    rw [cfgGetTab_cons,cfgGetTab_cons,head]
    exact ih _ fun e member => same e (by simp [member])

theorem cfgGetTab_keeps {σ β : Type} (g : σ → β) (info : Option CfgInfo) (tab : List (Proctab σ)) (s : σ)
    (outside : ∀ entry ∈ tab, ∀ src s, g (convType entry.dest src s) = g s) :
    g (cfgGetTab info tab s) = g s := by
  induction tab generalizing s with
  | nil => rfl
  | cons entry tab ih =>
    have head : g (cfgGetEntry info entry s) = g s := by
      unfold cfgGetEntry
      split
      · exact outside entry (by simp) _ s
      · split
        · exact outside entry (by simp) _ s
        · rfl
    rw [cfgGetTab_cons,ih _ fun e member => outside e (by simp [member]),head]

private theorem cfgGetEntry_default {σ : Type} (info : Option CfgInfo) (sectionName keyword : Text)
    (dest : Dest σ) (p : Text) (s : σ) :
    cfgGetEntry info ⟨sectionName,keyword,dest,some p⟩ s =
      convType dest ((cfgGetItem info sectionName keyword).getD p) s := by
  unfold cfgGetEntry
  cases cfgGetItem info sectionName keyword <;> rfl

theorem cfgGetTab_defaults {σ : Type} (info : Option CfgInfo) (tab : List (Proctab σ)) (s : σ)
    (covered : ∀ entry ∈ tab, entry.default.isSome) :
    cfgGetTab info tab s = tab.foldl (fun s entry =>
      convType entry.dest ((cfgGetItem info entry.sectionName entry.keyword).getD (entry.default.getD [])) s) s := by
  induction tab generalizing s with
  | nil => rfl
  | cons entry tab ih =>
    obtain ⟨p,default⟩ := Option.isSome_iff_exists.mp (covered entry (by simp))
    have head : cfgGetEntry info entry s =
        convType entry.dest ((cfgGetItem info entry.sectionName entry.keyword).getD (entry.default.getD [])) s := by
      rw [default,Option.getD_some,← cfgGetEntry_default,← default]
    rw [cfgGetTab_cons,List.foldl_cons,head]
    exact ih _ fun e member => covered e (by simp [member])

end Mybmm.Cfg
