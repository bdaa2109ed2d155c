import Mybmm.Uuid
import Mybmm.CfgRoundTrip
import Mybmm.CfgSet
import Mybmm.PackRegistry

/-! What names an inverter and a pack from one start of the program to the next: a section
without a UUID is given one, and the file is written with it. -/
namespace Mybmm.Identity
open CString Libc Cfg CfgFile CfgRoundTrip CfgLookup CfgSet Config Flags Modules Inverters Packs Reconfig FreshStart
open PackLoading Uuid Attempt

/-! One section. -/

/-- The section has a UUID that is not empty. -/
def Identified (cfg : Option CfgInfo) (name last : Text) (text : Memory) : Prop :=
  cstr (named name (cfgGetTab cfg (textTab name last) text)) 32 (textSize - 32) ≠ []

instance (cfg : Option CfgInfo) (name last : Text) (text : Memory) : Decidable (Identified cfg name last text) :=
  inferInstanceAs (Decidable (_ ≠ _))

def tabConf (env : Env) (name last : Text) (text : Memory) (conf : Conf) : Conf :=
  if Identified conf.cfg name last text then conf else keepUuid name (env.uuid name) conf

private theorem cstr_strcpy {m : Memory} {off room : Nat} {s : Text} (plain : nul ∉ s) (fits : s.length < room) :
    cstr (strcpy m off s) off room = s := 
  cstr_textFrom (textFrom_iff.mpr ⟨fits,plain,lies_store⟩)

theorem getTab_eq {env : Env} {name : Text} (plain : nul ∉ env.uuid name) (last : Text) (text : Memory) (conf : Conf) :
    getTab env name last text conf = (some (tabText env conf.cfg name last text),tabConf env name last text conf) := by
  have length := env.uuid_length name
  have uuid (m : Memory) : cstr (strcpy m 32 (env.uuid name)) 32 (textSize - 32) = env.uuid name :=
    cstr_strcpy plain (by rw [length]; decide)
  have read : gets Conf.cfg conf = (some conf.cfg,conf) := rfl
  rw [getTab,bind_done read]
  dsimp only [tabText]
  split
  · rename_i identified
    rw [tabConf,if_pos (show Identified conf.cfg name last text from identified)]
    rfl
  · rename_i new
    rw [tabConf,if_neg (show ¬ Identified conf.cfg name last text from new),uuid]
    rfl

/-- What the items of a section have become once it has its UUID. -/
structure Marked (env : Env) (cfg : Option CfgInfo) (name last : Text) (text : Memory) (after : Option CfgInfo) :
    Prop where
  others : ∀ keyword, toupper keyword ≠ toupper "uuid".toList →
    cfgGetItem after name keyword = cfgGetItem cfg name keyword
  uuid : cfgGetItem after name "uuid".toList =
    if Identified cfg name last text then cfgGetItem cfg name "uuid".toList else some (env.uuid name)

private theorem cfgGetItem_set {info : CfgInfo} {name keyword ival : Text} (fits : name.length < cfgSectionNameSize)
    (fits' : keyword.length < cfgKeywordSize) :
    cfgGetItem (some (cfgSetItem info name keyword none ival)) name keyword = some ival := by
  have item := itemAt_set info name keyword none ival fits fits'
  simp only [itemAt] at item
  simp only [cfgGetItem,Option.bind_eq_bind,Option.bind_some]
  obtain ⟨s,found,item⟩ := Option.bind_eq_some_iff.mp item
  rw [found,Option.bind_some,item]
  rfl

theorem tabConf_marked (env : Env) {name : Text} (last : Text) (text : Memory) {conf : Conf}
    (fits : name.length < cfgSectionNameSize) (some : conf.cfg.isSome = true) :
    Marked env conf.cfg name last text (tabConf env name last text conf).cfg := by
  obtain ⟨info,cfg⟩ := Option.isSome_iff_exists.mp some
  unfold tabConf
  split_ifs with identified
  · exact ⟨fun _ _ => rfl,(if_pos identified).symm⟩
  · rw [cfg] at identified
    rw [keepUuid_cfg,cfg]
    refine ⟨fun keyword apart => ?_,?_⟩
    · exact cfgSetItem_keyword info name _ none _ name keyword (by decide) apart
    · rw [if_neg identified]
      exact cfgGetItem_set fits (by decide)

/-! The texts of a section that has its UUID. -/

private theorem getEntry_below {cfg : Option CfgInfo} {entry : Proctab Memory} {k offset dlen i : Nat} (m : Memory)
    (texts : entry.dest = .string (fun f => f) offset dlen) (behind : k ≤ offset) (below : i < k) :
    cfgGetEntry cfg entry m i = m i := by
  have written (src : Text) : convType entry.dest src m i = m i := by
    rw [texts]
    exact strcpy_before m offset _ i (by omega)
  unfold cfgGetEntry
  cases cfgGetItem cfg entry.sectionName entry.keyword with
  | some p => exact written p
  | none =>
    cases entry.default with
    | some p => exact written p
    | none => rfl

private theorem getTab_below {cfg : Option CfgInfo} {tab : List (Proctab Memory)} {k i : Nat} (m : Memory)
    (behind : ∀ entry ∈ tab, ∃ offset dlen, entry.dest = .string (fun f => f) offset dlen ∧ k ≤ offset) (below : i < k) :
    cfgGetTab cfg tab m i = m i := by
  induction tab generalizing m with
  | nil => rfl
  | cons entry tab ih =>
    obtain ⟨⟨offset,dlen,texts,bound⟩,rest⟩ := List.forall_mem_cons.mp behind
    rw [cfgGetTab_cons,ih _ rest,getEntry_below m texts bound below]

private theorem named_behind (m : Memory) {name : Text} (short : name.length < 32) {i : Nat} (behind : 32 ≤ i) :
    named name m i = m i := by
  unfold named
  split_ifs
  · exact strcpy_after m 0 name i (by omega)
  · rfl

private theorem named_below {m n : Memory} (name : Text) (same : ∀ i < 32, m i = n i) : ∀ i < 32, named name m i =
    named name n i := by
  intro i below
  have first : cstr m 0 textSize = [] ↔ cstr n 0 textSize = [] := by
    rw [textSize,cstr_eq_nil_iff,cstr_eq_nil_iff,same 0 (by decide)]
  unfold named
  by_cases missing : cstr m 0 textSize = []
  · rw [if_pos missing,if_pos (first.mp missing)]
    exact strcpy_congr m n 0 name i (same i below)
  · rw [if_neg missing,if_neg (mt first.mpr missing)]
    exact same i below

def tabBehind (name last : Text) : List (Proctab Memory) := (textTab name last).drop 3

def beforeType (cfg : Option CfgInfo) (name : Text) (text : Memory) : Memory :=
  cfgGetTab cfg [⟨name,"name".toList,.string (fun f => f) 0 32,none⟩,⟨name,"uuid".toList,.string (fun f => f) 32 37,none⟩] text

private theorem getTab_parts (cfg : Option CfgInfo) (name last : Text) (text : Memory) :
    cfgGetTab cfg (textTab name last) text =
    cfgGetTab cfg (tabBehind name last)
      (cfgGetEntry cfg ⟨name,"type".toList,.string (fun f => f) 69 32,none⟩ (beforeType cfg name text)) := rfl

private theorem tabBehind_texts (name last : Text) : ∀ entry ∈ tabBehind name last,
    ∃ offset dlen, entry.dest = .string (fun f => f) offset dlen ∧ 69 ≤ offset := by
  simp only [tabBehind,textTab,List.drop_succ_cons,List.drop_zero,List.forall_mem_cons]
  exact ⟨⟨_,_,rfl,by decide⟩,⟨_,_,rfl,by decide⟩,⟨_,_,rfl,by decide⟩,List.forall_mem_nil _⟩

private theorem tabBehind_keywords {name last : Text} (other : toupper last ≠ toupper "uuid".toList) :
    ∀ entry ∈ tabBehind name last, entry.sectionName = name ∧ toupper entry.keyword ≠ toupper "uuid".toList := by
  simp only [tabBehind,textTab,List.drop_succ_cons,List.drop_zero,List.forall_mem_cons]
  exact ⟨⟨trivial,by decide⟩,⟨trivial,by decide⟩,⟨trivial,other⟩,List.forall_mem_nil _⟩

private theorem getTab_front (cfg : Option CfgInfo) (name last : Text) (text : Memory) {i : Nat} (front : i < 69) :
    cfgGetTab cfg (textTab name last) text i = beforeType cfg name text i := by
  rw [getTab_parts,getTab_below _ (tabBehind_texts name last) front,
    getEntry_below (beforeType cfg name text) rfl le_rfl front]

/-- A section that was given a UUID reads as it read then, with the UUID in its place. -/
private theorem named_marked {env : Env} {a b : Option CfgInfo} {name last : Text} {text : Memory}
    (marked : Marked env a name last text b) (other : toupper last ≠ toupper "uuid".toList) (short : name.length < 32)
    (typed : cfgGetItem a name "type".toList ≠ none) (new : ¬ Identified a name last text) :
    named name (cfgGetTab b (textTab name last) text) =
      strcpy (named name (cfgGetTab a (textTab name last) text)) 32 (env.uuid name) := by
  have length := env.uuid_length name
  have given : cfgGetItem b name "uuid".toList = some (env.uuid name) := by rw [marked.uuid,if_neg new]
  have first : cfgGetItem b name "name".toList = cfgGetItem a name "name".toList := marked.others _ (by decide)
  have type : cfgGetItem b name "type".toList = cfgGetItem a name "type".toList := marked.others _ (by decide)
  have whole : (env.uuid name).take 37 = env.uuid name := List.take_of_length_le (by omega)
  let start (cfg : Option CfgInfo) : Memory :=
    cfgGetEntry cfg ⟨name,"name".toList,.string (fun f => f) 0 32,none⟩ text
  have starts : start b = start a := by simp only [start,cfgGetEntry,first]
  have before : beforeType b name text = strcpy (start a) 32 (env.uuid name) := by
    rw [← starts,← whole]
    simp only [beforeType,cfgGetTab_cons,cfgGetTab_nil]
    rw [cfgGetEntry,given]
    rfl
  have before' (i : Nat) (past : 70 ≤ i) : beforeType a name text i = start a i := by
    simp only [beforeType,cfgGetTab_cons,cfgGetTab_nil]
    rw [cfgGetEntry]
    cases cfgGetItem a name "uuid".toList with
    | none => rfl
    | some src =>
      refine strcpy_after _ 32 _ i ?_
      have bound := List.length_take_le 37 src
      omega
  have below (i : Nat) (low : i < 32) : cfgGetTab b (textTab name last) text i = cfgGetTab a (textTab name last) text i := by
    rw [getTab_front b _ _ _ (by omega),getTab_front a _ _ _ (by omega),before,strcpy_before _ _ _ _ low]
    exact (getEntry_below (start a) rfl le_rfl low).symm
  obtain ⟨t,present⟩ := Option.ne_none_iff_exists'.mp typed
  have past (i : Nat) (behind : 69 ≤ i) :
      cfgGetTab b (textTab name last) text i = cfgGetTab a (textTab name last) text i := by
    rw [getTab_parts,getTab_parts]
    refine cfgGetTab_past _ _ _ 69 _ _ (fun entry member => ?_) (fun entry member => ?_) (fun i behind => ?_) i behind
    · obtain ⟨offset,dlen,same,_⟩ := tabBehind_texts name last entry member
      exact ⟨offset,dlen,same⟩
    · obtain ⟨own,apart⟩ := tabBehind_keywords other entry member
      rw [own]
      exact marked.others _ apart
    · rw [cfgGetEntry,cfgGetEntry,type,present]
      change strcpy _ 69 (t.take 32) i = strcpy _ 69 (t.take 32) i
      rcases Nat.eq_or_lt_of_le behind with rfl | later
      · exact strcpy_within _ _ 69 (t.take 32) 0 (Nat.zero_le _)
      · apply strcpy_congr
        rw [before,strcpy_after _ _ _ _ (by omega),before' i later]
  funext i
  rcases Nat.lt_or_ge i 32 with low | behind
  · rw [strcpy_before _ _ _ _ low]
    exact named_below name below i low
  · rw [named_behind _ short behind]
    rcases Nat.lt_or_ge i 69 with inside | later
    · obtain ⟨k,rfl⟩ := Nat.exists_eq_add_of_le behind
      rw [getTab_front b _ _ _ inside,before]
      exact strcpy_within _ _ 32 _ k (by omega)
    · rw [past i later,strcpy_after _ _ _ _ (by omega),named_behind _ short behind]

/-- Whatever made the UUID that it has, the section reads alike from then on. -/
theorem tabText_marked {env : Env} {a b : Option CfgInfo} {name last : Text} {text : Memory}
    (marked : Marked env a name last text b) (other : toupper last ≠ toupper "uuid".toList) (short : name.length < 32)
    (typed : cfgGetItem a name "type".toList ≠ none) (plain : nul ∉ env.uuid name) :
    Identified b name last text ∧ ∀ env' : Env, tabText env' b name last text = tabText env a name last text := by
  by_cases old : Identified a name last text
  · have items (keyword : Text) (same : toupper keyword ≠ toupper "uuid".toList ∨ keyword = "uuid".toList) :
        cfgGetItem b name keyword = cfgGetItem a name keyword := by
      rcases same with apart | rfl
      · exact marked.others _ apart
      · rw [marked.uuid,if_pos old]
    have reads : cfgGetTab b (textTab name last) text = cfgGetTab a (textTab name last) text := by
      refine cfgGetTab_congr _ _ fun entry member => ?_
      rw [textTab_own name last entry member]
      apply items
      simp only [textTab,List.mem_cons,List.not_mem_nil,or_false] at member
      rcases member with rfl | rfl | rfl | rfl | rfl | rfl
      · exact Or.inl (show toupper "name".toList ≠ _ by decide)
      · exact Or.inr rfl
      · exact Or.inl (show toupper "type".toList ≠ _ by decide)
      · exact Or.inl (show toupper "transport".toList ≠ _ by decide)
      · exact Or.inl (show toupper "target".toList ≠ _ by decide)
      · exact Or.inl other
    refine ⟨by rwa [Identified,reads],fun env' => ?_⟩
    rw [Identified] at old
    simp only [tabText,reads]
    rw [if_pos old,if_pos old]
  · have reads := named_marked marked other short typed old
    have length := env.uuid_length name
    have uuid : cstr (named name (cfgGetTab b (textTab name last) text)) 32 (textSize - 32) = env.uuid name := by
      rw [reads]
      exact cstr_strcpy plain (by rw [length]; decide)
    have some : cstr (named name (cfgGetTab b (textTab name last) text)) 32 (textSize - 32) ≠ [] := by
      rw [uuid]
      exact List.ne_nil_of_length_pos (by omega)
    refine ⟨some,fun env' => ?_⟩
    rw [Identified] at old
    simp only [tabText]
    rw [if_pos some,if_neg old,reads]

end Mybmm.Identity
