import Mathlib.Data.List.Forall2
import Mybmm.CfgFile

/-! Reading back what was written: every line of the writer is its own line again,
and the parser rebuilds one section after the other, item by item. -/
namespace Mybmm.CfgRoundTrip
open CString Libc Cfg CfgFile

structure WritableItem (item : CfgItem) : Prop where
  upper : toupper item.keyword = item.keyword
  trimmed : trim item.keyword = item.keyword
  size : item.keyword.length ≤ 63
  keyword : ∀ c ∈ item.keyword, Plain c ∧ c ≠ '='
  start : ∀ c ∈ item.keyword.head?, c ≠ '[' ∧ c ≠ ';' ∧ c ≠ '#'
  value : ∀ c ∈ item.value, Plain c
  valueEnd : item.value.rdropWhile isspace = item.value
  fits : (item.keyword ++ '=' :: item.value).length ≤ 1021
  desc : ∀ desc ∈ item.desc, (∀ c ∈ desc, Plain c) ∧ strip desc = desc ∧ (commented desc).length ≤ 1021

structure WritableSection (s : CfgSection) : Prop where
  upper : toupper s.name = s.name
  size : s.name.length ≤ 63
  name : ∀ c ∈ s.name, Plain c ∧ c ≠ ']'
  items : ∀ item ∈ s.items, WritableItem item
  unique : (s.items.map CfgItem.keyword).Nodup

structure Writable (info : CfgInfo) : Prop where
  sections : ∀ s ∈ info.sections, WritableSection s
  unique : (info.sections.map CfgSection.name).Nodup

/-- The same item, its description up to a leading `;`. -/
structure SameItem (a b : CfgItem) : Prop where
  keyword : b.keyword = a.keyword
  value : b.value = a.value
  desc : Option.Rel (fun old new => new = old ∨ new = ';' :: old) a.desc b.desc

structure SameSection (a b : CfgSection) : Prop where
  name : b.name = a.name
  items : List.Forall₂ SameItem a.items b.items

/-! The lines. -/

structure Clean (line : Text) : Prop where
  plain : ∀ c ∈ line, Plain c
  stripped : strip line = line
  fits : line.length ≤ 1021

private theorem readLines_written (lines : List Text) (clean : ∀ line ∈ lines, Clean line) :
    readLines (lines.flatMap fun line => line ++ ['\n']) = lines ++ [[]] := by
  induction lines with
  | nil => exact readLines_last [] (by simp) (by simp)
  | cons line lines ih =>
    have first := clean line (by simp)
    rw [List.flatMap_cons,List.append_assoc,List.singleton_append,readLines_line line _ first.plain first.fits,
      first.stripped,ih fun l held => clean l (by simp [held]),List.cons_append]

private theorem strip_ends {line : Text} (start : ∀ c ∈ line.head?, isspace c = false)
    (ends : line.rdropWhile isspace = line) : strip line = line := by
  cases line with
  | nil => rfl
  | cons c line => rw [strip,List.dropWhile_cons_of_neg (by simp [start c rfl]),ends]

private theorem rdropWhile_append (a b : Text) (filled : b ≠ []) (ends : b.rdropWhile isspace = b) :
    (a ++ b).rdropWhile isspace = a ++ b := by
  rw [List.rdropWhile_eq_self_iff] at ends ⊢
  intro both
  rw [List.getLast_append_of_ne_nil both filled]
  exact ends filled

private theorem clean_commented {desc : Text} (plain : ∀ c ∈ desc, Plain c) (stripped : strip desc = desc)
    (fits : (commented desc).length ≤ 1021) : Clean (commented desc) := by
  have ends : desc.rdropWhile isspace = desc := by
    rw [← stripped,strip]
    exact List.rdropWhile_idempotent _ _
  refine { plain := ?_, stripped := ?_, fits := fits }
  · unfold commented
    split_ifs
    · exact plain
    · intro c held
      rcases List.mem_cons.mp held with rfl | inside
      · decide
      · exact plain c inside
  · unfold commented
    split_ifs with marked
    · exact stripped
    · refine strip_ends (by simp [isspace]) ?_
      cases desc with
      | nil => decide
      | cons c desc => exact rdropWhile_append [';'] (c :: desc) (by simp) ends

private theorem trim_head {keyword : Text} (trimmed : trim keyword = keyword) (c : Char) (first : c ∈ keyword.head?) :
    isspace c = false := by
  cases keyword with
  | nil => simp at first
  | cons d keyword =>
    obtain rfl : d = c := by simpa using first
    by_contra blank
    rw [Bool.not_eq_false] at blank
    have shorter : (trim (d :: keyword)).length ≤ keyword.length := by
      rw [trim,List.dropWhile_cons_of_pos (by simp [blank])]
      exact (List.rdropWhile_prefix _ _).length_le.trans (List.dropWhile_suffix _).length_le
    rw [trimmed,List.length_cons] at shorter
    omega

private theorem clean_item {item : CfgItem} (writable : WritableItem item) : Clean (item.keyword ++ '=' :: item.value) := by
  refine { plain := ?_, stripped := ?_, fits := writable.fits }
  · intro c held
    rw [List.mem_append,List.mem_cons] at held
    rcases held with key | rfl | value
    · exact (writable.keyword c key).1
    · decide
    · exact writable.value c value
  · refine strip_ends ?_ (rdropWhile_append _ _ (by simp) ?_)
    · have first := trim_head writable.trimmed
      cases key : item.keyword with
      | nil => simp [isspace]
      | cons c keyword =>
        rw [key] at first
        simpa using first
    · cases value : item.value with
      | nil => decide
      | cons c rest =>
        have ends := writable.valueEnd
        rw [value] at ends
        exact rdropWhile_append ['='] (c :: rest) (by simp) ends

private theorem clean_itemLines {item : CfgItem} (writable : WritableItem item) : ∀ line ∈ itemLines item, Clean line := by
  intro line held
  have last := clean_item writable
  unfold itemLines at held
  cases desc : item.desc with
  | none =>
    rw [desc,List.nil_append,List.mem_singleton] at held
    exact held ▸ last
  | some d =>
    rw [desc,List.singleton_append,List.mem_cons,List.mem_singleton] at held
    obtain ⟨plain,stripped,fits⟩ := writable.desc d desc
    rcases held with rfl | rfl
    · exact clean_commented plain stripped fits
    · exact last

private theorem clean_sectionLines {s : CfgSection} (writable : WritableSection s) :
    ∀ line ∈ sectionLines s, Clean line := by
  intro line held
  simp only [sectionLines,List.cons_append,List.mem_cons,List.mem_append,List.mem_flatMap,List.not_mem_nil,
    or_false] at held
  rcases held with rfl | ⟨item,member,inside⟩ | rfl
  · refine { plain := ?_, stripped := ?_, fits := ?_ }
    · intro c held
      simp only [List.mem_cons,List.mem_append,List.not_mem_nil,or_false] at held
      rcases held with rfl | name | rfl
      · decide
      · exact (writable.name c name).1
      · decide
    · exact strip_ends (by simp [isspace]) (rdropWhile_append ('[' :: s.name) [']'] (by simp) (by decide))
    · have := writable.size
      simp
      omega
  · exact clean_itemLines (writable.items item member) line inside
  · exact { plain := by simp, stripped := rfl, fits := by simp }

/-! The parser over them. -/

def storedItem (item : CfgItem) : CfgItem := { item with desc := item.desc.map commented }

def stored (s : CfgSection) : CfgSection := { s with items := s.items.map storedItem }

private theorem headerName_written {s : CfgSection} (writable : WritableSection s) :
    headerName ('[' :: s.name ++ [']']) = some s.name := by
  have inside : (s.name ++ [']']).takeWhile (· ≠ ']') = s.name := by
    rw [List.takeWhile_append_of_pos fun c held => by simpa using (writable.name c held).2]
    simp
  have size := writable.size
  rw [List.cons_append,headerName,if_pos (by simp),inside,List.take_of_length_le (by simpa [cfgSectionNameSize] using size),
    writable.upper]

private theorem keywordValue_written {item : CfgItem} (writable : WritableItem item) :
    keywordValue (item.keyword ++ '=' :: item.value) = some (item.keyword,item.value) := by
  have key : (item.keyword ++ '=' :: item.value).takeWhile (· ≠ '=') = item.keyword := by
    rw [List.takeWhile_append_of_pos fun c held => by simpa using (writable.keyword c held).2]
    simp
  have x : min (cfgKeywordSize - 1) item.keyword.length = item.keyword.length := Nat.min_eq_right writable.size
  have room : item.keyword.length < (item.keyword ++ '=' :: item.value).length := by
    simp only [List.length_append,List.length_cons]
    omega
  simp only [keywordValue,key,x,if_pos room,List.take_left,writable.upper,writable.trimmed,List.drop_append]
  simp

private theorem line_other {item : CfgItem} (writable : WritableItem item) :
    item.keyword ++ '=' :: item.value ≠ [] ∧ headerName (item.keyword ++ '=' :: item.value) = none ∧
      isComment (item.keyword ++ '=' :: item.value) = false := by
  refine ⟨by simp,?_⟩
  have start := writable.start
  cases key : item.keyword with
  | nil => simp [headerName,isComment]
  | cons c keyword =>
    rw [key] at start
    obtain ⟨bracket,semi,hash⟩ := start c rfl
    simp [headerName,isComment,bracket,semi,hash]

private theorem comment_other (desc : Text) : commented desc ≠ [] ∧ headerName (commented desc) = none ∧
    isComment (commented desc) = true := by
  unfold commented
  split_ifs with marked
  · cases desc with
    | nil => simp at marked
    | cons c desc =>
      obtain rfl : c = ';' := by simpa using marked
      simp [headerName,isComment]
  · simp [headerName,isComment]

private theorem assign_last (done : List CfgSection) (name : Text) (items : List CfgItem) (item : CfgItem)
    (fresh : name ∉ done.map CfgSection.name) (new : item.keyword ∉ items.map CfgItem.keyword) :
    assignItem name item ⟨done ++ [⟨name,items⟩]⟩ = ⟨done ++ [⟨name,items ++ [item]⟩]⟩ := by
  have kept : items.eraseP (fun old => old.keyword == item.keyword) = items :=
    List.eraseP_of_forall_not fun old held => by
      simpa using fun same : old.keyword = item.keyword => new (List.mem_map.mpr ⟨old,held,same⟩)
  unfold assignItem
  congr 1
  induction done with
  | nil => simp [updateFirst,addItem,kept]
  | cons s done ih =>
    rw [List.map_cons,List.mem_cons,not_or] at fresh
    have other : ¬ s.name = name := Ne.symm fresh.1
    simp [updateFirst,other,ih fresh.2]

private theorem read_item (done : List CfgSection) (name : Text) (items : List CfgItem) (item : CfgItem)
    (writable : WritableItem item) (fresh : name ∉ done.map CfgSection.name)
    (new : item.keyword ∉ items.map CfgItem.keyword) :
    (itemLines item).foldlM cfgReadLine ⟨⟨done ++ [⟨name,items⟩]⟩,some name,[]⟩ =
      some ⟨⟨done ++ [⟨name,items ++ [storedItem item]⟩]⟩,some name,[]⟩ := by
  obtain ⟨filled,other,plain⟩ := line_other writable
  have assigned := assign_last done name items (storedItem item) fresh new
  have reads := keywordValue_written writable
  cases desc : item.desc with
  | none =>
    have made : storedItem item = ⟨item.keyword,none,item.value⟩ := by simp [storedItem,desc]
    rw [itemLines,desc,List.nil_append,List.foldlM_cons,readLine_item filled other rfl plain reads,if_pos rfl,← made,
      assigned]
    rfl
  | some d =>
    have fits := (writable.desc d desc).2.2
    obtain ⟨marked,noHeader,comment⟩ := comment_other d
    have made : storedItem item = ⟨item.keyword,some (commented d),item.value⟩ := by simp [storedItem,desc]
    have whole : (commented d).take 1023 = commented d := List.take_of_length_le (by omega)
    rw [itemLines,desc,List.singleton_append,List.foldlM_cons,readLine_comment marked noHeader rfl comment,whole]
    simp only [Option.bind_eq_bind,Option.bind_some]
    rw [List.foldlM_cons,readLine_item filled other rfl plain reads,if_neg marked,← made,assigned]
    rfl

private theorem read_items (done : List CfgSection) (name : Text) (earlier items : List CfgItem)
    (writable : ∀ item ∈ items, WritableItem item) (fresh : name ∉ done.map CfgSection.name)
    (unique : ((earlier ++ items).map CfgItem.keyword).Nodup) :
    (items.flatMap itemLines).foldlM cfgReadLine ⟨⟨done ++ [⟨name,earlier.map storedItem⟩]⟩,some name,[]⟩ =
      some ⟨⟨done ++ [⟨name,(earlier ++ items).map storedItem⟩]⟩,some name,[]⟩ := by
  induction items generalizing earlier with
  | nil => simp
  | cons item items ih =>
    have new : item.keyword ∉ (earlier.map storedItem).map CfgItem.keyword := by
      rw [List.map_append,List.map_cons,List.nodup_append] at unique
      intro held
      rw [List.map_map] at held
      exact unique.2.2 item.keyword held item.keyword (by simp) rfl
    have regroup : earlier ++ item :: items = (earlier ++ [item]) ++ items := by simp
    rw [List.flatMap_cons,List.foldlM_append,read_item done name _ item (writable item (by simp)) fresh new]
    rw [regroup] at unique ⊢
    have rest := ih (earlier ++ [item]) (fun i held => writable i (by simp [held])) unique
    rw [List.map_append] at rest
    exact rest

private theorem read_section (done : List CfgSection) (current : Option Text) (s : CfgSection) (writable : WritableSection s)
    (fresh : s.name ∉ done.map CfgSection.name) :
    (sectionLines s).foldlM cfgReadLine ⟨⟨done⟩,current,[]⟩ = some ⟨⟨done ++ [stored s]⟩,none,[]⟩ := by
  have opened : openSection s.name ⟨done⟩ = ⟨done ++ [⟨s.name,[]⟩]⟩ := by
    have absent : cfgGetSection ⟨done⟩ s.name = none := by
      rw [cfgGetSection,List.find?_eq_none,writable.upper]
      intro old held
      simpa using fun same : old.name = s.name => fresh (List.mem_map.mpr ⟨old,held,same⟩)
    have size := writable.size
    simp only [openSection,absent,cfgCreateSection,writable.upper]
    rw [List.take_of_length_le (by simp only [cfgSectionNameSize]; omega)]
  have items := read_items done s.name [] s.items writable.items fresh writable.unique
  rw [sectionLines,List.cons_append,List.foldlM_cons,readLine_header (headerName_written writable),opened]
  simp only [Option.bind_eq_bind,Option.bind_some]
  rw [List.foldlM_append]
  simp only [List.map_nil,List.nil_append] at items
  rw [items]
  rfl

private theorem read_sections (done sections : List CfgSection) (current : Option Text)
    (writable : ∀ s ∈ sections, WritableSection s)
    (unique : ((done ++ sections).map CfgSection.name).Nodup) :
    ∃ last, (sections.flatMap sectionLines).foldlM cfgReadLine ⟨⟨done.map stored⟩,current,[]⟩ =
      some ⟨⟨(done ++ sections).map stored⟩,last,[]⟩ := by
  induction sections generalizing done current with
  | nil => exact ⟨current,by simp⟩
  | cons s sections ih =>
    have fresh : s.name ∉ (done.map stored).map CfgSection.name := by
      rw [List.map_append,List.map_cons,List.nodup_append] at unique
      intro held
      rw [List.map_map] at held
      exact unique.2.2 s.name held s.name (by simp) rfl
    have regroup : done ++ s :: sections = (done ++ [s]) ++ sections := by simp
    rw [regroup] at unique ⊢
    obtain ⟨last,rest⟩ := ih (done ++ [s]) none (fun t held => writable t (by simp [held])) unique
    refine ⟨last,?_⟩
    rw [List.flatMap_cons,List.foldlM_append,read_section _ current s (writable s (by simp)) fresh]
    rw [List.map_append] at rest
    exact rest

private theorem same_stored (item : CfgItem) : SameItem item (storedItem item) where
  keyword := rfl
  value := rfl
  desc := by
    unfold storedItem
    cases item.desc with
    | none => exact Option.Rel.none
    | some desc =>
      refine Option.Rel.some ?_
      unfold commented
      split_ifs <;> simp

theorem read_written (info : CfgInfo) (writable : Writable info) :
    ∃ back, cfgRead (cfgWrite info) = some back ∧ List.Forall₂ SameSection info.sections back.sections := by
  have clean : ∀ line ∈ info.sections.flatMap sectionLines, Clean line := by
    intro line held
    obtain ⟨s,member,inside⟩ := List.mem_flatMap.mp held
    exact clean_sectionLines (writable.sections s member) line inside
  obtain ⟨last,read⟩ := read_sections [] info.sections none writable.sections writable.unique
  refine ⟨⟨info.sections.map stored⟩,?_,?_⟩
  · rw [cfgRead,cfgWrite,readLines_written _ clean,List.foldlM_append]
    simp only [List.map_nil,List.nil_append] at read
    rw [read]
    rfl
  · rw [List.forall₂_map_right_iff,List.forall₂_same]
    refine fun s _ => { name := rfl, items := ?_ }
    rw [stored,List.forall₂_map_right_iff,List.forall₂_same]
    exact fun item _ => same_stored item

def sampleItem : CfgItem := ⟨"MAX".toList,some "top".toList,"1 = one".toList⟩

def sampleInfo : CfgInfo := ⟨[⟨"SI".toList,[sampleItem,⟨"MIN".toList,some "; low".toList,[]⟩]⟩,⟨"PACK".toList,[]⟩]⟩

instance (item : CfgItem) : Decidable (WritableItem item) :=
  decidable_of_iff (toupper item.keyword = item.keyword ∧ trim item.keyword = item.keyword ∧ item.keyword.length ≤ 63 ∧
      item.keyword.all (fun c => Plain c ∧ c ≠ '=') = true ∧
      item.keyword.head?.all (fun c => c ≠ '[' ∧ c ≠ ';' ∧ c ≠ '#') = true ∧ item.value.all (fun c => Plain c) = true ∧
      item.value.rdropWhile isspace = item.value ∧ (item.keyword ++ '=' :: item.value).length ≤ 1021 ∧
      item.desc.all (fun desc => desc.all (fun c => Plain c) ∧ strip desc = desc ∧ (commented desc).length ≤ 1021) = true) <| by
    simp only [List.all_eq_true,Option.all_eq_true,decide_eq_true_eq]
    exact ⟨fun ⟨a,b,c,d,e,f,g,h,i⟩ => ⟨a,b,c,d,e,f,g,h,i⟩,fun ⟨a,b,c,d,e,f,g,h,i⟩ => ⟨a,b,c,d,e,f,g,h,i⟩⟩

instance (s : CfgSection) : Decidable (WritableSection s) :=
  decidable_of_iff (toupper s.name = s.name ∧ s.name.length ≤ 63 ∧ s.name.all (fun c => Plain c ∧ c ≠ ']') = true ∧
      s.items.all (fun item => WritableItem item) = true ∧ (s.items.map CfgItem.keyword).Nodup) <| by
    simp only [List.all_eq_true,decide_eq_true_eq]
    exact ⟨fun ⟨a,b,c,d,e⟩ => ⟨a,b,c,d,e⟩,fun ⟨a,b,c,d,e⟩ => ⟨a,b,c,d,e⟩⟩

theorem read_sample : ∃ back, cfgRead (cfgWrite sampleInfo) = some back ∧
    List.Forall₂ SameSection sampleInfo.sections back.sections :=
  read_written sampleInfo { sections := by decide +kernel, unique := by decide +kernel }

end Mybmm.CfgRoundTrip
