import Mybmm.Cfg

/-! Where `cfg_get_tab` writes: the destinations of a table as bytes of the structure they are
in, and the buffers of `conv_type` itself. -/
namespace Mybmm.CfgDest
open CString Libc Cfg

inductive DataType where
  | unknown | char | string | byte | short | int | long | quad | float | double | logical | date | list
deriving DecidableEq, Repr

/-- A `struct cfg_proctab`, with `dest` an address in the structure it fills. -/
structure Entry where
  sectionName : Text
  keyword : Text
  type : DataType
  dest : Nat
  dlen : Nat
  default : Option Text

def intBytes (i : Int) (k : Fin 4) : Char := Char.ofNat ((BitVec.ofInt 32 i).toNat / 256 ^ k.val % 256)

/-- The buffers that `conv_type` keeps on its stack: `temp[16]` receives a logical value and
its terminator whole, `temp[1024]` as much of a string as the destination takes. -/
def Local (type : DataType) (dlen : Nat) (src : Text) : Prop :=
  match type with
  | .logical => src.length < 16
  | .string => min src.length dlen < 1024
  | _ => True

instance (type : DataType) (dlen : Nat) (src : Text) : Decidable (Local type dlen src) := by
  unfold Local
  split <;> infer_instance

section
variable (single : ℚ → Fin 4 → Char)

/-- The types that `conv_type` knows; a double is written as the bytes of a float. -/
def destOf (type : DataType) (dest dlen : Nat) : Option (Dest Memory) :=
  match type with
  | .int => some (.int fun i m => store m dest (List.ofFn (intBytes i)))
  | .float => some (.float fun x m => store m dest (List.ofFn (single x)))
  | .double => some (.float fun x m => store m dest (List.ofFn (single x)))
  | .logical => some (.logical fun i m => store m dest (List.ofFn (intBytes i)))
  | .string => some (.string (fun f m => f m) dest dlen)
  | _ => none

/-- `conv_type` on the bytes; a local buffer that is run over leaves nothing to say. -/
def convTypeAt (type : DataType) (dest dlen : Nat) (src : Text) (m : Memory) : Option Memory :=
  if Local type dlen src then
    match destOf single type dest dlen with
    | some d => some (convType d src m)
    | none => some m
  else none

def getEntryAt (info : Option CfgInfo) (entry : Entry) (m : Memory) : Option Memory :=
  match cfgGetItem info entry.sectionName entry.keyword with
  | some p => convTypeAt single entry.type entry.dest entry.dlen p m
  | none =>
    match entry.default with
    | some p => convTypeAt single entry.type entry.dest entry.dlen p m
    | none => some m

def cfgGetTabAt (info : Option CfgInfo) (tab : List Entry) (m : Memory) : Option Memory :=
  tab.foldlM (fun m entry => getEntryAt single info entry m) m

end

def usedValue (info : Option CfgInfo) (entry : Entry) : Option Text :=
  (cfgGetItem info entry.sectionName entry.keyword).or entry.default

/-- The bytes of an entry's own destination. -/
def width (entry : Entry) : Nat :=
  match entry.type with
  | .string => entry.dlen
  | .int | .float | .double | .logical => 4
  | _ => 0

/-- From whatever bytes, the entry is read without running over a local buffer, keeps what is
not its own, and ends a string within its destination. -/
def Stays (single : ℚ → Fin 4 → Char) (info : Option CfgInfo) (entry : Entry) : Prop :=
  ∀ m, ∃ m', cfgGetTabAt single info [entry] m = some m' ∧
    (∀ i, i < entry.dest ∨ entry.dest + width entry ≤ i → m' i = m i) ∧
    (entry.type = .string → ∃ i, i < entry.dlen ∧ m' (entry.dest + i) = nul)

/-- A string is shorter than its destination, and a logical value than `temp`. -/
def Fits (entry : Entry) (value : Text) : Prop :=
  (entry.type = .string → value.length < entry.dlen) ∧ (entry.type = .logical → value.length ≤ 15)

variable (single : ℚ → Fin 4 → Char)

private theorem getEntryAt_used {info : Option CfgInfo} {entry : Entry} {value : Text}
    (used : usedValue info entry = some value)
    (m : Memory) : getEntryAt single info entry m = convTypeAt single entry.type entry.dest entry.dlen value m := by
  unfold usedValue at used
  unfold getEntryAt
  cases held : cfgGetItem info entry.sectionName entry.keyword with
  | some p =>
    rw [held,Option.some_or] at used
    rw [Option.some.inj used]
  | none =>
    rw [held,Option.none_or] at used
    rw [used]

private theorem cfgGetTabAt_one (info : Option CfgInfo) (entry : Entry) (m : Memory) :
    cfgGetTabAt single info [entry] m = getEntryAt single info entry m := by
  rw [cfgGetTabAt,List.foldlM_cons]
  cases getEntryAt single info entry m <;> rfl

private theorem local_of_fits {entry : Entry} {value : Text} (line : value.length ≤ 1020) (fits : Fits entry value) :
    Local entry.type entry.dlen value := by
  unfold Local
  split
  · rename_i same
    exact Nat.lt_succ_of_le (fits.2 same)
  · exact lt_of_le_of_lt (min_le_left _ _) (lt_of_le_of_lt line (by decide))
  · trivial

private theorem store_four (m : Memory) (dest : Nat) (bytes : Fin 4 → Char) (i : Nat) (outside : i < dest ∨ dest + 4 ≤ i) :
    store m dest (List.ofFn bytes) i = m i := by
  rcases outside with before | after
  · exact store_before m dest _ i before
  · exact store_after m dest _ i (by simpa using after)

/-- One entry whose value fits. -/
private theorem convTypeAt_fits {entry : Entry} {value : Text} (line : value.length ≤ 1020) (fits : Fits entry value)
    (m : Memory) :
    ∃ m', convTypeAt single entry.type entry.dest entry.dlen value m = some m' ∧
      (∀ i, i < entry.dest ∨ entry.dest + width entry ≤ i → m' i = m i) ∧
      (entry.type = .string → ∃ i, i < entry.dlen ∧ m' (entry.dest + i) = nul) := by
  have inside := local_of_fits line fits
  rw [convTypeAt,if_pos inside]
  unfold width
  cases type : entry.type with
  | string =>
    have short := fits.1 type
    have whole : value.take entry.dlen = value := List.take_of_length_le (Nat.le_of_lt short)
    refine ⟨strcpy m entry.dest value,by simp only [destOf,convType,whole],fun i outside => ?_,fun _ => ?_⟩
    · rcases outside with before | after
      · exact strcpy_before m entry.dest value i before
      · exact strcpy_after m entry.dest value i (by simp only at after; omega)
    · exact ⟨value.length,short,strcpy_terminator m entry.dest value⟩
  | int => exact ⟨_,rfl,store_four m entry.dest _,nofun⟩
  | float => exact ⟨_,rfl,store_four m entry.dest _,nofun⟩
  | double => exact ⟨_,rfl,store_four m entry.dest _,nofun⟩
  | logical => exact ⟨_,rfl,store_four m entry.dest _,nofun⟩
  | unknown | char | byte | short | long | quad | date | list => exact ⟨m,rfl,fun _ _ => rfl,nofun⟩

/-- A table whose values all fit writes to its destinations only. -/
theorem cfgGetTabAt_frame (info : Option CfgInfo) (tab : List Entry)
    (fits : ∀ entry ∈ tab, ∀ value ∈ usedValue info entry, value.length ≤ 1020 ∧ Fits entry value) (m : Memory) :
    ∃ m', cfgGetTabAt single info tab m = some m' ∧
      ∀ i, (∀ entry ∈ tab, i < entry.dest ∨ entry.dest + width entry ≤ i) → m' i = m i := by
  induction tab generalizing m with
  | nil => exact ⟨m,rfl,fun _ _ => rfl⟩
  | cons entry tab ih =>
    have first : ∃ m', getEntryAt single info entry m = some m' ∧
        ∀ i, i < entry.dest ∨ entry.dest + width entry ≤ i → m' i = m i := by
      cases used : usedValue info entry with
      | some value =>
        obtain ⟨line,fit⟩ := fits entry (by simp) value used
        obtain ⟨m',done,frame,_⟩ := convTypeAt_fits single line fit m
        exact ⟨m',by rw [getEntryAt_used single used,done],frame⟩
      | none =>
        obtain ⟨absent,default⟩ := Option.or_eq_none_iff.mp used
        exact ⟨m,by rw [getEntryAt,absent,default],fun _ _ => rfl⟩
    obtain ⟨n,done,frame⟩ := first
    obtain ⟨m',later,rest⟩ := ih (fun e held => fits e (by simp [held])) n
    refine ⟨m',?_,fun i outside => ?_⟩
    · rw [cfgGetTabAt,List.foldlM_cons,done]
      exact later
    · rw [rest i fun e held => outside e (by simp [held]),frame i (outside entry (by simp))]

/-- Where the bytes have a meaning, an entry does what the entry of a table of fields does. -/
theorem getEntryAt_eq {info : Option CfgInfo} {entry : Entry} {d : Dest Memory} {m m' : Memory}
    (known : destOf single entry.type entry.dest entry.dlen = some d) (done : getEntryAt single info entry m = some m') :
    m' = cfgGetEntry info ⟨entry.sectionName,entry.keyword,d,entry.default⟩ m := by
  have converts {p : Text} (done : convTypeAt single entry.type entry.dest entry.dlen p m = some m') :
      m' = convType d p m := by
    rw [convTypeAt,known] at done
    split_ifs at done
    exact (Option.some.inj done).symm
  unfold getEntryAt at done
  unfold cfgGetEntry
  split at done
  · rename_i p held
    rw [held]
    exact converts done
  · rename_i absent
    rw [absent]
    split at done
    · rename_i p default
      simp only [default]
      exact converts done
    · rename_i default
      simp only [default]
      exact (Option.some.inj done).symm

private theorem fits_of_stays {info : Option CfgInfo} {entry : Entry} (value : Text)
    (used : usedValue info entry = some value)
    (text : nul ∉ value) (stays : Stays single info entry) : Fits entry value := by
  obtain ⟨m',done,_,ended⟩ := stays fun _ => 'x'
  rw [cfgGetTabAt_one,getEntryAt_used single used,convTypeAt] at done
  split_ifs at done with inside
  constructor
  · intro type
    by_contra long
    obtain ⟨i,within,zero⟩ := ended type
    rw [type] at done
    obtain rfl := Option.some.inj done
    have bound : i < (value.take entry.dlen ++ [nul]).length := by simp; omega
    have held := store_within (fun _ => 'x') entry.dest (value.take entry.dlen ++ [nul]) i bound
    rw [List.getElem_append_left (by simp; omega),List.getElem_take] at held
    exact text (by
      rw [← zero]
      change strcpy _ _ _ _ ∈ value
      rw [strcpy,held]
      exact List.getElem_mem _)
  · intro type
    rw [type] at inside
    exact Nat.le_of_lt_succ inside

/-- A value stays in its destination exactly when it is shorter than that, and a logical one
than the buffer it is lowered in. -/
theorem stays_iff (info : Option CfgInfo) (entry : Entry) (value : Text) (used : usedValue info entry = some value)
    (line : value.length ≤ 1020) (text : nul ∉ value) : Stays single info entry ↔ Fits entry value := by
  constructor
  · exact fits_of_stays single value used text
  · intro fits m
    rw [cfgGetTabAt_one,getEntryAt_used single used]
    exact convTypeAt_fits single line fits m

def packName : Entry := ⟨"bat".toList,"name".toList,.string,0,32,none⟩

def packStore (value : Text) : Option CfgInfo := some ⟨[⟨"BAT".toList,[⟨"NAME".toList,none,value⟩]⟩]⟩

theorem stays_short : Stays (fun _ _ => nul) (packStore "east".toList) packName ↔ Fits packName "east".toList :=
  stays_iff _ _ _ _ (by decide) (by decide) (by decide)

def chargeAtMax : Entry := ⟨"mybmm".toList,"charge_at_max".toList,.logical,0,0,some "N".toList⟩

def systemStore (value : Text) : Option CfgInfo := some ⟨[⟨"MYBMM".toList,[⟨"CHARGE_AT_MAX".toList,none,value⟩]⟩]⟩

/-- A name of 32 characters ends in the first byte of the UUID, and a logical value of 16
characters behind the end of `temp`. -/
theorem values_run_over : ¬ Stays (fun _ _ => nul) (packStore (List.replicate 32 'n')) packName ∧
    ¬ Stays (fun _ _ => nul) (systemStore "yes when charged".toList) chargeAtMax := by
  constructor
  · intro stays
    exact absurd (fits_of_stays _ (List.replicate 32 'n') (by decide) (by decide) stays).1 (by decide)
  · intro stays
    exact absurd (fits_of_stays _ "yes when charged".toList (by decide) (by decide) stays).2 (by decide)

end Mybmm.CfgDest
