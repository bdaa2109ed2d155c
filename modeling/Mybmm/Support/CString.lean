import Mathlib.Data.List.Basic

/-! NUL-terminated text in byte memory. A copy writes its terminator too, so a
text that fills its buffer ends in the first byte of the next one, and a reader
runs on through a buffer that holds no terminator of its own. -/
namespace Mybmm.CString

abbrev Text := List Char

abbrev Memory := Nat → Char

def nul : Char := Char.ofNat 0

def store (m : Memory) (off : Nat) (s : Text) : Memory :=
  fun i => if i < off then m i else s[i - off]?.getD (m i)

def strcpy (m : Memory) (off : Nat) (s : Text) : Memory := store m off (s ++ [nul])

/-- The text that starts at an offset, `room` bytes being readable from there. -/
def cstr (m : Memory) : (off room : Nat) → Text
  | _, 0 => []
  | off, room + 1 => if m off = nul then [] else m off :: cstr m (off + 1) room

/-- The text from an index of an array, of which `room` bytes are left; there is none
when no terminator is among them. -/
def textFrom (m : Memory) : (off room : Nat) → Option Text
  | _, 0 => none
  | off, room + 1 => if m off = nul then some [] else (textFrom m (off + 1) room).map (m off :: ·)

theorem store_before (m : Memory) (off : Nat) (s : Text) (i : Nat) (before : i < off) :
    store m off s i = m i := by
  simp [store,before]

theorem store_after (m : Memory) (off : Nat) (s : Text) (i : Nat) (after : off + s.length ≤ i) :
    store m off s i = m i := by
  have outside : s[i - off]? = none := List.getElem?_eq_none (by omega)
  have inside : ¬ i < off := by omega
  simp [store,outside,inside]

theorem store_within (m : Memory) (off : Nat) (s : Text) (i : Nat) (within : i < s.length) :
    store m off s (off + i) = s[i] := by
  have inside : ¬ off + i < off := by omega
  simp [store,within,inside]

theorem strcpy_before (m : Memory) (off : Nat) (s : Text) (i : Nat) (before : i < off) :
    strcpy m off s i = m i := store_before m off _ i before

theorem strcpy_after (m : Memory) (off : Nat) (s : Text) (i : Nat) (after : off + s.length < i) :
    strcpy m off s i = m i := store_after m off _ i (by simp; omega)

theorem strcpy_terminator (m : Memory) (off : Nat) (s : Text) : strcpy m off s (off + s.length) = nul := by
  have last := store_within m off (s ++ [nul]) s.length (by simp)
  simpa [strcpy] using last

theorem strcpy_within (m n : Memory) (off : Nat) (s : Text) (i : Nat) (within : i ≤ s.length) :
    strcpy m off s (off + i) = strcpy n off s (off + i) := by
  rw [strcpy,strcpy,store_within m off _ i (by simpa using Nat.lt_succ_of_le within),
    store_within n off _ i (by simpa using Nat.lt_succ_of_le within)]

theorem strcpy_congr (m n : Memory) (off : Nat) (s : Text) (i : Nat) (same : m i = n i) :
    strcpy m off s i = strcpy n off s i := by
  simp only [strcpy,store,same]

theorem cstr_eq_nil_iff (m : Memory) (off room : Nat) : cstr m off (room + 1) = [] ↔ m off = nul := by
  by_cases ended : m off = nul <;> simp [cstr,ended]

theorem cstr_congr (m n : Memory) (off room : Nat) (agree : ∀ i, off ≤ i → m i = n i) :
    cstr m off room = cstr n off room := by
  induction room generalizing off with
  | zero => rfl
  | succ room ih => rw [cstr,cstr,agree off (by omega),ih (off + 1) fun i bound => agree i (by omega)]

/-- The characters from an index on. -/
def Lies (m : Memory) : Nat → Text → Prop
  | _, [] => True
  | off, c :: s => m off = c ∧ Lies m (off + 1) s

section Lies

variable {m : Memory} {off : Nat} {s t : Text}

theorem lies_append : Lies m off (s ++ t) ↔ Lies m off s ∧ Lies m (off + s.length) t := by
  induction s generalizing off with
  | nil => simp [Lies]
  | cons c s ih =>
    rw [List.cons_append,Lies,Lies,ih,List.length_cons,Nat.add_assoc,Nat.add_comm 1,and_assoc]

theorem lies_congr {n : Memory} (same : ∀ i, off ≤ i → i < off + s.length → m i = n i) (lies : Lies m off s) :
    Lies n off s := by
  induction s generalizing off with
  | nil => trivial
  | cons c s ih =>
    rw [List.length_cons] at same
    exact ⟨(same off (Nat.le_refl off) (by omega)).symm.trans lies.1,
      ih (fun i behind before => same i (by omega) (by omega)) lies.2⟩

theorem lies_at {c : Char} (lies : Lies m 0 (s ++ c :: t)) : m s.length = c := by
  have behind := (lies_append.mp lies).2.1
  rwa [Nat.zero_add] at behind

theorem lies_inside (lies : Lies m off s) {i : Nat} (inside : i < s.length) : m (off + i) ∈ s := by
  induction s generalizing off i with
  | nil => exact absurd inside (Nat.not_lt_zero i)
  | cons c s ih =>
    cases i with
    | zero => exact lies.1 ▸ List.mem_cons_self
    | succ i =>
      have next := ih lies.2 (Nat.lt_of_succ_lt_succ inside)
      rw [Nat.add_assoc,Nat.add_comm 1] at next
      exact List.mem_cons_of_mem c next

theorem lies_store : Lies (store m off s) off s := by
  suffices behind : ∀ done, Lies (store m off (done ++ s)) (off + done.length) s from behind []
  induction s with
  | nil => exact fun _ => trivial
  | cons c s ih =>
    intro done
    have rest := ih (done ++ [c])
    rw [List.append_assoc,List.length_append,← Nat.add_assoc] at rest
    refine ⟨?_,rest⟩
    have held := store_within m off (done ++ c :: s) done.length (by simp)
    simpa using held

/-- A text is copied to the end of another. -/
theorem lies_strcpy (lies : Lies m 0 s) (t : Text) : Lies (strcpy m s.length t) 0 (s ++ t ++ [nul]) := by
  rw [List.append_assoc,lies_append,Nat.zero_add]
  refine ⟨lies_congr (fun i _ before => ?_) lies,lies_store⟩
  exact (strcpy_before m s.length t i (by omega)).symm

theorem textFrom_iff {room : Nat} :
    textFrom m off room = some s ↔ s.length < room ∧ nul ∉ s ∧ Lies m off (s ++ [nul]) := by
  induction room generalizing off s with
  | zero => simp [textFrom]
  | succ room ih =>
    rw [textFrom]
    cases s with
    | nil =>
      have single : Lies m off ([] ++ [nul]) ↔ m off = nul := by simp [Lies]
      rw [single]
      split_ifs with ended <;> simp [ended]
    | cons c s =>
      rw [List.cons_append,Lies,List.length_cons,Nat.succ_lt_succ_iff,List.mem_cons,not_or]
      split_ifs with ended
      · refine iff_of_false (by simp) ?_
        rintro ⟨_,⟨other,_⟩,rfl,_⟩
        exact other ended.symm
      · rw [Option.map_eq_some_iff]
        constructor
        · rintro ⟨rest,found,same⟩
          obtain ⟨rfl,rfl⟩ := List.cons.inj same
          obtain ⟨fits,plain,lies⟩ := ih.mp found
          exact ⟨fits,⟨Ne.symm ended,plain⟩,rfl,lies⟩
        · rintro ⟨fits,⟨_,plain⟩,rfl,lies⟩
          exact ⟨s,ih.mpr ⟨fits,plain,lies⟩,rfl⟩

theorem textFrom_strcpy (m : Memory) {room : Nat} (plain : nul ∉ s) (fits : s.length < room) :
    textFrom (strcpy m 0 s) 0 room = some s := textFrom_iff.mpr ⟨fits,plain,lies_store⟩

end Lies

theorem cstr_length (m : Memory) (off room : Nat) : (cstr m off room).length ≤ room := by
  induction room generalizing off with
  | zero => exact Nat.le_refl 0
  | succ room ih =>
    rw [cstr]
    split_ifs
    · exact Nat.zero_le _
    · rw [List.length_cons]
      exact Nat.succ_le_succ (ih (off + 1))

theorem textFrom_lies {m : Memory} {s : Text} {off : Nat} (lies : Lies m off (s ++ [nul])) :
    textFrom m off (s.length + 1) = some (s.takeWhile (· ≠ nul)) := by
  induction s generalizing off with
  | nil =>
    rw [List.length_nil,textFrom,if_pos lies.1]
    rfl
  | cons c s ih =>
    obtain ⟨head,tail⟩ := lies
    rw [List.length_cons,textFrom,head,ih tail]
    by_cases stop : c = nul
    · simp [stop]
    · simp [stop]

theorem textFrom_some {m : Memory} {off room : Nat} {v : Text} (found : textFrom m off room = some v) :
    v.length < room ∧ m (off + v.length) = nul ∧ ∀ i, i < v.length → m (off + i) ≠ nul := by
  obtain ⟨fits,plain,lies⟩ := textFrom_iff.mp found
  obtain ⟨text,last,_⟩ := lies_append.mp lies
  exact ⟨fits,last,fun i inside ended => plain (ended ▸ lies_inside text inside)⟩

/-- A text that an array holds from an index to its terminator. -/
theorem textFrom_held (m : Memory) (s : Text) (off room : Nat) (fits : s.length < room)
    (text : ∀ i (bound : i < s.length), m (off + i) = s[i]) (ended : m (off + s.length) = nul) :
    textFrom m off room = some (s.takeWhile (· ≠ nul)) := by
  induction s generalizing off room with
  | nil =>
    obtain ⟨room,rfl⟩ : ∃ k, room = k + 1 := ⟨room - 1,by simp at fits; omega⟩
    rw [List.length_nil,Nat.add_zero] at ended
    rw [textFrom,if_pos ended]
    rfl
  | cons c s ih =>
    obtain ⟨room,rfl⟩ : ∃ k, room = k + 1 := ⟨room - 1,by simp at fits; omega⟩
    have head : m off = c := text 0 (by simp)
    rw [textFrom,head]
    by_cases stop : c = nul
    · rw [if_pos stop]
      simp [stop]
    · have tail := ih (off + 1) room (by simpa using fits)
        (fun i bound => by
          have next := text (i + 1) (by simpa using bound)
          rw [Nat.add_assoc,Nat.add_comm 1]
          exact next)
        (by rwa [List.length_cons,Nat.add_comm s.length,← Nat.add_assoc] at ended)
      rw [if_neg stop,tail]
      simp [stop]

theorem cstr_textFrom {m : Memory} {off room : Nat} {v : Text} (found : textFrom m off room = some v) :
    cstr m off room = v := by
  induction room generalizing off v with
  | zero => simp [textFrom] at found
  | succ room ih =>
    rw [textFrom] at found
    rw [cstr]
    split_ifs at found ⊢ with ended
    · exact Option.some.inj found
    · obtain ⟨rest,later,rfl⟩ := Option.map_eq_some_iff.mp found
      rw [ih later]

/-! Buffers that follow one another without a gap, some of which are assigned a
new text, truncated to the buffer's size but not to leave room for its end. -/

abbrev Buffers := List (Nat × Option Text)

def fill (m : Memory) : Nat → Buffers → Memory
  | _, [] => m
  | off, (size,none) :: rest => fill m (off + size) rest
  | off, (size,some s) :: rest => fill (strcpy m off (s.take size)) (off + size) rest

/-- The bytes of the buffers and the one that follows them. -/
def room (buffers : Buffers) : Nat := buffers.foldr (fun buffer n => buffer.1 + n) 0 + 1

def texts (m : Memory) : Nat → Buffers → List Text
  | _, [] => []
  | off, (size,s) :: rest => cstr m off (room ((size,s) :: rest)) :: texts m (off + size) rest

/-- Every buffer that is not assigned reads empty when its turn comes. -/
def Blank (m : Memory) : Nat → Buffers → Prop
  | _, [] => True
  | off, (size,none) :: rest => m off = nul ∧ Blank m (off + size) rest
  | off, (size,some s) :: rest => Blank (strcpy m off (s.take size)) (off + size) rest

instance decidableBlank : (m : Memory) → (off : Nat) → (buffers : Buffers) → Decidable (Blank m off buffers)
  | _, _, [] => .isTrue trivial
  | m, off, (size,none) :: rest =>
    have := decidableBlank m (off + size) rest
    inferInstanceAs (Decidable (m off = nul ∧ Blank m (off + size) rest))
  | m, off, (size,some s) :: rest => decidableBlank (strcpy m off (s.take size)) (off + size) rest

end Mybmm.CString
