import Mathlib.Data.List.Basic

/-! Bytes that encode characters in UTF-8, and where such a list of bytes may be cut. -/
namespace Mybmm.Utf8

def codes (c : Char) : List Nat := (String.utf8EncodeChar c).map UInt8.toNat

def encode (cs : List Char) : List Nat := cs.flatMap codes

def Encoded (bytes : List Nat) : Prop := ∃ cs, encode cs = bytes

/-- The bytes of a code point. -/
def units (n : Nat) : List Nat :=
  if n < 0x80 then [n]
  else if n < 0x800 then [n / 64 + 0xC0,n % 64 + 0x80]
  else if n < 0x10000 then [n / 4096 + 0xE0,n / 64 % 64 + 0x80,n % 64 + 0x80]
  else [n / 262144 + 0xF0,n / 4096 % 64 + 0x80,n / 64 % 64 + 0x80,n % 64 + 0x80]

theorem toNat_lt (c : Char) : c.toNat < 0x110000 := by
  rcases c.valid with low | ⟨_,high⟩
  · exact Nat.lt_trans low (by decide)
  · exact high

theorem codes_units (c : Char) : codes c = units c.toNat := by
  have bound := toNat_lt c
  have same : c.val.toNat = c.toNat := rfl
  simp only [codes,units,String.utf8EncodeChar,same]
  generalize c.toNat = n at bound ⊢
  split_ifs <;> simp <;> omega

theorem codes_toNat {n : Nat} (valid : n.isValidChar) : codes (Char.ofNat n) = units n := by
  have same : (Char.ofNat n).toNat = n := by
    rw [Char.ofNat,dif_pos valid]
    rfl
  rw [codes_units,same]

theorem units_bytes {n : Nat} (bound : n < 0x110000) : ∀ b ∈ units n, b < 256 := by
  unfold units
  split_ifs <;> simp <;> omega

theorem units_ascii {n b : Nat} (member : b ∈ units n) (ascii : b < 0x80) : units n = [b] := by
  unfold units at member ⊢
  split_ifs at member ⊢ with one two three
  · rw [List.mem_singleton.mp member]
  all_goals
    simp at member
    omega

theorem units_ne_nil (n : Nat) : units n ≠ [] := by
  unfold units
  split_ifs <;> simp

theorem encoded_nil : Encoded [] := ⟨[],rfl⟩

theorem encoded_codes (c : Char) : Encoded (codes c) := ⟨[c],by simp [encode]⟩

theorem Encoded.append {s t : List Nat} (first : Encoded s) (second : Encoded t) : Encoded (s ++ t) := by
  obtain ⟨cs,rfl⟩ := first
  obtain ⟨ds,rfl⟩ := second
  exact ⟨cs ++ ds,by simp [encode]⟩

theorem encoded_ascii {b : Nat} (ascii : b < 0x80) : Encoded [b] := by
  refine ⟨[Char.ofNat b],?_⟩
  rw [encode,List.flatMap_singleton,codes_toNat (Or.inl (by omega)),units,if_pos ascii]

/-- Encoded bytes begin with those of a character. -/
theorem encoded_cons {b : Nat} {s : List Nat} (encoded : Encoded (b :: s)) :
    ∃ c t, b :: s = codes c ++ t ∧ Encoded t := by
  obtain ⟨cs,same⟩ := encoded
  cases cs with
  | nil => cases same
  | cons c cs => exact ⟨c,encode cs,same.symm,cs,rfl⟩

/-- Encoded bytes may be cut at a byte that is a character of its own. -/
theorem encoded_split {s t : List Nat} {b : Nat} (ascii : b < 0x80) :
    Encoded (s ++ b :: t) ↔ Encoded s ∧ Encoded t := by
  constructor
  · rintro ⟨cs,same⟩
    induction cs generalizing s with
    | nil => simp [encode] at same
    | cons c cs ih =>
      rw [encode,List.flatMap_cons,List.append_eq_append_iff] at same
      rcases same with ⟨s',rfl,rest⟩ | ⟨u,first,rest⟩
      · obtain ⟨before,after⟩ := ih rest
        exact ⟨(encoded_codes c).append before,after⟩
      · cases u with
        | nil =>
          rw [List.append_nil] at first
          obtain ⟨_,after⟩ := ih (s := []) rest.symm
          exact ⟨first ▸ encoded_codes c,after⟩
        | cons b' u =>
          obtain ⟨rfl,rest⟩ := List.cons.inj rest
          have whole : codes c = [b] := by
            rw [codes_units]
            apply units_ascii _ ascii
            rw [← codes_units,first]
            simp
          rw [whole] at first
          obtain ⟨rfl,rfl⟩ : s = [] ∧ u = [] := by
            cases s with
            | nil => simpa using first
            | cons a s => simp at first
          exact ⟨encoded_nil,cs,(List.cons.inj rest).2.symm⟩
  · rintro ⟨before,after⟩
    have whole := before.append ((encoded_ascii ascii).append after)
    simpa using whole

end Mybmm.Utf8
