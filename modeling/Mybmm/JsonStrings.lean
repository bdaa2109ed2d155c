import Mathlib.Data.List.TakeWhile
import Mybmm.JsonUtf8

/-! The strings that the parser makes of a text in UTF-8, and the text that is made of such
strings, are in UTF-8 again. -/
namespace Mybmm.Json
open CString Libc Utf8

variable {ν : Type}

abbrev Ascii (c : Char) : Prop := c.toNat < 0x80

private theorem bytes_append (s t : Text) : bytes (s ++ t) = bytes s ++ bytes t := List.map_append

private theorem bytes_cons (c : Char) (s : Text) : bytes (c :: s) = c.toNat % 256 :: bytes s := rfl

private theorem ascii_text {s : Text} (plain : s.all (fun c => decide (Ascii c)) = true) : ∀ c ∈ s, Ascii c :=
    fun c member =>
  of_decide_eq_true (List.all_eq_true.mp plain c member)

private theorem ascii_byte {c : Char} (ascii : Ascii c) : c.toNat % 256 < 0x80 := Nat.lt_of_le_of_lt (Nat.mod_le _ _) ascii

theorem Valid.append {s t : Text} (first : Valid s) (second : Valid t) : Valid (s ++ t) := by
  rw [Valid,bytes_append]
  exact Encoded.append first second

private theorem valid_split {s t : Text} {c : Char} (ascii : Ascii c) : Valid (s ++ c :: t) ↔ Valid s ∧ Valid t := by
  rw [Valid,bytes_append,bytes_cons]
  exact encoded_split (ascii_byte ascii)

private theorem valid_cons {c : Char} (ascii : Ascii c) {s : Text} : Valid (c :: s) ↔ Valid s := by
  have split := valid_split (s := []) ascii (t := s)
  rw [List.nil_append] at split
  exact split.trans ⟨And.right,fun valid => ⟨encoded_nil,valid⟩⟩

private theorem valid_ascii_append {s : Text} (ascii : ∀ c ∈ s, Ascii c) {t : Text} : Valid (s ++ t) ↔ Valid t := by
  induction s with
  | nil => exact Iff.rfl
  | cons c s ih =>
    rw [List.forall_mem_cons] at ascii
    rw [List.cons_append,valid_cons ascii.1,ih ascii.2]

theorem valid_ascii {s : Text} (ascii : ∀ c ∈ s, Ascii c) : Valid s := by
  have whole := (valid_ascii_append ascii (t := [])).mpr encoded_nil
  rwa [List.append_nil] at whole

private theorem isspace_ascii {c : Char} (blank : isspace c = true) : Ascii c := by
  simp only [isspace,Bool.or_eq_true,decide_eq_true_eq,Bool.and_eq_true] at blank
  rcases blank with rfl | ⟨_,high⟩
  · decide
  · exact Nat.lt_of_le_of_lt high (by decide)

private theorem valid_skip {s : Text} (valid : Valid s) : Valid (skipWhitespaces s) := by
  have split : s.takeWhile isspace ++ skipWhitespaces s = s := List.takeWhile_append_dropWhile
  rw [← split] at valid
  exact (valid_ascii_append fun c member => isspace_ascii (List.mem_takeWhile_imp member)).mp valid

private theorem valid_skipped {s t : Text} {c : Char} (valid : Valid s) (skipped : skipWhitespaces s = c :: t)
    (ascii : Ascii c) : Valid t := by
  have skip := valid_skip valid
  rwa [skipped,valid_cons ascii] at skip

/-! The escapes. -/

private theorem hexCharToInt_some {c : Char} {x : Nat} (read : hexCharToInt c = some x) : Ascii c ∧ x < 16 := by
  unfold hexCharToInt at read
  split_ifs at read with digit lower upper
  · obtain ⟨low,high⟩ := digit
    have low : 48 ≤ c.toNat := low
    have high : c.toNat ≤ 57 := high
    cases read
    exact ⟨Nat.lt_of_le_of_lt high (by decide),by have : '0'.toNat = 48 := rfl; omega⟩
  · obtain ⟨low,high⟩ := lower
    have low : 97 ≤ c.toNat := low
    have high : c.toNat ≤ 102 := high
    cases read
    exact ⟨Nat.lt_of_le_of_lt high (by decide),by have : 'a'.toNat = 97 := rfl; omega⟩
  · obtain ⟨low,high⟩ := upper
    have low : 65 ≤ c.toNat := low
    have high : c.toNat ≤ 70 := high
    cases read
    exact ⟨Nat.lt_of_le_of_lt high (by decide),by have : 'A'.toNat = 65 := rfl; omega⟩

private theorem parseUtf16Hex_some {s : Text} {cp : Nat} (read : parseUtf16Hex s = some cp) :
    cp < 0x10000 ∧ ∃ digits t, s = digits ++ t ∧ digits.length = 4 ∧ ∀ c ∈ digits, Ascii c := by
  unfold parseUtf16Hex at read
  split at read
  · rename_i a b c d t
    simp only [Option.bind_eq_bind,Option.bind_eq_some_iff] at read
    obtain ⟨x₁,r₁,x₂,r₂,x₃,r₃,x₄,r₄,same⟩ := read
    obtain ⟨a₁,l₁⟩ := hexCharToInt_some r₁
    obtain ⟨a₂,l₂⟩ := hexCharToInt_some r₂
    obtain ⟨a₃,l₃⟩ := hexCharToInt_some r₃
    obtain ⟨a₄,l₄⟩ := hexCharToInt_some r₄
    cases same
    refine ⟨?_,[a,b,c,d],t,rfl,rfl,by simp [a₁,a₂,a₃,a₄]⟩
    have w₁ : x₁ <<< 12 < 2 ^ 16 := by rw [Nat.shiftLeft_eq]; omega
    have w₂ : x₂ <<< 8 < 2 ^ 16 := by rw [Nat.shiftLeft_eq]; omega
    have w₃ : x₃ <<< 4 < 2 ^ 16 := by rw [Nat.shiftLeft_eq]; omega
    exact Nat.or_lt_two_pow (Nat.or_lt_two_pow (Nat.or_lt_two_pow w₁ w₂) w₃) (by omega)
  · cases read

private theorem lead_bits : (∀ b < 64, b ||| 0x80 = b + 0x80) ∧ (∀ b < 32, b ||| 0xC0 = b + 0xC0) ∧
    (∀ b < 16, b ||| 0xE0 = b + 0xE0) ∧ (∀ b < 8, b ||| 0xF0 = b + 0xF0) := by decide +kernel

private theorem six_bits (cp : Nat) : (cp &&& 0x3F ||| 0x80) = cp % 64 + 0x80 := by
  have low : cp &&& 0x3F = cp % 64 := Nat.and_two_pow_sub_one_eq_mod cp 6
  rw [low,lead_bits.1 _ (Nat.mod_lt cp (by decide))]

private theorem byte_toNat {n : Nat} (small : n < 256) : (byte n).toNat = n := by
  have valid : n.isValidChar := Or.inl (by omega)
  rw [byte,Char.ofNat,dif_pos valid]
  rfl

private theorem bytes_bytes {ns : List Nat} (small : ∀ n ∈ ns, n < 256) : bytes (ns.map byte) = ns := by
  induction ns with
  | nil => rfl
  | cons n ns ih =>
    rw [List.forall_mem_cons] at small
    rw [List.map_cons,bytes_cons,ih small.2,byte_toNat small.1,Nat.mod_eq_of_lt small.1]

/-- The bytes of a code point are those of a character. -/
private theorem bytes_units {n : Nat} (valid : n.isValidChar) : ∃ c, bytes ((units n).map byte) = codes c := by
  refine ⟨Char.ofNat n,?_⟩
  rw [bytes_bytes,codes_toNat valid]
  apply units_bytes
  rcases valid with low | ⟨_,high⟩
  · omega
  · exact high

private theorem surrogates {lead trail : Nat} (low : 0xD800 ≤ lead) (high : lead ≤ 0xDBFF) (low' : 0xDC00 ≤ trail)
    (high' : trail ≤ 0xDFFF) :
    ((lead - 0xD800 &&& 0x3FF) <<< 10 ||| trail - 0xDC00 &&& 0x3FF) + 0x10000 =
      (lead - 0xD800) * 0x400 + (trail - 0xDC00) + 0x10000 := by
  have bits (m : Nat) : m &&& 0x3FF = m % 2 ^ 10 := Nat.and_two_pow_sub_one_eq_mod m 10
  rw [bits,bits,← Nat.shiftLeft_add_eq_or_of_lt (Nat.mod_lt _ (by decide)),Nat.shiftLeft_eq]
  omega

/-- The bytes that `parse_utf16` stores are those of a character. -/
private theorem parseUtf16_some {s out : Text} {n : Nat} (read : parseUtf16 s = some (out,n)) :
    (∃ c, bytes out = codes c) ∧ ∃ p t, s = p ++ t ∧ p.length = n ∧ ∀ c ∈ p, Ascii c := by
  simp only [parseUtf16,Option.bind_eq_bind,Option.bind_eq_some_iff,six_bits] at read
  obtain ⟨cp,lead,read⟩ := read
  obtain ⟨small,digits,t,rfl,four,ascii⟩ := parseUtf16Hex_some lead
  have shift (m k : Nat) : m >>> k = m / 2 ^ k := Nat.shiftRight_eq_div_pow m k
  obtain ⟨_,lead₂,lead₃,lead₄⟩ := lead_bits
  split_ifs at read with one two three surrogate
  · cases read
    have same : [byte cp] = (units cp).map byte := by rw [units,if_pos one]; rfl
    rw [same]
    exact ⟨bytes_units (Or.inl (by omega)),digits,t,rfl,four,ascii⟩
  · cases read
    have head : (cp >>> 6 &&& 0x1F ||| 0xC0) = cp / 64 + 0xC0 := by
      rw [(low_bits _).1,shift,lead₂ _ (by omega)]
      omega
    have same : [byte (cp >>> 6 &&& 0x1F ||| 0xC0),byte (cp % 64 + 0x80)] = (units cp).map byte := by
      rw [units,if_neg one,if_pos two,head]
      rfl
    rw [same]
    exact ⟨bytes_units (Or.inl (by omega)),digits,t,rfl,four,ascii⟩
  · cases read
    simp only [Bool.or_eq_true,decide_eq_true_eq] at three
    have head : (cp >>> 12 &&& 0x0F ||| 0xE0) = cp / 4096 + 0xE0 := by
      rw [(low_bits _).2.1,shift,lead₃ _ (by omega)]
      omega
    have same : [byte (cp >>> 12 &&& 0x0F ||| 0xE0),byte (cp >>> 6 % 64 + 0x80),byte (cp % 64 + 0x80)] =
        (units cp).map byte := by
      rw [units,if_neg one,if_neg two,if_pos small,head,shift]
      rfl
    rw [same]
    refine ⟨bytes_units ?_,digits,t,rfl,four,ascii⟩
    unfold Nat.isValidChar
    omega
  · split at read
    · rename_i u behind
      obtain ⟨trail,hex,stored⟩ := Option.bind_eq_some_iff.mp read
      obtain ⟨_,digits',t',rfl,four',ascii'⟩ := parseUtf16Hex_some hex
      split_ifs at stored with range
      cases stored
      simp only [Bool.or_eq_true,decide_eq_true_eq] at range three
      rw [surrogates (by omega) surrogate (by omega) (by omega)]
      have bounds : 0x10000 ≤ (cp - 0xD800) * 0x400 + (trail - 0xDC00) + 0x10000 ∧
          (cp - 0xD800) * 0x400 + (trail - 0xDC00) + 0x10000 < 0x110000 := by omega
      generalize (cp - 0xD800) * 0x400 + (trail - 0xDC00) + 0x10000 = n at bounds
      have head : (n >>> 18 &&& 0x07 ||| 0xF0) = n / 262144 + 0xF0 := by
        rw [(low_bits _).2.2,shift,lead₄ _ (by omega)]
        omega
      have same : [byte (n >>> 18 &&& 0x07 ||| 0xF0),byte (n >>> 12 % 64 + 0x80),byte (n >>> 6 % 64 + 0x80),
          byte (n % 64 + 0x80)] = (units n).map byte := by
        rw [units,if_neg (by omega),if_neg (by omega),if_neg (by omega),head,shift,shift]
        rfl
      rw [same]
      refine ⟨bytes_units (Or.inr ⟨by omega,bounds.2⟩),digits ++ ('\\' :: 'u' :: digits'),t',?_,?_,?_⟩
      · rw [List.drop_append_of_le_length (by omega),List.drop_eq_nil_of_le (by omega),List.nil_append] at behind
        rw [behind]
        simp
      · simp [four,four']
      · intro c member
        simp only [List.mem_append,List.mem_cons] at member
        rcases member with inside | rfl | rfl | inside
        · exact ascii c inside
        · decide
        · decide
        · exact ascii' c inside
    · cases read

private theorem ascii_pair {c : Char} {s : Text} (ascii : Ascii c) :
    ∃ p t, c :: s = p ++ t ∧ p.length = 1 ∧ ∀ d ∈ p, Ascii d := ⟨[c],s,rfl,rfl,by simpa using ascii⟩

private theorem unescape_some {s out : Text} {n : Nat} (read : unescape s = some (out,n)) :
    Valid out ∧ ∃ p t, s = p ++ t ∧ p.length = n ∧ ∀ c ∈ p, Ascii c := by
  cases s with
  | nil => cases read
  | cons c s =>
    rw [unescape] at read
    split at read
    · subst c; cases read; exact ⟨valid_ascii (ascii_text rfl),ascii_pair (by decide)⟩
    split at read
    · subst c; cases read; exact ⟨valid_ascii (ascii_text rfl),ascii_pair (by decide)⟩
    split at read
    · subst c; cases read; exact ⟨valid_ascii (ascii_text rfl),ascii_pair (by decide)⟩
    split at read
    · subst c; cases read; exact ⟨valid_ascii (ascii_text rfl),ascii_pair (by decide)⟩
    split at read
    · subst c; cases read; exact ⟨valid_ascii (ascii_text rfl),ascii_pair (by decide)⟩
    split at read
    · subst c; cases read; exact ⟨valid_ascii (ascii_text rfl),ascii_pair (by decide)⟩
    split at read
    · subst c; cases read; exact ⟨valid_ascii (ascii_text rfl),ascii_pair (by decide)⟩
    split at read
    · subst c; cases read; exact ⟨valid_ascii (ascii_text rfl),ascii_pair (by decide)⟩
    split at read
    · subst c
      obtain ⟨⟨out',n'⟩,stored,same⟩ := Option.map_eq_some_iff.mp read
      cases same
      obtain ⟨⟨c,bytes⟩,p,t,rfl,size,ascii⟩ := parseUtf16_some stored
      refine ⟨?_,'u' :: p,t,rfl,by simp [size],List.forall_mem_cons.mpr ⟨by decide,ascii⟩⟩
      rw [Valid,bytes]
      exact encoded_codes c
    · cases read

private theorem processLoop_ahead (ahead : Nat) (s : Text) : processLoop ahead s = processLoop 0 (s.drop ahead) := by
  induction ahead generalizing s with
  | zero => rfl
  | succ ahead ih =>
    cases s with
    | nil => simp [processLoop]
    | cons c s => rw [processLoop,ih,List.drop_succ_cons]

/-- Characters that are no backslash are copied. -/
private theorem processLoop_copied {block s out : Text} (plain : ∀ c ∈ block, c ≠ '\\')
    (read : processLoop 0 (block ++ s) = some out) : ∃ rest, processLoop 0 s = some rest ∧ out = block ++ rest := by
  induction block generalizing out with
  | nil => exact ⟨out,read,rfl⟩
  | cons c block ih =>
    rw [List.forall_mem_cons] at plain
    rw [List.cons_append,processLoop,if_neg plain.1] at read
    split at read
    · cases read
    · obtain ⟨next,copied,rfl⟩ := Option.map_eq_some_iff.mp read
      obtain ⟨rest,later,rfl⟩ := ih plain.2 copied
      exact ⟨rest,later,rfl⟩

/-- A valid text begins with the bytes of a character, and what follows is valid. -/
private theorem valid_block {c : Char} {s : Text} (valid : Valid (c :: s)) :
    ∃ block t, c :: s = block ++ t ∧ block ≠ [] ∧ Valid block ∧ Valid t ∧
      (∀ d ∈ block, d.toNat % 256 < 0x80 → block = [d]) := by
  rw [Valid,bytes_cons] at valid
  obtain ⟨ch,t,same,rest⟩ := encoded_cons valid
  have split : bytes (c :: s) = codes ch ++ t := same
  obtain ⟨block,t',whole,first,second⟩ := List.map_eq_append_iff.mp split
  refine ⟨block,t',whole,?_,?_,?_,?_⟩
  · rintro rfl
    rw [codes_units] at first
    exact units_ne_nil _ first.symm
  · exact ⟨[ch],by rw [encode,List.flatMap_singleton]; exact first.symm⟩
  · rw [Valid,bytes,second]
    exact rest
  · intro d member ascii
    have inside : d.toNat % 256 ∈ codes ch := first ▸ List.mem_map_of_mem (f := fun c => c.toNat % 256) member
    rw [codes_units] at inside first
    rw [units_ascii inside ascii] at first
    obtain ⟨e,rfl⟩ : ∃ e, block = [e] := List.length_eq_one_iff.mp (by simpa using congrArg List.length first)
    rw [List.mem_singleton.mp member]

private theorem processString_valid {s out : Text} (valid : Valid s) (read : processString s = some out) : Valid out := by
  unfold processString at read
  induction size : s.length using Nat.strong_induction_on generalizing s out with
  | h n ih =>
    cases s with
    | nil =>
      cases read
      exact encoded_nil
    | cons c s =>
      by_cases backslash : c = '\\'
      · subst c
        rw [valid_cons (by decide)] at valid
        rw [processLoop,if_pos rfl] at read
        split at read
        · cases read
        · rename_i stored k found
          obtain ⟨first,p,t,rfl,rfl,ascii⟩ := unescape_some found
          obtain ⟨rest,later,rfl⟩ := Option.map_eq_some_iff.mp read
          rw [processLoop_ahead,List.drop_left] at later
          have shorter : t.length < n := by
            rw [List.length_cons,List.length_append] at size
            omega
          exact first.append (ih _ shorter ((valid_ascii_append ascii).mp valid) later rfl)
      · obtain ⟨block,t,whole,some',first,second,single⟩ := valid_block valid
        have plain : ∀ d ∈ block, d ≠ '\\' := by
          rintro d member rfl
          have alone := single _ member (by decide)
          rw [alone] at whole
          exact backslash (List.cons.inj whole).1
        rw [whole] at read size
        obtain ⟨rest,later,rfl⟩ := processLoop_copied plain read
        have shorter : t.length < n := by
          have longer := List.length_pos_of_ne_nil some'
          rw [List.length_append] at size
          omega
        exact first.append (ih _ shorter second later rfl)

/-! The parser. -/

private theorem skipLoop_some {s rest : Text} (skipped : skipLoop s = some rest) :
    ∃ content, s = content ++ '"' :: rest := by
  fun_induction skipLoop s with
  | case1 => cases skipped
  | case2 s =>
    cases skipped
    exact ⟨[],rfl⟩
  | case3 => cases skipped
  | case4 c s _ ih =>
    obtain ⟨content,rfl⟩ := ih skipped
    exact ⟨'\\' :: c :: content,rfl⟩
  | case5 c s _ _ ih =>
    obtain ⟨content,rfl⟩ := ih skipped
    exact ⟨c :: content,rfl⟩

private theorem getQuotedString_some {s string rest : Text} (read : getQuotedString s = some (string,rest)) :
    ∃ content, s = '"' :: (content ++ '"' :: rest) ∧ processString content = some string := by
  simp only [getQuotedString,Option.bind_eq_bind,Option.bind_eq_some_iff] at read
  obtain ⟨rest',skipped,string',processed,same⟩ := read
  cases same
  unfold skipQuotes at skipped
  split at skipped
  · obtain ⟨content,rfl⟩ := skipLoop_some skipped
    have size : ('"' :: (content ++ '"' :: rest)).length - rest.length - 2 = content.length := by
      simp only [List.length_cons,List.length_append]
      omega
    rw [size,List.tail_cons,List.take_left] at processed
    exact ⟨content,rfl,processed⟩
  · cases skipped

private theorem getQuotedString_valid {s string rest : Text} (valid : Valid s)
    (read : getQuotedString s = some (string,rest)) : Valid string ∧ Valid rest := by
  obtain ⟨content,rfl,processed⟩ := getQuotedString_some read
  rw [valid_cons (by decide),valid_split (by decide)] at valid
  exact ⟨processString_valid valid.1 processed,valid.2⟩

private theorem valid_opening {s t : Text} (ascii : ∀ c ∈ t, Ascii c) (begins : t.isPrefixOf s = true) (valid : Valid s) :
    Valid (s.drop t.length) := by
  obtain ⟨rest,rfl⟩ := List.isPrefixOf_iff_prefix.mp begins
  rw [List.drop_left]
  exact (valid_ascii_append ascii).mp valid

/-- `strtod` reads no other characters than those of numbers. -/
def AsciiNumbers (lib : Numbers ν) : Prop := ∀ s : Text, ∀ c ∈ s.take (lib.strtod s).2.1, Ascii c

def ValidStrings (v : Value ν) : Prop := v.All (fun _ => True) Valid fun names => ∀ name ∈ names, Valid name

private theorem scalar_valid {lib : Numbers ν} (numbers : AsciiNumbers lib) {s rest : Text} {v : Value ν} (valid : Valid s)
    (read : ReadAsScalar lib s (v,rest)) : ValidStrings v ∧ Valid rest := by
  cases read with
  | string read =>
    obtain ⟨⟨chars,t⟩,found,same⟩ := Option.map_eq_some_iff.mp read
    cases same
    exact getQuotedString_valid valid found
  | boolean read =>
    unfold parseBooleanValue at read
    split_ifs at read with isTrue isFalse
    · cases read
      exact ⟨trivial,valid_opening (ascii_text rfl) isTrue valid⟩
    · cases read
      exact ⟨trivial,valid_opening (ascii_text rfl) isFalse valid⟩
  | number read =>
    simp only [parseNumberValue] at read
    split at read
    · cases read
    · obtain ⟨v',made,same⟩ := Option.map_eq_some_iff.mp read
      cases same
      unfold jsonValueInitNumber at made
      split_ifs at made
      cases made
      refine ⟨trivial,?_⟩
      rw [← List.take_append_drop (lib.strtod s).2.1 s,valid_ascii_append (numbers s)] at valid
      exact valid
  | null read =>
    unfold parseNullValue at read
    split_ifs at read with isNull
    cases read
    exact ⟨trivial,valid_opening (ascii_text rfl) isNull valid⟩

private theorem valid_delimiter {closing : Char} (ascii : Ascii closing) (c : Char) (t : Text)
    (delimiter : c = ',' ∨ c = closing) (valid : Valid (c :: t)) : Valid t := by
  rcases delimiter with rfl | rfl
  · exact (valid_cons (by decide)).mp valid
  · exact (valid_cons ascii).mp valid

private theorem parseValue_valid {lib : Numbers ν} (numbers : AsciiNumbers lib) {levels : Nat} {s rest : Text} {v : Value ν}
    (valid : Valid s) (parsed : parseValue lib levels s = some (v,rest)) : ValidStrings v ∧ Valid rest := by
  induction levels generalizing s v rest with
  | zero => cases parsed
  | succ levels ih =>
    obtain ⟨c,t,skipped,⟨rfl,read⟩ | ⟨rfl,read⟩ | ⟨read,_⟩⟩ := parseValue_cases parsed
    · have inside := valid_skipped valid skipped (by decide)
      rcases parseObjectValue_cases read with ⟨u,closed,same⟩ | ⟨going,read⟩
      · cases same
        exact ⟨all_object.mpr ⟨List.forall_mem_nil _,List.forall_mem_nil _⟩,valid_skipped inside closed (by decide)⟩
      · have keeps : ∀ object s object' t, ValidStrings (.object object) → Valid s →
            parseMember (parseValue lib levels) object s = some (object',t) →
            ValidStrings (.object object') ∧ Valid t := by
          intro object s object' t held valid read
          obtain ⟨name,v,t,u,found,_,colon,value,added⟩ := parseMember_some read
          obtain ⟨named,behind⟩ := getQuotedString_valid valid found
          obtain ⟨first,last⟩ := ih (valid_skipped behind colon (by decide)) value
          obtain ⟨names,values⟩ := all_object.mp held
          refine ⟨?_,last⟩
          unfold jsonObjectAddn at added
          split_ifs at added
          cases added
          refine all_object.mpr ⟨?_,List.forall_mem_append.mpr ⟨values,List.forall_mem_singleton.mpr first⟩⟩
          rw [Json.names,List.map_append]
          exact List.forall_mem_append.mpr ⟨names,by simpa using named⟩
        have empty : ValidStrings (.object [] : Value ν) :=
          all_object.mpr ⟨List.forall_mem_nil _,List.forall_mem_nil _⟩
        obtain ⟨object,held,rfl,last⟩ := parseElements_keeps (Q := Valid) (fun _ => valid_skip) (valid_delimiter (by decide))
          keeps empty (valid_skip inside) read
        exact ⟨held,last⟩
    · have inside := valid_skipped valid skipped (by decide)
      rcases parseArrayValue_cases read with ⟨u,closed,same⟩ | ⟨going,read⟩
      · cases same
        exact ⟨all_array.mpr (List.forall_mem_nil _),valid_skipped inside closed (by decide)⟩
      · have keeps : ∀ array s array' t, ValidStrings (.array array) → Valid s →
            parseItem (parseValue lib levels) array s = some (array',t) →
            ValidStrings (.array array') ∧ Valid t := by
          intro array s array' t held valid read
          obtain ⟨v,item,rfl⟩ := parseItem_some read
          obtain ⟨first,last⟩ := ih valid item
          exact ⟨all_array.mpr (List.forall_mem_append.mpr ⟨all_array.mp held,List.forall_mem_singleton.mpr first⟩),last⟩
        have empty : ValidStrings (.array [] : Value ν) := all_array.mpr (List.forall_mem_nil _)
        obtain ⟨array,held,rfl,last⟩ := parseElements_keeps (Q := Valid) (fun _ => valid_skip) (valid_delimiter (by decide))
          keeps empty (valid_skip inside) read
        exact ⟨held,last⟩
    · have skip := valid_skip valid
      rw [skipped] at skip
      exact scalar_valid numbers skip read

/-! The text of such a value. -/

private theorem shortEscape_ascii {c e : Char} (short : shortEscape c = some e) : Ascii c ∧ Ascii e := by
  simp only [shortEscape,Bool.or_eq_true,decide_eq_true_eq] at short
  split at short
  · rename_i same
    cases short
    rcases same with (rfl | rfl) | rfl <;> decide
  split at short
  · subst c; cases short; decide
  split at short
  · subst c; cases short; decide
  split at short
  · subst c; cases short; decide
  split at short
  · subst c; cases short; decide
  split at short
  · subst c; cases short; decide
  · cases short

private theorem hexDigit_ascii : ∀ n < 16, Ascii (hexDigit n) := by decide

private theorem valid_ascii_between {p t : Text} {c : Char} {s : Text} (ascii : ∀ d ∈ c :: s, Ascii d) :
    Valid (p ++ (c :: s ++ t)) ↔ Valid p ∧ Valid t := by
  obtain ⟨first,rest⟩ := List.forall_mem_cons.mp ascii
  rw [List.cons_append,valid_split first,valid_ascii_append rest]

private theorem escape_valid (p : Text) (c : Char) (s : Text) : Valid (p ++ (escape c ++ s)) ↔ Valid (p ++ c :: s) := by
  unfold escape
  split
  · rename_i e short
    obtain ⟨plain,escaped⟩ := shortEscape_ascii short
    rw [valid_split plain]
    exact valid_ascii_between (List.forall_mem_cons.mpr ⟨by decide,List.forall_mem_singleton.mpr escaped⟩)
  · split
    · rename_i control
      have plain : Ascii c := Nat.lt_trans control (by decide)
      have high := hexDigit_ascii (c.toNat / 16) (by omega)
      have low := hexDigit_ascii (c.toNat % 16) (by omega)
      rw [valid_split plain]
      apply valid_ascii_between
      simp only [List.forall_mem_cons]
      exact ⟨by decide,by decide,by decide,by decide,high,low,List.forall_mem_nil _⟩
    · exact Iff.rfl

private theorem escaped_valid (p s t : Text) : Valid (p ++ (s.flatMap escape ++ t)) ↔ Valid (p ++ (s ++ t)) := by
  induction s generalizing p with
  | nil => exact Iff.rfl
  | cons c s ih =>
    have next := ih (p ++ [c])
    rw [List.append_assoc,List.append_assoc] at next
    rw [List.flatMap_cons,List.append_assoc,escape_valid]
    exact next

private theorem quoted_valid {s : Text} (valid : Valid s) : Valid (quoted s) := by
  have inner : Valid (s.flatMap escape ++ ['"']) := by
    have same := escaped_valid [] s ['"']
    exact same.mpr (valid.append (valid_ascii (ascii_text rfl)))
  exact (valid_cons (by decide)).mpr inner

private theorem enclosed_valid {opening closing : Char} {gap close : Text} {parts : List Text}
    (brackets : Ascii opening ∧ Ascii closing)
    (blank : ∀ c ∈ gap, isspace c = true) (blank' : ∀ c ∈ close, isspace c = true) (valid : ∀ part ∈ parts, Valid part) :
    Valid (enclosed opening closing gap close parts) := by
  have spaced : Valid gap := valid_ascii fun c member => isspace_ascii (blank c member)
  have spaced' : Valid close := valid_ascii fun c member => isspace_ascii (blank' c member)
  have closed : Valid [closing] := valid_ascii (by simpa using brackets.2)
  cases parts with
  | nil => exact (valid_cons brackets.1).mpr closed
  | cons part parts =>
    obtain ⟨first,rest⟩ := List.forall_mem_cons.mp valid
    have separated : Valid (parts.flatMap fun part => ',' :: gap ++ part) := by
      clear valid
      induction parts with
      | nil => exact encoded_nil
      | cons second parts ih =>
        obtain ⟨second,rest⟩ := List.forall_mem_cons.mp rest
        exact (((valid_cons (by decide)).mpr spaced).append second).append (ih rest)
    exact (((((valid_cons brackets.1).mpr spaced).append first).append separated).append spaced').append closed

theorem text_valid {lib : Numbers ν} (layout : Layout) {v : Value ν} (readable : Readable lib v)
    (valid : ValidStrings v) (level : Nat) : Valid (text lib layout level v) := by
  induction v using Value.induct generalizing level with
  | null => exact valid_ascii (s := "null".toList) (ascii_text rfl)
  | boolean b =>
    cases b with
    | false => exact valid_ascii (s := "false".toList) (ascii_text rfl)
    | true => exact valid_ascii (s := "true".toList) (ascii_text rfl)
  | number x =>
    have reads : Reads lib (lib.print x) x := readable
    exact valid_ascii fun c member => (reads.printable c member).2
  | string chars => exact quoted_valid valid
  | array items ih =>
    rw [text,map_textItems]
    apply enclosed_valid (by decide) (layout.blank_gap level) (layout.blank_close level)
    intro part member
    obtain ⟨v,held,rfl⟩ := List.mem_map.mp member
    exact ih v held (all_array.mp readable v held) (all_array.mp valid v held) (level + 1)
  | object members ih =>
    obtain ⟨named,values⟩ := all_object.mp valid
    rw [text,map_textMembers]
    apply enclosed_valid (by decide) (layout.blank_gap level) (layout.blank_close level)
    intro part member
    obtain ⟨m,held,rfl⟩ := List.mem_map.mp member
    have key : Valid (quoted m.1) := quoted_valid (named m.1 (List.mem_map_of_mem held))
    have colon : Valid (':' :: layout.colon) :=
      (valid_cons (by decide)).mpr (valid_ascii fun c member => isspace_ascii (layout.blank_colon c member))
    exact (key.append colon).append (ih m held ((all_object.mp readable).2 m held) (values m held) (level + 1))

private theorem valid_unmarked {s : Text} (marked : byteOrderMark.isPrefixOf s = true) (valid : Valid s) :
    Valid (s.drop 3) := by
  obtain ⟨t,rfl⟩ := List.isPrefixOf_iff_prefix.mp marked
  have mark : bytes byteOrderMark = codes (Char.ofNat 0xFEFF) := by decide
  rw [← isValidUtf8_iff,isValidUtf8,bytes_append,mark,validLoop_codes] at valid
  exact (isValidUtf8_iff t).mp valid

/-- Of a text in UTF-8 the parser makes strings in UTF-8, whatever escapes they are written
with, and such a value is written in UTF-8 again. -/
theorem parse_valid {lib : Numbers ν} (numbers : AsciiNumbers lib) {s : Text} {v : Value ν}
    (valid : isValidUtf8 s = true) (parsed : jsonParseString lib s = some v) :
    ValidStrings v ∧ (Readable lib v → ∀ isPretty m, ∃ s', jsonSerializeToString lib isPretty v m = some s' ∧
      isValidUtf8 s' = true) := by
  have strings : ValidStrings v := by
    simp only [jsonParseString,Option.map_eq_some_iff] at parsed
    obtain ⟨⟨v,rest⟩,read,same⟩ := parsed
    cases same
    apply (parseValue_valid numbers _ read).1
    split_ifs with marked
    · exact valid_unmarked marked ((isValidUtf8_iff s).mp valid)
    · exact (isValidUtf8_iff s).mp valid
  refine ⟨strings,fun readable isPretty m => ⟨_,serializeToString_text readable m,?_⟩⟩
  exact (isValidUtf8_iff _).mpr (text_valid _ readable strings 0)

private theorem ascii_decimals : AsciiNumbers decimals := by
  intro s c member
  have taken : s.take (decimals.strtod s).2.1 = s.takeWhile numberChar := by
    exact (List.prefix_iff_eq_take.mp (List.takeWhile_prefix numberChar)).symm
  rw [taken] at member
  exact (numberChar_printable (List.mem_takeWhile_imp member)).2

theorem parse_valid_sample : ValidStrings bankSample ∧
    (Readable decimals bankSample → ∀ isPretty m, ∃ s, jsonSerializeToString decimals isPretty bankSample m = some s ∧
      isValidUtf8 s = true) := by
  have parsed := parseString_text pretty bankSample_readable
  rw [if_pos (by decide)] at parsed
  exact parse_valid ascii_decimals (by decide +kernel) parsed

end Mybmm.Json
