import Mybmm.Support.CString

/-! Text that is printed piece by piece, either into memory or only counted. A piece that is
printed leaves a terminator behind it, over which the next one is printed; a character alone
leaves none. -/
namespace Mybmm.Output
open CString

structure Out where
  buf : Option (Memory × Nat)
  written : Nat

def appendString (s : Text) (out : Out) : Out where
  buf := out.buf.map fun (m,p) => (strcpy m p s,p + s.length)
  written := out.written + s.length

def appendChar (c : Char) (out : Out) : Out where
  buf := out.buf.map fun (m,p) => (store m p [c],p + 1)
  written := out.written + 1

/-- Memory in which a text lies from a place on, and nothing else is changed but what follows it. -/
structure Placed (m : Memory) (p : Nat) (s : Text) (m' : Memory) : Prop where
  lies : Lies m' p s
  frame : ∀ i, i < p ∨ p + s.length < i → m' i = m i

/-- A step that counts a text, or places it where the pointer is and moves the pointer behind it. -/
structure Emits (f : Out → Out) (s : Text) : Prop where
  count : ∀ out, (f out).written = out.written + s.length
  counted : ∀ out, out.buf = none → (f out).buf = none
  placed : ∀ out m p, out.buf = some (m,p) → ∃ m', (f out).buf = some (m',p + s.length) ∧ Placed m p s m'

/-- A step that leaves a terminator where the pointer is. -/
def Terminates (f : Out → Out) : Prop := ∀ out m p, (f out).buf = some (m,p) → m p = nul

theorem emits_id : Emits (fun out => out) [] where
  count _ := rfl
  counted _ none := none
  placed _ m _ some := ⟨m,some,trivial,fun _ _ => rfl⟩

theorem emits_string (s : Text) : Emits (appendString s) s where
  count _ := rfl
  counted out none := by simp [appendString,none]
  placed out m p some := by
    refine ⟨strcpy m p s,by simp [appendString,some],(lies_append.mp lies_store).1,?_⟩
    intro i outside
    rcases outside with before | after
    · exact strcpy_before m p s i before
    · exact strcpy_after m p s i after

theorem emits_char (c : Char) : Emits (appendChar c) [c] where
  count _ := rfl
  counted out none := by simp [appendChar,none]
  placed out m p some := by
    refine ⟨store m p [c],by simp [appendChar,some],lies_store,?_⟩
    intro i outside
    rcases outside with before | after
    · exact store_before m p [c] i before
    · exact store_after m p [c] i (Nat.le_of_lt after)

theorem terminates_string (s : Text) : Terminates (appendString s) := by
  intro out m p found
  simp only [appendString,Option.map_eq_some_iff] at found
  obtain ⟨⟨m',p'⟩,_,same⟩ := found
  cases same
  exact strcpy_terminator m' p' s

theorem Placed.append {m m' m'' : Memory} {p : Nat} {s t : Text} (first : Placed m p s m')
    (second : Placed m' (p + s.length) t m'') : Placed m p (s ++ t) m'' where
  lies := by
    rw [lies_append]
    refine ⟨lies_congr ?_ first.lies,second.lies⟩
    exact fun i _ before => (second.frame i (Or.inl before)).symm
  frame i outside := by
    rw [List.length_append] at outside
    rw [second.frame i (by omega),first.frame i (by omega)]

theorem Emits.comp {f g : Out → Out} {s t : Text} (first : Emits f s) (second : Emits g t) :
    Emits (fun out => g (f out)) (s ++ t) where
  count out := by rw [second.count,first.count,List.length_append,Nat.add_assoc]
  counted out none := second.counted _ (first.counted out none)
  placed out m p some := by
    obtain ⟨m',found,placed⟩ := first.placed out m p some
    obtain ⟨m'',found',placed'⟩ := second.placed _ m' _ found
    refine ⟨m'',?_,placed.append placed'⟩
    rw [found',List.length_append,Nat.add_assoc]

theorem Terminates.comp {f g : Out → Out} (terminates : Terminates g) : Terminates fun out => g (f out) :=
  fun out m p found => terminates (f out) m p found

theorem Emits.ite {f g : Out → Out} {s t : Text} (b : Bool) (first : Emits f s) (second : Emits g t) :
    Emits (fun out => if b then f out else g out) (if b then s else t) := by
  cases b with
  | false => exact second
  | true => exact first

theorem Emits.cast {f : Out → Out} {s t : Text} (emits : Emits f s) (same : s = t) : Emits f t := same ▸ emits

/-- Steps that are taken one after the other. -/
theorem emits_foldl {α : Type} {step : α → Out → Out} {text : α → Text} (each : ∀ a, Emits (step a) (text a))
    (as : List α) : Emits (fun out => as.foldl (fun out a => step a out) out) (as.flatMap text) := by
  induction as with
  | nil => exact emits_id
  | cons a as ih => exact (each a).comp ih

theorem Emits.counts {f : Out → Out} {s : Text} (emits : Emits f s) : (f ⟨none,0⟩).written = s.length := by
  rw [emits.count]
  exact Nat.zero_add s.length

/-- What is printed into memory is the text that is counted, with its terminator. -/
theorem Emits.prints {f : Out → Out} {s : Text} (emits : Emits f s) (terminates : Terminates f) (m : Memory) (p : Nat) :
    ∃ m', (f ⟨some (m,p),0⟩).buf = some (m',p + s.length) ∧ Lies m' p (s ++ [nul]) ∧
      ∀ i, i < p ∨ p + s.length < i → m' i = m i := by
  obtain ⟨m',found,placed⟩ := emits.placed ⟨some (m,p),0⟩ m p rfl
  exact ⟨m',found,lies_append.mpr ⟨placed.lies,terminates _ _ _ found,trivial⟩,placed.frame⟩

end Mybmm.Output
