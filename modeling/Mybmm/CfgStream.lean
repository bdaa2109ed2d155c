import Mybmm.CfgFile

/-! The read loop of `cfg_read` on a stream: its end is told by `feof`, which a read error
does not set. -/
namespace Mybmm.CfgStream
open CString Libc Cfg CfgFile

/-- How a stream ends, once its bytes are read: `fgetc` returns EOF either way. -/
inductive Ending where
  | eof | error
deriving DecidableEq, Repr

structure Stream where
  bytes : Text
  ending : Ending
  feof : Bool

/-- `_readline`: null once the end of the file was met. -/
def readlineFrom (size : Nat) (fp : Stream) : Option (Text × Stream) :=
  if fp.feof then none else
  let (line,rest) := readline size fp.bytes
  match rest with
  | some bytes => some (line,{ fp with bytes := bytes })
  | none => some (line,{ fp with bytes := [], feof := fp.ending = .eof })

section
variable {σ : Type} (body : σ → Text → σ)

/-- The loop, whose body never leaves it, for so many turns. -/
def readLoop : (fuel : Nat) → Stream → σ → Option σ
  | 0, _, _ => none
  | fuel + 1, fp, s =>
    match readlineFrom 1022 fp with
    | none => some s
    | some (line,fp) => readLoop fuel fp (body s line)

/-- At the end of a file the loop has taken its lines, one for each line feed at most and
the last. -/
private theorem readLoop_eof (bytes : Text) (fuel : Nat) (enough : bytes.length + 2 ≤ fuel) (s : σ) :
    readLoop body fuel ⟨bytes,.eof,false⟩ s = some ((readLines bytes).foldl body s) := by
  induction fuel generalizing bytes s with
  | zero => exact absurd enough (Nat.not_succ_le_zero _)
  | succ fuel ih =>
    have shorter := readChars_shorter 1021 [] bytes
    rw [readLines]
    split
    · rename_i line last
      have ended : fuel ≠ 0 := by omega
      obtain ⟨more,rfl⟩ := Nat.exists_eq_succ_of_ne_zero ended
      simp only [readLoop,readlineFrom,last,Bool.false_eq_true,if_false,decide_true,if_true,List.foldl_cons,
        List.foldl_nil]
    · rename_i line rest next
      have less : rest.length < bytes.length := shorter rest (congrArg Prod.snd next)
      simp only [readLoop,readlineFrom,next,Bool.false_eq_true,if_false,List.foldl_cons]
      exact ih rest (by omega) (body s line)

/-- After a read error every call returns a line. -/
private theorem readLoop_error (fuel : Nat) (bytes : Text) (s : σ) : readLoop body fuel ⟨bytes,.error,false⟩ s = none := by
  induction fuel generalizing bytes s with
  | zero => rfl
  | succ fuel ih =>
    cases taken : readline 1022 bytes with
    | mk line rest =>
      cases rest with
      | none =>
        simp only [readLoop,readlineFrom,taken,Bool.false_eq_true,if_false]
        exact ih [] (body s line)
      | some rest =>
        simp only [readLoop,readlineFrom,taken,Bool.false_eq_true,if_false]
        exact ih rest (body s line)

/-- The loop ends exactly on the streams that end by end of file. -/
theorem readLoop_ends_iff (bytes : Text) (ending : Ending) (s : σ) :
    (∃ fuel t, readLoop body fuel ⟨bytes,ending,false⟩ s = some t) ↔ ending = .eof := by
  constructor
  · rintro ⟨fuel,t,ends⟩
    cases ending with
    | eof => rfl
    | error =>
      rw [readLoop_error] at ends
      exact absurd ends.symm (Option.some_ne_none t)
  · rintro rfl
    exact ⟨_,_,readLoop_eof body bytes _ le_rfl s⟩

end

/-- The body of `cfg_read`, on the store it builds. -/
def cfgReadBody (r : Option Reader) (line : Text) : Option Reader := r.bind fun r => cfgReadLine r line

theorem readLoop_cfgRead (file : Text) :
    (readLoop cfgReadBody (file.length + 2) ⟨file,.eof,false⟩ (some ⟨⟨[]⟩,none,[]⟩)).map (Option.map Reader.info) =
      some (cfgRead file) := by
  have lines (lines : List Text) (r : Reader) : lines.foldl cfgReadBody (some r) = lines.foldlM cfgReadLine r := by
    induction lines generalizing r with
    | nil => rfl
    | cons line lines ih =>
      rw [List.foldl_cons,List.foldlM_cons,cfgReadBody,Option.bind_some]
      cases cfgReadLine r line with
      | none => exact List.foldl_fixed' (fun _ => rfl) lines
      | some t => exact ih t
  rw [readLoop_eof _ _ _ le_rfl,lines,cfgRead,Option.map_some]

/-- A directory is opened, and its first read fails. -/
theorem directory_never_ends :
    ¬ ∃ fuel t, readLoop cfgReadBody fuel ⟨[],.error,false⟩ (some ⟨⟨[]⟩,none,[]⟩) = some t := by
  rintro ⟨fuel,t,ends⟩
  rw [readLoop_error] at ends
  exact absurd ends.symm (Option.some_ne_none t)

end Mybmm.CfgStream
