import Mathlib.Data.Rat.Defs
import Mathlib.Algebra.Order.Field.Rat
import Mybmm.Support.CString

/-! The C library's reading and comparison of text, and C's conversion of numbers. Floating
values are exact rationals; the hexadecimal forms and the words for infinity and
NaN, which name no rational a configuration could mean, are read as other text. -/
namespace Mybmm.Libc
open CString

/-- The white space of the C locale: blank, tab, line feed, vertical tab, form
feed and carriage return. -/
def isspace (c : Char) : Bool := c = ' ' || (9 ≤ c.toNat && c.toNat ≤ 13)

def isdigit (c : Char) : Bool := c.isDigit

def toupper (s : Text) : Text := s.map Char.toUpper

def tolower (s : Text) : Text := s.map Char.toLower

def digits (s : Text) : Nat := s.foldl (fun n c => 10 * n + (c.toNat - '0'.toNat)) 0

def sign : Text → Int × Text
  | '-' :: rest => (-1,rest)
  | '+' :: rest => (1,rest)
  | s => (1,s)

/-- `strtol` in base ten: saturates at the ends of a 64-bit `long`. -/
def strtol (s : Text) : Int :=
  let (sgn,s) := sign (s.dropWhile isspace)
  max (-2^63) (min (2^63 - 1) (sgn * digits (s.takeWhile isdigit)))

/-- `atoi` keeps the low 32 bits of what `strtol` reads. -/
def atoi (s : Text) : Int := (BitVec.ofInt 32 (strtol s)).toInt

def exponent : Text → Int
  | c :: rest =>
    let (sgn,s) := sign rest
    if c = 'e' || c = 'E' then sgn * digits (s.takeWhile isdigit) else 0
  | [] => 0

def atof (s : Text) : ℚ :=
  let (sgn,s) := sign (s.dropWhile isspace)
  let whole := s.takeWhile isdigit
  let s := s.dropWhile isdigit
  let (fraction,s) := match s with
    | '.' :: rest => (rest.takeWhile isdigit,rest.dropWhile isdigit)
    | s => ([],s)
  if whole = [] ∧ fraction = [] then 0
  else sgn * digits (whole ++ fraction) * (10 : ℚ) ^ (exponent s - fraction.length)

/-- `(int)x`: towards zero. -/
def truncate (x : ℚ) : Int := x.num.tdiv x.den

example : atoi " -14x".toList = -14 := by decide
example : atof "-1.0".toList = -1 := by decide +kernel
example : atof "2.5e2".toList = 250 := by decide +kernel
example : truncate (-7/2) = -3 := by decide +kernel

/-- The sign of what `strcmp` returns; characters are compared as bytes. -/
def strcmp : Text → Text → Int
  | [], [] => 0
  | [], _ :: _ => -1
  | _ :: _, [] => 1
  | c :: s, d :: t => if c.toNat < d.toNat then -1 else if d.toNat < c.toNat then 1 else strcmp s t

theorem strcmp_neg (s t : Text) : strcmp t s = -strcmp s t := by
  induction s generalizing t with
  | nil => cases t <;> rfl
  | cons c s ih =>
    cases t with
    | nil => rfl
    | cons d t =>
      rcases Nat.lt_trichotomy c.toNat d.toNat with less | same | more
      · simp [strcmp,less,Nat.lt_asymm less]
      · simp [strcmp,same,ih t]
      · simp [strcmp,more,Nat.lt_asymm more]

theorem strcmp_values (s t : Text) : strcmp s t = -1 ∨ strcmp s t = 0 ∨ strcmp s t = 1 := by
  induction s generalizing t with
  | nil => cases t <;> simp [strcmp]
  | cons c s ih =>
    cases t with
    | nil => simp [strcmp]
    | cons d t =>
      rw [strcmp]
      split_ifs
      · exact Or.inl rfl
      · exact Or.inr (Or.inr rfl)
      · exact ih t

theorem strcmp_trans (s t u : Text) (first : strcmp s t ≤ 0) (second : strcmp t u ≤ 0) : strcmp s u ≤ 0 := by
  induction s generalizing t u with
  | nil => cases u <;> simp [strcmp]
  | cons c s ih =>
    cases t with
    | nil => simp [strcmp] at first
    | cons d t =>
      cases u with
      | nil => simp [strcmp] at second
      | cons e u =>
        rw [strcmp] at first second ⊢
        split_ifs at first second ⊢ with above below
        all_goals first | omega | exact ih t u first second

end Mybmm.Libc
