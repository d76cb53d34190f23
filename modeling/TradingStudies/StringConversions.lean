import TradingStudies.Library.SignificandRound

/-!
# `std::stoull` and `std::stod`

Both skip white space, convert the longest prefix that has the form of a
number, and ignore what follows it.  They throw `invalid_argument` where there
is no such prefix and `out_of_range` where the number has no place in the
result type.  The name of the function is the text of the exception.

A `double` is kept as its 64 bits.
-/

namespace TradingStudies
namespace StringConversions

open SignificandRound (nearest)

inductive Exception
  | invalid_argument (what : String)
  | out_of_range (what : String)
  deriving DecidableEq, Repr

def isspace (c : Char) : Bool := c = ' ' ∨ ('\t' ≤ c ∧ c ≤ '\r')

/-- The sign, if there is one: whether it is a minus, and what follows it. -/
def sign : List Char → Bool × List Char
  | '-' :: rest => (true, rest)
  | '+' :: rest => (false, rest)
  | rest => (false, rest)

def digit (base : ℕ) (c : Char) : Option ℕ :=
  let value :=
    if '0' ≤ c ∧ c ≤ '9' then c.toNat - '0'.toNat
    else if 'a' ≤ c ∧ c ≤ 'f' then c.toNat - 'a'.toNat + 10
    else if 'A' ≤ c ∧ c ≤ 'F' then c.toNat - 'A'.toNat + 10
    else base
  if value < base then some value else none

def digits (base : ℕ) : List Char → List ℕ × List Char
  | [] => ([], [])
  | c :: rest =>
      match digit base c with
      | none => ([], c :: rest)
      | some value =>
          let (more, rest) := digits base rest
          (value :: more, rest)

def valueOf (base : ℕ) (ds : List ℕ) : ℕ :=
  ds.foldl (fun value d => base * value + d) 0

/-- A minus sign turns the number round, modulo 2^64. -/
def stoull (token : List Char) : Except Exception UInt64 :=
  let (negative, rest) := sign (token.dropWhile isspace)
  match (digits 10 rest).1 with
  | [] => .error (.invalid_argument "stoull")
  | ds =>
      let value := valueOf 10 ds
      if 2 ^ 64 ≤ value then .error (.out_of_range "stoull")
      else if negative then .ok (-UInt64.ofNat value)
      else .ok (UInt64.ofNat value)

/-! ## Floating-point numbers -/

/-- What the characters of a number stand for, without its sign. -/
inductive Magnitude
  | ratio (num den : ℕ)
  | infinity
  | nan
  deriving DecidableEq, Repr

def scale (value base : ℕ) (exponent : ℤ) : Magnitude :=
  if 0 ≤ exponent then .ratio (value * base ^ exponent.toNat) 1
  else .ratio value (base ^ (-exponent).toNat)

/-- Digits with at most one point among them: their value, how many of them
follow the point, and the rest. -/
def significand (base : ℕ) (chars : List Char) : Option (ℕ × ℕ × List Char) :=
  let (whole, rest) := digits base chars
  let (fraction, rest) :=
    match rest with
    | '.' :: rest => digits base rest
    | rest => ([], rest)
  if whole ++ fraction = [] then none
  else some (valueOf base (whole ++ fraction), fraction.length, rest)

/-- An exponent after its mark; without digits there is none. -/
def exponent (mark : Char) : List Char → ℤ
  | [] => 0
  | c :: rest =>
      if c.toLower = mark then
        let (negative, rest) := sign rest
        let value : ℤ := valueOf 10 (digits 10 rest).1
        if negative then -value else value
      else 0

def hexadecimal : List Char → Option Magnitude
  | '0' :: x :: rest =>
      if x.toLower = 'x' then
        (significand 16 rest).map fun (value, fraction, rest) =>
          scale value 2 (exponent 'p' rest - 4 * fraction)
      else none
  | _ => none

def decimal (chars : List Char) : Option Magnitude :=
  (significand 10 chars).map fun (value, fraction, rest) =>
    scale value 10 (exponent 'e' rest - fraction)

/-- `inf` and `nan`, in upper or lower case. -/
def named (chars : List Char) : Option Magnitude :=
  let name := (chars.take 3).map Char.toLower
  if name = ['i', 'n', 'f'] then some .infinity
  else if name = ['n', 'a', 'n'] then some .nan
  else none

def leading (num den : ℕ) : ℤ :=
  if den ≤ num then Nat.log 2 (num / den)
  else -Nat.clog 2 ((den + num - 1) / num)

/-- The number of units `2 ^ unit` that a ratio comes to, to nearest, a tie to
even. -/
def unitsOf (num den : ℕ) (unit : ℤ) : ℕ :=
  if 0 ≤ unit then nearest num (den * 2 ^ unit.toNat)
  else nearest (num * 2 ^ (-unit).toNat) den

def infinityBits : ℕ := 2047 * 2 ^ 52

/-- The nearest `double`; none where it overflows, or where it is inexact and
has, rounded to 53 digits, an exponent too small for a normal number. -/
def toBinary64 : Magnitude → Option ℕ
  | .infinity => some infinityBits
  | .nan => some (infinityBits + 2 ^ 51)
  | .ratio num den =>
      if num = 0 then some 0
      else
        let full := leading num den - 52
        let unit := max full (-1074)
        let bits := (unit + 1074).toNat * 2 ^ 52 + unitsOf num den unit
        let tiny := full + (unitsOf num den full / 2 ^ 53 : ℕ) < -1074
        let exact := num * 2 ^ 1074 =
          unitsOf num den unit * den * 2 ^ (unit + 1074).toNat
        if infinityBits ≤ bits ∨ (tiny ∧ ¬ exact) then none
        else some bits

def stod (token : List Char) : Except Exception UInt64 :=
  let (negative, rest) := sign (token.dropWhile isspace)
  match hexadecimal rest <|> decimal rest <|> named rest with
  | none => .error (.invalid_argument "stod")
  | some magnitude =>
      match toBinary64 magnitude with
      | none => .error (.out_of_range "stod")
      | some bits =>
          if negative then .ok (UInt64.ofNat (bits + 2 ^ 63))
          else .ok (UInt64.ofNat bits)

end StringConversions
end TradingStudies
