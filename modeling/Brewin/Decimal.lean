import Brewin.Numeral

namespace Brewin

/-- A decimal number, `digits` times ten to the power of `exponent`. -/
structure Decimal where
  negative : Bool
  digits : Nat
  exponent : Int
  deriving DecidableEq, Repr

/-- The quotient rounded to the nearest whole number, a half to the even neighbour. -/
def roundDiv (a b : Nat) : Nat :=
  if 2 * (a % b) < b ∨ (2 * (a % b) = b ∧ a / b % 2 = 0) then a / b else a / b + 1

/-- The number of bits in front of the point. -/
def bitLength (n : Nat) : Nat :=
  if n = 0 then 0 else Nat.log2 n + 1

/-- The whole part of a quotient, after it has been rounded to 53 significant bits. Below 1 that
are 53 bits behind the point, which is enough to see whether it becomes 1. -/
def roundedWhole (a b : Nat) : Nat :=
  let bits := bitLength (a / b)
  if bits ≤ 53 then roundDiv (a * Nat.pow 2 (53 - bits)) b / Nat.pow 2 (53 - bits)
  else roundDiv a (b * Nat.pow 2 (bits - 53)) * Nat.pow 2 (bits - 53)

namespace Decimal

/-- Reads digits with an optional sign, an optional point and an optional exponent. -/
def read? (cs : List Char) : Option Decimal :=
  let (negative, cs) :=
    match cs with
    | '-' :: rest => (true, rest)
    | '+' :: rest => (false, rest)
    | cs => (false, cs)
  let whole := cs.takeWhile Char.isDigit
  let (fraction, cs) :=
    match cs.dropWhile Char.isDigit with
    | '.' :: rest => (rest.takeWhile Char.isDigit, rest.dropWhile Char.isDigit)
    | rest => ([], rest)
  let exponent? : Option Int :=
    match cs with
    | [] => some 0
    | c :: rest => if c = 'e' ∨ c = 'E' then readSigned? rest else none
  match readNat? (whole ++ fraction), exponent? with
  | some digits, some exponent => some ⟨negative, digits, exponent - fraction.length⟩
  | _, _ => none

/-- The size of the whole part of the nearest double; none if there is no finite one. Exponents
that put the number far out of sight are not worked out. -/
def magnitude? (d : Decimal) : Option Nat :=
  let places : Int := (Nat.toDigits 10 d.digits).length + d.exponent
  if d.digits = 0 ∨ places < 0 then some 0
  else if 310 < places then none
  else
    let whole :=
      if 0 ≤ d.exponent then roundedWhole (d.digits * Nat.pow 10 d.exponent.toNat) 1
      else roundedWhole d.digits (Nat.pow 10 (-d.exponent).toNat)
    if whole < Nat.pow 2 1024 then some whole else none

/-- The nearest double without its fraction as a 64-bit word. One that is too small counts as the
least, and so does the first one that is too large; the others are refused. -/
def toInt? (d : Decimal) : Option Int :=
  match d.magnitude? with
  | none => none
  | some n =>
    if n < 0x8000000000000000 then some (if d.negative then -(n : Int) else n)
    else if d.negative ∨ n = 0x8000000000000000 then some (-0x8000000000000000)
    else none

end Decimal

end Brewin
