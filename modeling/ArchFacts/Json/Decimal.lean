/-!
# Written numbers

A number is written by decimal digits, with a fraction and an exponent if need be. Here stand the
grammar of numbers and the bound on their size: a number is read in double precision and must not
pass its range.

The reading is a coarse one. The digits of a number are collected in a significand of 64 bits; the
digits after the last one that fits count for their places at most. The significand and the power of
ten that is left are rounded to double precision, and their product is rounded once more.
-/

namespace ArchFacts.Json

/-! ## Grammar -/

/-- The value of a digit. -/
def digitValue (c : Char) : Nat := c.toNat - '0'.toNat

/-- The value of some digits. -/
def digitsValue (digits : List Char) : Nat := digits.foldl (fun n c => 10 * n + digitValue c) 0

/-- The digits at the start of a text, of which there must be at least one, and what follows
them. -/
def someDigits? (cs : List Char) : Option (List Char × List Char) :=
  match cs.takeWhile Char.isDigit with
  | [] => none
  | digits => some (digits, cs.dropWhile Char.isDigit)

/-- The fraction of a number, if it has one, and what follows. -/
def fraction? : List Char → Option (List Char × List Char)
  | '.' :: cs => someDigits? cs
  | cs => some ([], cs)

/-- The exponent of a number, if it has one. It must be the last part. -/
def exponent? : List Char → Option Int
  | [] => some 0
  | c :: cs =>
    if c = 'e' || c = 'E' then
      let (negative, cs) : Bool × List Char :=
        match cs with
        | '-' :: cs => (true, cs)
        | '+' :: cs => (false, cs)
        | cs => (false, cs)
      match someDigits? cs with
      | some (digits, []) =>
        some (if negative then -(digitsValue digits : Int) else digitsValue digits)
      | _ => none
    else none

/-! ## Reading -/

/-- A significand and a power of ten whose product is the magnitude of a number. -/
structure Decimal where
  significand : Nat
  exponent : Int
  deriving DecidableEq, Repr

namespace Decimal

/-- The bound of significands. -/
def significandLimit : Nat := 1 <<< 64

/-- A significand with digits added at its end, up to the first one that does not fit; that digit
and those after it are left. -/
def addDigits (significand : Nat) : List Char → Nat × List Char
  | [] => (significand, [])
  | c :: cs =>
    let longer := 10 * significand + digitValue c
    if longer < significandLimit then addDigits longer cs else (significand, c :: cs)

/-- The number with some digits before and after the point. A digit before the point that is left
out counts as a place, one after the point does not count. -/
def ofDigits (whole fraction : List Char) (exponent : Int) : Decimal :=
  let (significand, places) := addDigits 0 whole
  let (significand, left) := addDigits significand fraction
  { significand, exponent := exponent + places.length - (fraction.length - left.length : Nat) }

/-- The magnitude of a written number. -/
def ofLiteral? (literal : List Char) : Option Decimal := do
  let cs := if literal.head? = some '-' then literal.drop 1 else literal
  let (whole, cs) ← someDigits? cs
  if whole.head? = some '0' && 1 < whole.length then none
  let (fraction, cs) ← fraction? cs
  return ofDigits whole fraction (← exponent? cs)

end Decimal

/-! ## Range -/

/-- The number nearest to a number among those of 53 bits and some zero bits after them; of two that
are as near, the one whose 53 bits are even. -/
def roundToDouble (n : Nat) : Nat :=
  let unit := 1 <<< (n.log2 - 52)
  let (quotient, rest) := (n / unit, n % unit)
  if 2 * rest < unit || 2 * rest = unit && quotient % 2 = 0 then quotient * unit
  else (quotient + 1) * unit

/-- The least number that rounds past the largest number of double precision. -/
def doubleLimit : Nat := (1 <<< 1024) - (1 <<< 970)

/-- The exponent of the largest power of ten in double precision. -/
def largestExponent : Int := 308

/-- Whether a number is past the range of double precision. A number that is too small for it reads
as zero. -/
def Decimal.outOfRange (d : Decimal) : Bool :=
  if d.significand = 0 || d.exponent < 0 then false
  else if largestExponent < d.exponent then true
  else doubleLimit ≤ roundToDouble d.significand * roundToDouble (Nat.pow 10 d.exponent.toNat)

end ArchFacts.Json
