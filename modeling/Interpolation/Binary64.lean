import Interpolation.Decimal

/-! Floating point numbers of 64 bits, how they are read from decimal numerals and how they are
written. A float is a sign and a magnitude of 63 bits. Magnitudes are ordered as the numbers they
stand for, from zero to infinity, above which lie the NaNs. In units of `2 ^ -1074` every finite
magnitude stands for a natural number, so that rounding and printing need only natural
arithmetic. -/

namespace Interpolation

structure Binary64 where
  bits : BitVec 64

namespace Binary64

def infinity : Nat := 2047 * Nat.pow 2 52

def negative (x : Binary64) : Bool :=
  x.bits.msb

def magnitude (x : Binary64) : Nat :=
  (x.bits.setWidth 63).toNat

def ofMagnitude (negative : Bool) (magnitude : Nat) : Binary64 :=
  ⟨BitVec.ofBool negative ++ BitVec.ofNat 63 magnitude⟩

def isFinite (x : Binary64) : Bool :=
  x.magnitude < infinity

def isNaN (x : Binary64) : Bool :=
  infinity < x.magnitude

def nan : Binary64 :=
  ofMagnitude false (infinity + Nat.pow 2 51)

/-- Equality of numbers: the two zeros are equal, and a NaN differs from everything. -/
instance : BEq Binary64 where
  beq x y := !x.isNaN && !y.isNaN && (x.bits == y.bits || (x.magnitude == 0 && y.magnitude == 0))

/-- The number a finite magnitude stands for, in units of `2 ^ -1074`: the first `2 ^ 53`
magnitudes are one unit apart, and every further `2 ^ 52` double the distance. -/
def units (magnitude : Nat) : Nat :=
  if magnitude < Nat.pow 2 52 then magnitude
  else (Nat.pow 2 52 + magnitude % Nat.pow 2 52) * Nat.pow 2 (magnitude / Nat.pow 2 52 - 1)

def roundHalfEven (numerator denominator : Nat) : Nat :=
  let quotient := numerator / denominator
  let twice := 2 * (numerator % denominator)
  if denominator < twice || (twice == denominator && quotient % 2 == 1) then quotient + 1
  else quotient

/-- Within the scale of the quotient the magnitudes are equally spaced, and the one past the last of
a scale is the first of the next. -/
def nearest (numerator denominator : Nat) : Nat :=
  let scale := (numerator / denominator).log2 - 52
  min infinity (scale * Nat.pow 2 52 + roundHalfEven numerator (denominator * Nat.pow 2 scale))

/-- Exponents that are out of all proportion are settled without computing the power. -/
def nearestDecimal (coefficient : Nat) (exponent : Int) : Nat :=
  if coefficient == 0 then 0
  else if 400 < exponent then infinity
  else if exponent + (coefficient.log2 / 3 + 1 : Nat) < -400 then 0
  else if 0 ≤ exponent then nearest (coefficient * Nat.pow 10 exponent.toNat * Nat.pow 2 1074) 1
  else nearest (coefficient * Nat.pow 2 1074) (Nat.pow 10 (-exponent).toNat)

def ofDecimal (number : Decimal) : Binary64 :=
  ofMagnitude number.negative (nearestDecimal number.coefficient number.exponent)

def ofNat (n : Nat) : Binary64 :=
  ofMagnitude false (nearest (n * Nat.pow 2 1074) 1)

inductive Tie
  | up
  | even

def Tie.prefersLower : Tie → Nat → Bool
  | .up, _ => false
  | .even, lower => lower % 2 == 0

/-- A finite number as a quotient over `2 ^ 1074`, in units of `10 ^ -340`; the least float has
seventeen digits in these units. -/
def scaled (magnitude : Nat) : Nat :=
  units magnitude * Nat.pow 10 340

def onGrid (tie : Tie) (magnitude count : Nat) : Option (Nat × Int) :=
  let number := scaled magnitude
  let spare := (Nat.toDigits 10 (number / Nat.pow 2 1074)).length - count
  let step := Nat.pow 2 1074 * Nat.pow 10 spare
  let lower := number / step
  let twice := 2 * (number % step)
  let exponent : Int := (spare : Int) - 340
  let neighbours :=
    if twice < step || (twice == step && tie.prefersLower lower) then [lower, lower + 1]
    else [lower + 1, lower]
  (neighbours.find? (nearestDecimal · exponent == magnitude)).map (·, exponent)

def dropZeros : (count : Nat) → Nat × Int → Nat × Int
  | 0, number => number
  | count + 1, (coefficient, exponent) =>
    if coefficient % 10 == 0 then dropZeros count (coefficient / 10, exponent + 1)
    else (coefficient, exponent)

/-- The first grid with a neighbour that reads back decides, and of two such neighbours the nearer.
Where no grid has one the exact decimal is given. -/
def shortest (tie : Tie) (magnitude : Nat) : Nat × Int :=
  if magnitude == 0 then (0, 0)
  else
    let found := (List.range 17).findSome? fun count => onGrid tie magnitude (count + 1)
    let number := found.getD (units magnitude * Nat.pow 5 1074, -1074)
    dropZeros (Nat.toDigits 10 number.1).length number

def ofWord? (word : List Char) : Option Nat :=
  let word := word.map Char.toLower
  if word == "inf".toList || word == "infinity".toList then some infinity
  else if word == "nan".toList then some nan.magnitude
  else none

def ofText? (text : List Char) : Option Binary64 :=
  match Decimal.ofText? text with
  | some number => some (ofDecimal number)
  | none =>
    let (negative, word) := Decimal.splitSign text
    (ofWord? word).map (ofMagnitude negative)

def toText (x : Binary64) : List Char :=
  if x.isNaN then "NaN".toList
  else
    let number :=
      if x.isFinite then
        let (coefficient, exponent) := shortest .up x.magnitude
        Decimal.plain coefficient exponent
      else "inf".toList
    if x.negative then '-' :: number else number

end Binary64

end Interpolation
