/-!
# Finite doubles in exact arithmetic

A double is held as a sign, a significand below `2 ^ 53` and an exponent, and counts units of
`2 ^ (-1074)`, the least positive double: its absolute value is `significand * 2 ^ exponent` of
them. Rounding, product and quotient are computed on natural numbers, so that nothing about them
is left to the machine.
-/

namespace MessageFormat

def powerOfTen (n : Nat) : Nat :=
  Nat.pow 10 n

/-- The absolute value of a double with an exponent that is not bounded above. -/
structure Magnitude where
  significand : Nat
  exponent : Nat
deriving DecidableEq, Repr

namespace Magnitude

/-- The number of units in one. -/
def one : Nat := 1 <<< 1074

def units (m : Magnitude) : Nat :=
  m.significand <<< m.exponent

def isZero (m : Magnitude) : Bool :=
  m.significand = 0

/-- The exponents above this one belong to no double. -/
def maxExponent : Nat := 2045

def isFinite (m : Magnitude) : Bool :=
  m.exponent ≤ maxExponent

/-- A ratio of natural numbers rounded to an integer, halves to the even neighbour. -/
def divideToEven (num den : Nat) : Nat :=
  let q := num / den
  let r := 2 * (num % den)
  if r < den then q else if den < r then q + 1 else q + q % 2

/-- The magnitude nearest to `num / den`, of two nearest ones the even one. -/
def ofRatio (num den : Nat) : Magnitude :=
  let scaled := num * one
  let exponent := (scaled / den).log2 + 1 - 53
  let significand := divideToEven scaled (den <<< exponent)
  if significand = 1 <<< 53 then ⟨1 <<< 52, exponent + 1⟩ else ⟨significand, exponent⟩

def ofNat (n : Nat) : Magnitude :=
  ofRatio n 1

def mul (a b : Magnitude) : Magnitude :=
  ofRatio (a.units * b.units) (one * one)

def div (a b : Magnitude) : Magnitude :=
  ofRatio a.units b.units

end Magnitude

/-- A finite double. Zero has a sign like every other value. -/
structure Double where
  negative : Bool
  magnitude : Magnitude
deriving DecidableEq, Repr

end MessageFormat
