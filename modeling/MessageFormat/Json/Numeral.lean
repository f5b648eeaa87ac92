import MessageFormat.Json.Number

/-!
# Numerals and the numbers they stand for

A numeral without fraction and exponent is an integer if it fits; minus zero does not, because an
integer has no such value. Any other numeral is a double, and its value is found in steps: as many
digits are taken as a significand of 64 bits has room for, the significand is rounded to a double,
and this is multiplied or divided by a power of ten, at most the 308th at a time, with a rounding
each time. The result need not be the double nearest to the numeral.
-/

namespace MessageFormat.Json

structure Numeral where
  negative : Bool
  whole : List Char
  fraction : List Char
  -- with whether it is negative
  exponent : Option (Bool × List Char)
deriving DecidableEq, Repr

def digitValue (c : Char) : Nat :=
  c.toNat - '0'.toNat

/-- Appends digits to a significand until one would take it beyond 64 bits; together with the
number of digits that were left out. -/
def appendDigits (significand : Nat) : List Char → Nat × Nat
  | [] => (significand, 0)
  | c :: cs =>
    if significand * 10 + digitValue c < UInt64.size then
      appendDigits (significand * 10 + digitValue c) cs
    else (significand, cs.length + 1)

-- the last power of ten that is a double
def maxPower : Nat := 308

/-- A magnitude times a power of ten, unless no double is that large. -/
def scaleUp? (m : Magnitude) (power : Nat) : Option Magnitude :=
  if power ≤ maxPower then
    let scaled := m.mul (.ofNat (powerOfTen power))
    if scaled.isFinite then some scaled else none
  else if m.isZero then some m else none

def scaleDown (m : Magnitude) (power : Nat) : Magnitude :=
  if power ≤ maxPower then m.div (.ofNat (powerOfTen power))
  else if m.isZero then m
  else scaleDown (m.div (.ofNat (powerOfTen maxPower))) (power - maxPower)
termination_by power
decreasing_by simp_all [maxPower]; omega

def scale? (m : Magnitude) : Int → Option Magnitude
  | .ofNat power => scaleUp? m power
  | .negSucc power => some (scaleDown m (power + 1))

namespace Numeral

def exponentValue (n : Numeral) : Int :=
  match n.exponent with
  | none => 0
  | some (negative, digits) =>
    let size : Int := (digits.foldl (fun v c => v * 10 + digitValue c) 0 : Nat)
    if negative then -size else size

def double? (n : Numeral) : Option Double :=
  let (significand, leftOut) := appendDigits 0 n.whole
  let (significand, unused) := appendDigits significand n.fraction
  let exponent : Int := leftOut - (n.fraction.length - unused : Nat) + n.exponentValue
  (scale? (.ofNat significand) exponent).map fun m => ⟨n.negative, m⟩

def int? (n : Numeral) : Option Int :=
  if n.fraction.isEmpty && n.exponent.isNone then
    match appendDigits 0 n.whole with
    | (significand, 0) =>
      -- no integer is minus zero
      if n.negative then if significand = 0 then none else some (-significand)
      else some significand
    | _ => none
  else none

/-- The number that a numeral stands for; none if it is out of the range of doubles. -/
def value? (n : Numeral) : Option Number :=
  match n.int? with
  | some i => if h : IsWord i then some (.int i h) else n.double?.map .float
  | none => n.double?.map .float

end Numeral

end MessageFormat.Json
