import MessageFormat.Decimal.Double

/-!
# Shortest decimals

The shortest decimal of a magnitude is the one with the fewest digits among the decimals that
read back as it, and the nearest to it among those; an even last digit decides a tie. For
1, 2, … 17 digits the two neighbours of the magnitude on that decimal grid are compared with the
interval of reals that round to it. Every magnitude is scaled up by one power of ten for that, so
that all grids have whole steps, and the interval is measured in quarters of a unit.
-/

namespace MessageFormat

-- `digits * 10 ^ exponent`
structure Decimal where
  digits : Nat
  exponent : Int
deriving DecidableEq, Repr

namespace Decimal

def gridScale : Nat := 341

def reachBelow (m : Magnitude) : Nat :=
  -- the doubles below a power of two lie closer
  (if m.significand = 1 <<< 52 ∧ 0 < m.exponent then 1 else 2) <<< m.exponent

def reachAbove (m : Magnitude) : Nat :=
  2 <<< m.exponent

/-- Whether `n` steps of size `step / 10 ^ gridScale` round to the magnitude. The ends of the
interval do when the significand is even. -/
def readsBack (m : Magnitude) (step n : Nat) : Bool :=
  let value := 4 * Magnitude.one * (n * step)
  let low := (4 * m.units - reachBelow m) * powerOfTen gridScale
  let high := (4 * m.units + reachAbove m) * powerOfTen gridScale
  if m.significand % 2 = 0 then low ≤ value && value ≤ high else low < value && value < high

def onGrid? (m : Magnitude) (step : Nat) : Option Nat :=
  let num := m.units * powerOfTen gridScale
  let den := Magnitude.one * step
  let below := num / den
  let rest := 2 * (num % den)
  match readsBack m step below, readsBack m step (below + 1) with
  | true, true =>
    -- the nearer one, or the even one in the middle
    if rest < den then some below
    else if den < rest then some (below + 1)
    else some (below + below % 2)
  | true, false => some below
  | false, true => some (below + 1)
  | false, false => none

def stripZeros : Nat → Decimal → Decimal
  | 0, d => d
  | fuel + 1, d =>
    if d.digits % 10 = 0 then stripZeros fuel ⟨d.digits / 10, d.exponent + 1⟩ else d

/-- The shortest decimal with at least `17 - remaining` digits, given the number of digits before
the point of the scaled magnitude. -/
def search (m : Magnitude) (places : Nat) : Nat → Decimal
  | 0 => ⟨0, 0⟩
  | remaining + 1 =>
    let power := places - (17 - remaining)
    match onGrid? m (powerOfTen power) with
    | some n => stripZeros 17 ⟨n, power - gridScale⟩
    | none => search m places remaining

def shortest (m : Magnitude) : Decimal :=
  if m.isZero then ⟨0, 0⟩
  else search m (Nat.toDigits 10 (m.units * powerOfTen gridScale / Magnitude.one)).length 17

example : shortest (.ofRatio 1 10) = ⟨1, -1⟩ := by decide +kernel
example : shortest (.ofNat 9007199254740992) = ⟨9007199254740992, 0⟩ := by decide +kernel
example : shortest ⟨1, 0⟩ = ⟨5, -324⟩ := by decide +kernel
example : shortest ⟨9007199254740991, 2045⟩ = ⟨17976931348623157, 292⟩ := by decide +kernel

end Decimal

end MessageFormat
