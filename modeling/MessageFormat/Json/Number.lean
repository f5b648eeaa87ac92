import MessageFormat.Decimal.Shortest

/-!
# Numbers of a JSON value

A number is an integer of 64 bits, signed or not, or a double. An integer is written with its
decimal digits. A double is written with its shortest digits: positionally, and always with a
point, when its first digit stands at a power of ten from -5 to 15, and otherwise in scientific
form with a signed exponent.
-/

namespace MessageFormat

namespace Json

/-- The integers that have 64 bits with or without a sign. -/
def IsWord (n : Int) : Prop :=
  -(UInt64.size / 2 : Nat) ≤ n ∧ n < UInt64.size

instance (n : Int) : Decidable (IsWord n) :=
  inferInstanceAs (Decidable (_ ∧ _))

inductive Number where
  | int (value : Int) (isWord : IsWord value)
  | float (value : Double)
deriving DecidableEq, Repr

namespace Number

theorem isWord_of_lt {n : Nat} (h : n < UInt64.size) : IsWord n := by
  simp only [IsWord, UInt64.size] at h ⊢
  omega

def ofUInt32 (n : UInt32) : Number :=
  .int n.toNat (isWord_of_lt (by have := n.toNat_lt; simp only [UInt64.size]; omega))

def ofUInt8 (n : UInt8) : Number :=
  .int n.toNat (isWord_of_lt (by have := n.toNat_lt; simp only [UInt64.size]; omega))

end Number

def natChars (n : Nat) : List Char :=
  Nat.toDigits 10 n

def intChars (n : Int) : List Char :=
  if n < 0 then '-' :: natChars n.natAbs else natChars n.natAbs

/-- Digits with the point after the first `whole` of them, filled up with zeros where there is no
digit. -/
def positional (digits : List Char) (whole : Int) : List Char :=
  let padded :=
    List.replicate (1 - whole).toNat '0' ++ digits ++
      List.replicate (whole + 1 - digits.length).toNat '0'
  let before := (max 1 whole).toNat
  padded.take before ++ ['.'] ++ padded.drop before

/-- Digits with the point after the first one, if there is more than one, and an exponent. -/
def scientific (digits : List Char) (exponent : Int) : List Char :=
  let mantissa := match digits with
    | first :: second :: rest => first :: '.' :: second :: rest
    | _ => digits
  mantissa ++ ['e', if exponent < 0 then '-' else '+'] ++ natChars exponent.natAbs

def magnitudeChars (m : Magnitude) : List Char :=
  let d := Decimal.shortest m
  let digits := natChars d.digits
  let exponent := d.exponent + digits.length - 1
  if -5 ≤ exponent ∧ exponent ≤ 15 then positional digits (exponent + 1)
  else scientific digits exponent

def doubleChars (x : Double) : List Char :=
  if x.negative then '-' :: magnitudeChars x.magnitude else magnitudeChars x.magnitude

def Number.chars : Number → List Char
  | .int n _ => intChars n
  | .float x => doubleChars x

example : doubleChars ⟨false, .ofNat 0⟩ = ['0', '.', '0'] := by decide +kernel
example : doubleChars ⟨true, .ofRatio 3 2⟩ = ['-', '1', '.', '5'] := by decide +kernel
example : doubleChars ⟨false, .ofRatio 1 100000⟩ = ['0', '.', '0', '0', '0', '0', '1'] := by
  decide +kernel
example : doubleChars ⟨false, .ofNat (powerOfTen 16)⟩ = ['1', 'e', '+', '1', '6'] := by
  decide +kernel

end Json

end MessageFormat
