import MessageFormat.Toml.Lexical

/-!
# Numbers and times in TOML

Nothing that is read from TOML here is a number or a time, so these are only recognised: a
scanner gives the rest of the text after one. Each has its rules of form and of range.
-/

namespace MessageFormat.Toml

abbrev Rest := Option (List Char)

/-! ### Numbers -/

/-- Digits that may be separated by single underscores, and the rest. -/
def digits? (isDigit : Char → Bool) : List Char → Option (List Char × List Char)
  | [] => none
  | c :: t =>
    if isDigit c then
      match t with
      | '_' :: t => (digits? isDigit t).map fun r => (c :: r.1, r.2)
      | t =>
        match digits? isDigit t with
        | some r => some (c :: r.1, r.2)
        | none => some ([c], t)
    else none

def signed (t : List Char) : Bool × List Char :=
  match t with
  | '-' :: t => (true, t)
  | '+' :: t => (false, t)
  | t => (false, t)

/-- The digits of a decimal integer: a zero stands alone. -/
def wholeDigits? : List Char → Option (List Char × List Char)
  | '0' :: t => some (['0'], t)
  | t => digits? Char.isDigit t

/-- The value of digits in a base. -/
def valueOf (base : Nat) (digits : List Char) : Nat :=
  digits.foldl (fun n c => n * base + (Text.hexValue? c).getD 0) 0

def isDigitOf (base : Nat) (c : Char) : Bool :=
  (Text.hexValue? c).any (· < base)

/-- The least number that is too large for an integer of 64 bits with a sign. -/
def integerLimit : Nat := 1 <<< 63

def based? (base : Nat) (t : List Char) : Rest := do
  let (digits, t) ← digits? (isDigitOf base) t
  if valueOf base digits < integerLimit then some t else none

/-- An integer of 64 bits. -/
def integer? (t : List Char) : Rest :=
  match t with
  | '0' :: 'x' :: t => based? 16 t
  | '0' :: 'o' :: t => based? 8 t
  | '0' :: 'b' :: t => based? 2 t
  | t => do
    let (negative, t) := signed t
    let (digits, t) ← wholeDigits? t
    let n := valueOf 10 digits
    if n < integerLimit ∨ (negative ∧ n = integerLimit) then some t else none

/-- An exponent with its letter and the rest. -/
def exponent? : List Char → Option (Int × List Char)
  | 'e' :: t | 'E' :: t => do
    let (negative, t) := signed t
    let (digits, t) ← digits? Char.isDigit t
    let n : Int := valueOf 10 digits
    return (if negative then -n else n, t)
  | _ => none

/-- Whether the double nearest to `significand * 10 ^ power` is infinite. -/
def overflows (significand : Nat) (power : Int) : Bool :=
  let places : Int := (Nat.toDigits 10 significand).length + power
  if significand = 0 || places < 300 then false
  else if 320 < places then true
  else
    let limit := 1 <<< 1024 - 1 <<< 970
    limit * Nat.pow 10 (-power).toNat ≤ significand * Nat.pow 10 power.toNat

def special? : List Char → Rest
  | 'i' :: 'n' :: 'f' :: t => some t
  | 'n' :: 'a' :: 'n' :: t => some t
  | _ => none

/-- A number with a fraction, an exponent or both. One that is too large for a double is refused
unless it is negative. -/
def decimal? (t : List Char) : Rest := do
  let (negative, t) := signed t
  let (whole, t) ← wholeDigits? t
  let (fraction, t, dotted) ← match t with
    | '.' :: t => (digits? Char.isDigit t).map fun r => (r.1, r.2, true)
    | t => some ([], t, false)
  let (power, t) ← match exponent? t with
    | some r => some r
    | none => if dotted then some (0, t) else none
  let power := power - fraction.length
  if !negative && overflows (valueOf 10 (whole ++ fraction)) power then none else some t

def float? (t : List Char) : Rest :=
  (decimal? t).or (special? (signed t).2)

/-! ### Times -/

/-- A number of exactly `count` digits, and the rest. -/
def fixed? (count : Nat) (t : List Char) : Option (Nat × List Char) :=
  let digits := t.take count
  if digits.length = count && digits.all Char.isDigit then some (valueOf 10 digits, t.drop count)
  else none

def two? (low high : Nat) (t : List Char) : Option (Nat × List Char) := do
  let (n, t) ← fixed? 2 t
  if low ≤ n ∧ n ≤ high then some (n, t) else none

def literal? (c : Char) (t : List Char) : Rest :=
  match t with
  | d :: t => if d = c then some t else none
  | [] => none

def isLeapYear (year : Nat) : Bool :=
  year % 4 = 0 && (year % 100 ≠ 0 || year % 400 = 0)

def daysIn (year month : Nat) : Nat :=
  if month = 2 then if isLeapYear year then 29 else 28
  else if month ∈ [4, 6, 9, 11] then 30
  else 31

def date? (t : List Char) : Rest := do
  let (year, t) ← fixed? 4 t
  let (month, t) ← two? 1 12 (← literal? '-' t)
  let (_, t) ← two? 1 (daysIn year month) (← literal? '-' t)
  return t

def time? (t : List Char) : Rest := do
  let (_, t) ← two? 0 23 t
  let (_, t) ← two? 0 59 (← literal? ':' t)
  let (_, t) ← two? 0 60 (← literal? ':' t)
  match t with
  | '.' :: t => if t.takeWhile Char.isDigit = [] then none else some (t.dropWhile Char.isDigit)
  | t => some t

/-- The distance of a local time from universal time. -/
def offset? (t : List Char) : Rest :=
  match t with
  | 'Z' :: t | 'z' :: t => some t
  | '+' :: t | '-' :: t => do
    let (_, t) ← two? 0 23 t
    let (_, t) ← two? 0 59 (← literal? ':' t)
    return t
  | _ => none

/-- A date, with a time after it if there is one, or a time. -/
def moment? (t : List Char) : Rest :=
  match date? t with
  | none => time? t
  | some rest =>
    let time := match rest with
      | 'T' :: t | 't' :: t | ' ' :: t => time? t
      | _ => none
    match time with
    | none => some rest
    | some rest => some ((offset? rest).getD rest)

/-- A number or a time. -/
def scalarEnd? (t : List Char) : Rest :=
  (moment? t).or ((float? t).or (integer? t))

end MessageFormat.Toml
