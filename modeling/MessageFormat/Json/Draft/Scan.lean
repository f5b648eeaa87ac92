import MessageFormat.Json.Draft.Basic
import MessageFormat.Text.Hexadecimal

/-!
# From texts to drafts

Scanning never fails: a text that is no JSON has a draft with a flaw in it. Nothing is left of the
text after a flaw, so each text has at most one that a reader in order can meet.
-/

namespace MessageFormat.Json

def isSpace (c : Char) : Bool :=
  c = ' ' || c = '\n' || c = '\t' || c = '\r'

def skipSpace (t : List Char) : List Char :=
  t.dropWhile isSpace

def scanWord (value : Draft) : List Char → List Char → Draft × List Char
  | [], t => (value, t)
  | _ :: _, [] => (.broken .valueEnd, [])
  | w :: ws, c :: t => if c = w then scanWord value ws t else (.broken .wordExpected, [])

/-! ### Strings -/

def codeUnit? (a b c d : Char) : Option Nat := do
  let a ← Text.hexValue? a
  let b ← Text.hexValue? b
  let c ← Text.hexValue? c
  let d ← Text.hexValue? d
  return ((a * 16 + b) * 16 + c) * 16 + d

def shortEscape? (c : Char) : Option Char :=
  if c = '"' then some '"'
  else if c = '\\' then some '\\'
  else if c = '/' then some '/'
  else if c = 'b' then some '\x08'
  else if c = 'f' then some '\x0c'
  else if c = 'n' then some '\n'
  else if c = 'r' then some '\r'
  else if c = 't' then some '\t'
  else none

/-- A text that ends less than four bytes after the start of an escaped code unit is cut off
there; else the unit has a wrong digit. -/
def unitFlaw (t : List Char) : Flaw :=
  if (String.ofList t).utf8ByteSize < 4 then .stringEnd else .hexDigit

def Lexeme.brokenOff (flaw : Flaw) : Lexeme × List Char :=
  (⟨[], some flaw⟩, [])

def Lexeme.after (piece : Piece) (s : Lexeme × List Char) : Lexeme × List Char :=
  (⟨piece :: s.1.pieces, s.1.flaw⟩, s.2)

def scanString : List Char → Lexeme × List Char
  | [] => Lexeme.brokenOff .stringEnd
  | '"' :: t => (⟨[], none⟩, t)
  | '\\' :: 'u' :: a :: b :: c :: d :: t =>
    match codeUnit? a b c d with
    | some u => Lexeme.after (.unit u) (scanString t)
    | none => Lexeme.brokenOff .hexDigit
  | '\\' :: 'u' :: t => Lexeme.brokenOff (unitFlaw t)
  | '\\' :: c :: t =>
    match shortEscape? c with
    | some e => Lexeme.after (.char e) (scanString t)
    | none => Lexeme.brokenOff .escapeLetter
  | ['\\'] => Lexeme.brokenOff .stringEnd
  | c :: t =>
    if c.toNat < 32 then Lexeme.brokenOff .control else Lexeme.after (.char c) (scanString t)

/-! ### Numerals -/

def digitFlaw (t : List Char) : Flaw :=
  if t.isEmpty then .numberEnd else .number

def scanDigits (t : List Char) : Except Flaw (List Char × List Char) :=
  match t.takeWhile Char.isDigit with
  | [] => .error (digitFlaw t)
  | digits => .ok (digits, t.dropWhile Char.isDigit)

/-- The digits before the point: a zero stands alone. -/
def scanWhole : List Char → Except Flaw (List Char × List Char)
  | '0' :: t => if (t.head?.map Char.isDigit).getD false then .error .number else .ok (['0'], t)
  | t => scanDigits t

def scanFraction : List Char → Except Flaw (List Char × List Char)
  | '.' :: t => scanDigits t
  | t => .ok ([], t)

def scanPower : List Char → Except Flaw ((Bool × List Char) × List Char)
  | '-' :: t => (scanDigits t).map fun r => ((true, r.1), r.2)
  | '+' :: t => (scanDigits t).map fun r => ((false, r.1), r.2)
  | t => (scanDigits t).map fun r => ((false, r.1), r.2)

def scanExponent (t : List Char) : Except Flaw (Option (Bool × List Char) × List Char) :=
  match t with
  | 'e' :: r | 'E' :: r => (scanPower r).map fun r => (some r.1, r.2)
  | _ => .ok (none, t)

def scanUnsigned (negative : Bool) (t : List Char) : Except Flaw (Numeral × List Char) := do
  let (whole, t) ← scanWhole t
  let (fraction, t) ← scanFraction t
  let (exponent, t) ← scanExponent t
  return (⟨negative, whole, fraction, exponent⟩, t)

def scanNumeral : List Char → Except Flaw (Numeral × List Char)
  | '-' :: t => scanUnsigned true t
  | t => scanUnsigned false t

/-! ### Values -/

mutual

def scanValue : Nat → List Char → Draft × List Char
  | 0, _ => (.broken .valueEnd, [])
  | fuel + 1, t =>
    match skipSpace t with
    | [] => (.broken .valueEnd, [])
    | 'n' :: t => scanWord .null ['u', 'l', 'l'] t
    | 't' :: t => scanWord (.bool true) ['r', 'u', 'e'] t
    | 'f' :: t => scanWord (.bool false) ['a', 'l', 's', 'e'] t
    | '"' :: t => let (s, t) := scanString t; (.string s, t)
    | '[' :: t =>
      match skipSpace t with
      | [] => (.array [] (some .listEnd), [])
      | ']' :: t => (.array [] none, t)
      | t => let (items, flaw, t) := scanItems fuel t; (.array items flaw, t)
    | '\x7b' :: t =>
      match skipSpace t with
      | [] => (.object [] (some .objectEnd), [])
      | '\x7d' :: t => (.object [] none, t)
      | '"' :: t => let (members, flaw, t) := scanMembers fuel t; (.object members flaw, t)
      | _ => (.object [] (some .keyExpected), [])
    | c :: t =>
      if c = '-' || c.isDigit then
        match scanNumeral (c :: t) with
        | .ok (n, t) => (.numeral n, t)
        | .error flaw => (.broken flaw, [])
      else (.broken .valueExpected, [])

/-- The items of an array from one of them on. -/
def scanItems : Nat → List Char → List Draft × Option Flaw × List Char
  | 0, _ => ([], some .listEnd, [])
  | fuel + 1, t =>
    let (item, t) := scanValue fuel t
    match skipSpace t with
    | [] => ([item], some .listEnd, [])
    | ']' :: t => ([item], none, t)
    | ',' :: t =>
      match skipSpace t with
      | ']' :: _ => ([item], some .listComma, [])
      | t => let (items, flaw, t) := scanItems fuel t; (item :: items, flaw, t)
    | _ => ([item], some .listSeparator, [])

/-- The members of an object from one of them on, after the opening quote of its name. -/
def scanMembers : Nat → List Char → List (Lexeme × Draft) × Option Flaw × List Char
  | 0, _ => ([], some .objectEnd, [])
  | fuel + 1, t =>
    let (key, t) := scanString t
    match skipSpace t with
    | [] => ([(key, .broken .objectEnd)], some .objectEnd, [])
    | ':' :: t =>
      let (value, t) := scanValue fuel t
      match skipSpace t with
      | [] => ([(key, value)], some .objectEnd, [])
      | '\x7d' :: t => ([(key, value)], none, t)
      | ',' :: t =>
        match skipSpace t with
        | [] => ([(key, value)], some .objectCommaEnd, [])
        | '\x7d' :: _ => ([(key, value)], some .objectComma, [])
        | '"' :: t =>
          let (members, flaw, t) := scanMembers fuel t
          ((key, value) :: members, flaw, t)
        | _ => ([(key, value)], some .keyExpected, [])
      | _ => ([(key, value)], some .objectSeparator, [])
    | _ => ([(key, .broken .colonExpected)], some .objectEnd, [])

end

/-- A text as the draft of its first value and what comes after that. -/
structure Document where
  root : Draft
  rest : List Char

/-- Two steps for each character are enough, because a value takes at least one and a container
passes on less than it was given. -/
def Document.scan (text : String) : Document :=
  let (root, rest) := scanValue (2 * text.toList.length + 2) text.toList
  ⟨root, rest⟩

end MessageFormat.Json
