import MessageFormat.Json.Basic
import MessageFormat.Json.Draft.Scan

/-!
# Reading and skipping drafts

A value that is needed is read: its strings must be made of characters, its numbers must be in
range, and no more than 127 containers may lie around each other. A value that nobody asked for is
skipped: only its shape is looked at. Both go through the draft in the order of the text and stop
at the first fault.
-/

namespace MessageFormat.Json

/-- How many containers may lie around each other. -/
def maxDepth : Nat := 127

/-! ### Strings -/

def isLeading (u : Nat) : Bool :=
  0xd800 ≤ u && u ≤ 0xdbff

def isTrailing (u : Nat) : Bool :=
  0xdc00 ≤ u && u ≤ 0xdfff

/-- The character that a leading and a trailing code unit stand for. -/
def joinUnits (leading trailing : Nat) : Char :=
  Char.ofNat (0x10000 + (leading - 0xd800) * 0x400 + (trailing - 0xdc00))

/-- The fault when a leading code unit is the last piece of a string. The next escape is looked at
first, so the end of the text or a wrong digit in it is still found. -/
def unpairedFault : Option Flaw → SyntaxFault
  | some .stringEnd => .stringEnd
  | some .hexDigit => .invalidEscape
  | _ => .unpairedSurrogate

def readPieces (flaw : Option Flaw) : List Piece → Except SyntaxFault (List Char)
  | [] =>
    match flaw with
    | none => .ok []
    | some flaw => .error flaw.fault
  | .char c :: pieces => (readPieces flaw pieces).map (c :: ·)
  | [.unit u] =>
    if isTrailing u then .error .loneSurrogate
    else if isLeading u then .error (unpairedFault flaw)
    else (readPieces flaw []).map (Char.ofNat u :: ·)
  | .unit u :: .char c :: pieces =>
    if isTrailing u then .error .loneSurrogate
    else if isLeading u then .error .unpairedSurrogate
    else (readPieces flaw (.char c :: pieces)).map (Char.ofNat u :: ·)
  | .unit u :: .unit v :: pieces =>
    if isTrailing u then .error .loneSurrogate
    else if isLeading u then
      if isTrailing v then (readPieces flaw pieces).map (joinUnits u v :: ·)
      else .error .loneSurrogate
    else (readPieces flaw (.unit v :: pieces)).map (Char.ofNat u :: ·)

namespace Lexeme

def read (s : Lexeme) : Except SyntaxFault String :=
  (readPieces s.flaw s.pieces).map String.ofList

def skip (s : Lexeme) : Except SyntaxFault Unit :=
  match s.flaw with
  | none => .ok ()
  | some flaw => .error flaw.skipFault

end Lexeme

def Numeral.read (n : Numeral) : Except SyntaxFault Number :=
  match n.value? with
  | some v => .ok v
  | none => .error .numberOutOfRange

/-- What remains to be said at the end of a container. -/
def readEnd : Option Flaw → Except SyntaxFault Unit
  | none => .ok ()
  | some flaw => .error flaw.fault

def skipEnd : Option Flaw → Except SyntaxFault Unit
  | none => .ok ()
  | some flaw => .error flaw.skipFault

namespace Draft

mutual

/-- Reads a value in which repeated names are kept; `depth` more containers may lie in each
other. -/
def read (depth : Nat) : Draft → Except SyntaxFault Json
  | .null => .ok .null
  | .bool b => .ok (.bool b)
  | .numeral n => n.read.map .number
  | .string s => s.read.map .string
  | .array items flaw =>
    match depth with
    | 0 => .error .tooDeep
    | depth + 1 => (readItems depth flaw items).map .array
  | .object members flaw =>
    match depth with
    | 0 => .error .tooDeep
    | depth + 1 => (readMembers depth flaw members).map .object
  | .broken flaw => .error flaw.fault
termination_by structural draft => draft

def readItems (depth : Nat) (flaw : Option Flaw) : List Draft → Except SyntaxFault (List Json)
  | [] => (readEnd flaw).map fun _ => []
  | item :: items => do
    let item ← item.read depth
    let items ← readItems depth flaw items
    return item :: items
termination_by structural items => items

def readMembers (depth : Nat) (flaw : Option Flaw) :
    List (Lexeme × Draft) → Except SyntaxFault (List (String × Json))
  | [] => (readEnd flaw).map fun _ => []
  | (key, value) :: members => do
    let key ← key.read
    let value ← value.read depth
    let members ← readMembers depth flaw members
    return (key, value) :: members
termination_by structural members => members

end

mutual

def skip : Draft → Except SyntaxFault Unit
  | .null | .bool _ | .numeral _ => .ok ()
  | .string s => s.skip
  | .array items flaw => skipItems flaw items
  | .object members flaw => skipMembers flaw members
  | .broken flaw => .error flaw.skipFault
termination_by structural draft => draft

def skipItems (flaw : Option Flaw) : List Draft → Except SyntaxFault Unit
  | [] => skipEnd flaw
  | item :: items => do
    item.skip
    skipItems flaw items
termination_by structural items => items

def skipMembers (flaw : Option Flaw) : List (Lexeme × Draft) → Except SyntaxFault Unit
  | [] => skipEnd flaw
  | (key, value) :: members => do
    key.skip
    value.skip
    skipMembers flaw members
termination_by structural members => members

end

/-- The error for a value that is not of the type asked for. A scalar is read to its end first. -/
def mismatch (wanted : Wanted) (d : Draft) : ReadError :=
  let error (found : Found) : ReadError := .dataFault (.wrongType found wanted)
  match d with
  | .null => error .null
  | .bool b => error (.bool b)
  | .numeral n =>
    match n.read with
    | .ok v => error (.number v)
    | .error fault => .syntaxFault fault
  | .string s =>
    match s.read with
    | .ok s => error (.text s)
    | .error fault => .syntaxFault fault
  | .array .. => error .list
  | .object .. => error .object
  | .broken flaw => .syntaxFault flaw.fault

def readText (d : Draft) : Except ReadError String :=
  match d with
  | .string s => s.read.mapError .syntaxFault
  | d => .error (d.mismatch .text)

/-- A natural number below `bound`. -/
def readNat (wanted : Wanted) (bound : Nat) (d : Draft) : Except ReadError Nat :=
  match d with
  | .numeral n =>
    match n.read with
    | .ok (.int i _) =>
      if 0 ≤ i ∧ i < bound then .ok i.toNat else .error (.dataFault (.outOfRange i wanted))
    | .ok (.float x) => .error (.dataFault (.wrongType (.number (.float x)) wanted))
    | .error fault => .error (.syntaxFault fault)
  | d => .error (d.mismatch wanted)

def readByte (d : Draft) : Except ReadError UInt8 :=
  (d.readNat .byte UInt8.size).map UInt8.ofNat

def readWord (d : Draft) : Except ReadError UInt32 :=
  (d.readNat .word UInt32.size).map UInt32.ofNat

/-- A value that may be missing; `null` counts as missing. -/
def readOptional {α : Type} (read : Draft → Except ReadError α) (d : Draft) :
    Except ReadError (Option α) :=
  match d with
  | .null => .ok none
  | d => (read d).map some

/-- Reads a plain value. -/
def readValue (depth : Nat) (d : Draft) : Except ReadError Json :=
  ((d.read depth).map settle).mapError .syntaxFault

/-- What an array may still hold after the fields of a record: nothing. -/
def closeRecord (flaw : Option Flaw) : List Draft → Except ReadError Unit
  | [] =>
    match flaw with
    | none => .ok ()
    | some .listSeparator => .error (.syntaxFault .trailingCharacters)
    | some flaw => .error (.syntaxFault flaw.fault)
  | _ :: _ => .error (.syntaxFault .trailingCharacters)

/-- The error for an array that ends before the fields of a record do. -/
def cutRecord (kind : RecordKind) (count : Nat) (flaw : Option Flaw) : ReadError :=
  match flaw with
  | none => .dataFault (.tooFew count kind)
  | some flaw => .syntaxFault flaw.fault

end Draft

/-- Reads a text that consists of one value. -/
def readDocument {α : Type} (read : Draft → Except ReadError α) (text : String) :
    Except ReadError α := do
  let document := Document.scan text
  let value ← read document.root
  match skipSpace document.rest with
  | [] => return value
  | _ => throw (.syntaxFault .trailingCharacters)

def ofText (text : String) : Except ReadError Json :=
  readDocument (Draft.readValue maxDepth) text

end MessageFormat.Json
