import MessageFormat.Json.Draft.Read

/-!
# Reading objects

Two kinds of objects. In one the names are free and every value is of the same kind. The other is
a record of one field that must be there and one that may be missing; it can also be written as an
array of its fields, and what stands under any other name is skipped.
-/

namespace MessageFormat.Json

/-- Reads an object whose names are free, and puts each member to those before it. -/
def readNamed {α β : Type} (put : β → String → α → β) (readOne : Nat → Draft → Except ReadError α)
    (depth : Nat) (flaw : Option Flaw) : β → List (Lexeme × Draft) → Except ReadError β
  | all, [] => ((readEnd flaw).map fun _ => all).mapError .syntaxFault
  | all, (key, value) :: members => do
    let key ← key.read.mapError .syntaxFault
    let one ← readOne depth value
    readNamed put readOne depth flaw (put all key one) members

def readObject {α β : Type} (start : β) (put : β → String → α → β)
    (readOne : Nat → Draft → Except ReadError α) (text : String) : Except ReadError β :=
  readDocument (fun d =>
    match d with
    | .object members flaw => readNamed put readOne (maxDepth - 1) flaw start members
    | d => .error (d.mismatch .object)) text

structure PairReader (α β : Type) where
  kind : RecordKind
  first : String
  second : String
  readFirst : Nat → Draft → Except ReadError α
  readSecond : Nat → Draft → Except ReadError β

namespace PairReader

variable {α β : Type} (reader : PairReader α β)

def readMembers (depth : Nat) (flaw : Option Flaw) (a : Option α) (b : Option β) :
    List (Lexeme × Draft) → Except ReadError (α × Option β)
  | [] => do
    (readEnd flaw).mapError .syntaxFault
    match a with
    | some a => return (a, b)
    | none => throw (.dataFault (.missingField reader.first))
  | (key, value) :: members => do
    let key ← key.read.mapError .syntaxFault
    if key = reader.first then
      if a.isSome then throw (.dataFault (.duplicateField reader.first))
      else
        let a ← reader.readFirst depth value
        readMembers depth flaw (some a) b members
    else if key = reader.second then
      if b.isSome then throw (.dataFault (.duplicateField reader.second))
      else
        let b ← reader.readSecond depth value
        readMembers depth flaw a (some b) members
    else
      value.skip.mapError .syntaxFault
      readMembers depth flaw a b members

def readItems (depth : Nat) (flaw : Option Flaw) :
    List Draft → Except ReadError (α × Option β)
  | [] => .error (Draft.cutRecord reader.kind 0 flaw)
  | [item] => do
    let a ← reader.readFirst depth item
    (readEnd flaw).mapError .syntaxFault
    return (a, none)
  | first :: second :: items => do
    let a ← reader.readFirst depth first
    let b ← reader.readSecond depth second
    Draft.closeRecord flaw items
    return (a, some b)

def read (depth : Nat) (d : Draft) : Except ReadError (α × Option β) :=
  match d, depth with
  | .object .., 0 | .array .., 0 => .error (.syntaxFault .tooDeep)
  | .object members flaw, depth + 1 => reader.readMembers depth flaw none none members
  | .array items flaw, depth + 1 => reader.readItems depth flaw items
  | d, _ => .error (d.mismatch (.record reader.kind))

end PairReader

end MessageFormat.Json
