import MessageFormat.Element.Style
import MessageFormat.Json.Draft.Read

/-!
# Elements from drafts

Reading an array of elements from the draft of a text. The records are those that are read from
values; in addition the syntax of the text is checked on the way, containers are counted, and what
stands under an unknown name is skipped. Whatever is wrong first in the text is reported.
-/

namespace MessageFormat.Element

open Json (Draft Flaw Lexeme ReadError)

/-- A style is read whole as a value, repeated names kept, before its shape is looked at. -/
def readStyle (depth : Nat) (d : Draft) : Except ReadError ElementStyle := do
  let j ← (d.read depth).mapError .syntaxFault
  match ElementStyle.ofJson? j with
  | some style => return style
  | none => throw (.dataFault .unmatchedStyle)

mutual

def read (depth : Nat) : Draft → Except ReadError Element
  | .object members flaw =>
    match depth with
    | 0 => .error (.syntaxFault .tooDeep)
    | depth + 1 => readMembers depth flaw [] blank members
  | .array items flaw =>
    match depth with
    | 0 => .error (.syntaxFault .tooDeep)
    | depth + 1 => readItems depth flaw Field.all blank items
  | d => .error (d.mismatch (.record .element))
termination_by structural d => d

/-- Reads the members of an element into what is known of it; `seen` are the fields read so far. -/
def readMembers (depth : Nat) (flaw : Option Flaw) (seen : List Field) (e : Element) :
    List (Lexeme × Draft) → Except ReadError Element
  | [] => do
    (Json.readEnd flaw).mapError .syntaxFault
    if .type ∈ seen then return e else throw (.dataFault (.missingField Field.type.name))
  | (key, value) :: members => do
    let key ← key.read.mapError .syntaxFault
    match Field.ofName? key with
    | none =>
      value.skip.mapError .syntaxFault
      readMembers depth flaw seen e members
    | some f =>
      if f ∈ seen then throw (.dataFault (.duplicateField f.name))
      else
        let e ← readField depth f e value
        readMembers depth flaw (f :: seen) e members
termination_by structural members => members

/-- Reads the items of an array as the given fields. -/
def readItems (depth : Nat) (flaw : Option Flaw) (fields : List Field) (e : Element) :
    List Draft → Except ReadError Element
  | [] =>
    match fields with
    | [] => (Draft.closeRecord flaw []).map fun _ => e
    | _ :: _ => .error (Draft.cutRecord .element (Field.all.length - fields.length) flaw)
  | item :: items =>
    match fields with
    | [] => (Draft.closeRecord flaw (item :: items)).map fun _ => e
    | f :: fields => do
      let e ← readField depth f e item
      readItems depth flaw fields e items
termination_by structural items => items

def readField (depth : Nat) (f : Field) (e : Element) (d : Draft) : Except ReadError Element :=
  match f with
  | .type => return { e with type := ← d.readByte }
  | .value => return { e with value := ← d.readOptional Draft.readText }
  | .style => return { e with style := ← d.readOptional (readStyle depth) }
  | .offset => return { e with offset := ← d.readOptional Draft.readWord }
  | .pluralType => return { e with pluralType := ← d.readOptional Draft.readText }
  | .options =>
    match d with
    | .null => .ok { e with options := none }
    | .object members flaw =>
      match depth with
      | 0 => .error (.syntaxFault .tooDeep)
      | depth + 1 => return { e with options := some (← readBranches depth flaw [] members) }
    | d => .error (d.mismatch .object)
  | .children =>
    match d with
    | .null => .ok { e with children := none }
    | .array items flaw =>
      match depth with
      | 0 => .error (.syntaxFault .tooDeep)
      | depth + 1 => return { e with children := some (← readList depth flaw items) }
    | d => .error (d.mismatch .list)
termination_by structural d

/-- Adds branches to those read so far. -/
def readBranches (depth : Nat) (flaw : Option Flaw) (branches : Members (List Element)) :
    List (Lexeme × Draft) → Except ReadError (Members (List Element))
  | [] => ((Json.readEnd flaw).map fun _ => branches).mapError .syntaxFault
  | (key, value) :: members => do
    let key ← key.read.mapError .syntaxFault
    let body ← readBranch depth value
    readBranches depth flaw (Keyed.set key body branches) members
termination_by structural members => members

/-- The body of a branch out of the record around it. -/
def readBranch (depth : Nat) : Draft → Except ReadError (List Element)
  | .object members flaw =>
    match depth with
    | 0 => .error (.syntaxFault .tooDeep)
    | depth + 1 => readBranchMembers depth flaw none members
  | .array items flaw =>
    match depth, items with
    | 0, _ => .error (.syntaxFault .tooDeep)
    | _ + 1, [] => .error (Draft.cutRecord .branch 0 flaw)
    | depth + 1, item :: items => do
      let body ← readBody depth item
      Draft.closeRecord flaw items
      return body
  | d => .error (d.mismatch (.record .branch))
termination_by structural d => d

def readBranchMembers (depth : Nat) (flaw : Option Flaw) (body : Option (List Element)) :
    List (Lexeme × Draft) → Except ReadError (List Element)
  | [] => do
    (Json.readEnd flaw).mapError .syntaxFault
    match body with
    | some body => return body
    | none => throw (.dataFault (.missingField "value"))
  | (key, value) :: members => do
    let key ← key.read.mapError .syntaxFault
    if key = "value" then
      match body with
      | some _ => throw (.dataFault (.duplicateField "value"))
      | none =>
        let body ← readBody depth value
        readBranchMembers depth flaw (some body) members
    else
      value.skip.mapError .syntaxFault
      readBranchMembers depth flaw body members
termination_by structural members => members

def readBody (depth : Nat) : Draft → Except ReadError (List Element)
  | .array items flaw =>
    match depth with
    | 0 => .error (.syntaxFault .tooDeep)
    | depth + 1 => readList depth flaw items
  | d => .error (d.mismatch .list)
termination_by structural d => d

def readList (depth : Nat) (flaw : Option Flaw) : List Draft → Except ReadError (List Element)
  | [] => ((Json.readEnd flaw).map fun _ => []).mapError .syntaxFault
  | item :: items => do
    let e ← read depth item
    let es ← readList depth flaw items
    return e :: es
termination_by structural items => items

end

end MessageFormat.Element
