import MessageFormat.Element.Style
import MessageFormat.Json.Typed

/-!
# Elements from values

Reading an array of elements from a JSON value. An element, or the wrapper around the body of a
branch, is an object or an array of its fields in their order. The first thing that is wrong, in
the order of the value, is reported.
-/

namespace MessageFormat.Element

open Json (DataFault)

def styleOf (j : Json) : Except DataFault ElementStyle :=
  match ElementStyle.ofJson? j with
  | some style => .ok style
  | none => .error .unmatchedStyle

mutual

def ofJson : Json → Except DataFault Element
  | .object members => ofMembers [] blank members
  | .array items => ofItems items.length Field.all blank items
  | j => .error (j.mismatch (.record .element))
termination_by structural j => j

/-- Reads the members of an element into what is known of it; `seen` are the fields read so far. -/
def ofMembers (seen : List Field) (e : Element) : List (String × Json) → Except DataFault Element
  | [] => if .type ∈ seen then .ok e else .error (.missingField Field.type.name)
  | (key, value) :: members =>
    match Field.ofName? key with
    | none => ofMembers seen e members
    | some f =>
      if f ∈ seen then .error (.duplicateField f.name)
      else do
        let e ← withField f e value
        ofMembers (f :: seen) e members
termination_by structural members => members

/-- Reads an array of `count` items as the given fields. -/
def ofItems (count : Nat) (fields : List Field) (e : Element) : List Json → Except DataFault Element
  | [] => if fields.isEmpty then .ok e else .error (.tooFew count .element)
  | item :: items =>
    match fields with
    | [] => .error (.tooMany count)
    | f :: fields => do
      let e ← withField f e item
      ofItems count fields e items
termination_by structural items => items

def withField (f : Field) (e : Element) (j : Json) : Except DataFault Element :=
  match f with
  | .type => return { e with type := ← j.asByte }
  | .value => return { e with value := ← j.asOptional Json.asText }
  | .style => return { e with style := ← j.asOptional styleOf }
  | .offset => return { e with offset := ← j.asOptional Json.asWord }
  | .pluralType => return { e with pluralType := ← j.asOptional Json.asText }
  | .options =>
    match j with
    | .null => .ok { e with options := none }
    | .object members => return { e with options := some (← ofBranches [] members) }
    | j => .error (j.mismatch .object)
  | .children =>
    match j with
    | .null => .ok { e with children := none }
    | .array items => return { e with children := some (← ofList items) }
    | j => .error (j.mismatch .list)
termination_by structural j

/-- Adds branches to those read so far. -/
def ofBranches (branches : Members (List Element)) :
    List (String × Json) → Except DataFault (Members (List Element))
  | [] => .ok branches
  | (key, value) :: members => do
    let body ← ofBranch value
    ofBranches (Keyed.set key body branches) members
termination_by structural members => members

/-- The body of a branch out of the record around it. -/
def ofBranch : Json → Except DataFault (List Element)
  | .object members => ofBranchMembers none members
  | .array [] => .error (.tooFew 0 .branch)
  | .array (item :: items) => do
    let body ← ofBody item
    if items.isEmpty then .ok body else .error (.tooMany (items.length + 1))
  | j => .error (j.mismatch (.record .branch))
termination_by structural j => j

def ofBranchMembers (body : Option (List Element)) :
    List (String × Json) → Except DataFault (List Element)
  | [] =>
    match body with
    | some body => .ok body
    | none => .error (.missingField "value")
  | (key, value) :: members =>
    if key = "value" then
      match body with
      | some _ => .error (.duplicateField "value")
      | none => do
        let body ← ofBody value
        ofBranchMembers (some body) members
    else ofBranchMembers body members
termination_by structural members => members

def ofBody : Json → Except DataFault (List Element)
  | .array items => ofList items
  | j => .error (j.mismatch .list)
termination_by structural j => j

def ofList : List Json → Except DataFault (List Element)
  | [] => .ok []
  | item :: items => do
    let e ← ofJson item
    let es ← ofList items
    return e :: es
termination_by structural items => items

end

end MessageFormat.Element
