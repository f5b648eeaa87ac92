import MessageFormat.Keyed

/-!
# Tables of a TOML document

A table comes into being in one of three ways: by its own header, as a step on the way of a header
to a deeper table, or as a step on the way of a dotted key. What may still be added to a table
hangs on this. A key is never set twice. Of the values only texts and truth values are kept.
-/

namespace MessageFormat.Toml

inductive Value where
  | string (text : String)
  | boolean (value : Bool)
  | other
deriving DecidableEq, Repr

inductive Origin where
  | header
  | passed
  | dotted
deriving DecidableEq, Repr

inductive Item where
  | value (value : Value)
  | table (origin : Origin) (members : List (String × Item))
  -- of an array of tables only the last one, since nothing can be added to the others
  | tables (members : List (String × Item))

inductive Statement where
  | header (path : List String)
  | arrayHeader (path : List String)
  | pair (path : List String) (value : Value)

/-- Goes down a path and changes the table at its end, making tables that are missing. The path
of a dotted key must not enter a table that has its own header. -/
def descend (byDots : Bool) (change : Origin → Members Item → Option (Members Item)) :
    List String → Origin → Members Item → Option (Members Item)
  | [], origin, members => change origin members
  | key :: path, _, members =>
    match Keyed.get? key members with
    | none =>
      let origin := if byDots then Origin.dotted else Origin.passed
      (descend byDots change path origin []).map fun inner =>
        Keyed.set key (.table origin inner) members
    | some (.value _) => none
    | some (.tables inner) =>
      (descend byDots change path .header inner).map fun inner =>
        Keyed.set key (.tables inner) members
    | some (.table origin inner) =>
      if byDots && origin = .header then none
      else
        (descend byDots change path origin inner).map fun inner =>
          Keyed.set key (.table origin inner) members

/-- Sets a key in the table where its path has led. Only dotted keys add to a table that dotted
keys have made, and they add to no other. -/
def setValue (direct : Bool) (key : String) (value : Value) (origin : Origin)
    (members : Members Item) : Option (Members Item) :=
  if direct = (origin = .dotted) then none
  else match Keyed.get? key members with
    | some _ => none
    | none => some (Keyed.set key (.value value) members)

def addPair (path : List String) (value : Value) (origin : Origin) (members : Members Item) :
    Option (Members Item) :=
  match path.getLast? with
  | none => none
  | some key =>
    let way := path.dropLast
    descend true (setValue way.isEmpty key value) way origin members

def openTable (key : String) (_ : Origin) (members : Members Item) : Option (Members Item) :=
  match Keyed.get? key members with
  | none => some (Keyed.set key (.table .header []) members)
  | some (.table .passed inner) => some (Keyed.set key (.table .header inner) members)
  | _ => none

def openArrayTable (key : String) (_ : Origin) (members : Members Item) :
    Option (Members Item) :=
  match Keyed.get? key members with
  | none | some (.tables _) => some (Keyed.set key (.tables []) members)
  | _ => none

def addHeader (openIt : String → Origin → Members Item → Option (Members Item))
    (path : List String) (members : Members Item) : Option (Members Item) :=
  match path.getLast? with
  | none => none
  | some key => descend false (openIt key) path.dropLast .header members

/-- The document that statements make; `current` leads to the table that pairs are added to. -/
def build (current : List String) (members : Members Item) :
    List Statement → Option (Members Item)
  | [] => some members
  | .header path :: statements => do
    let members ← addHeader openTable path members
    build path members statements
  | .arrayHeader path :: statements => do
    let members ← addHeader openArrayTable path members
    build path members statements
  | .pair path value :: statements => do
    let members ← descend false (addPair path value) current .header members
    build current members statements

def buildInline (members : Members Item) : List (List String × Value) → Option (Members Item)
  | [] => some members
  | (path, value) :: pairs => do
    let members ← addPair path value .header members
    buildInline members pairs

end MessageFormat.Toml
