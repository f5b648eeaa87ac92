import MessageFormat.Element.OfDraft
import MessageFormat.Element.OfJson

/-!
# From elements to messages

Making nodes of elements. An element must have the fields that its type needs; they are looked at
in a fixed order, the elements of a list one after the other and everything inside an element
before the next one, and the first fault ends the conversion.
-/

namespace MessageFormat

/-- Why elements are no message. -/
inductive ElementError where
  | unreadable (error : Json.ReadError)
  | unknownElementType (type : UInt8)
  | unknownSkeletonType (type : UInt8)
  | unknownPluralType (text : String)
  | missingField (element field : String)
deriving DecidableEq, Repr

namespace ElementError

def message : ElementError → String
  | .unreadable error => "json error: " ++ error.message
  | .unknownElementType type => "unknown element type " ++ toString type.toNat
  | .unknownSkeletonType type => "unknown skeleton type " ++ toString type.toNat
  | .unknownPluralType text => "unknown plural type " ++ text
  | .missingField element field => element ++ " element is missing " ++ field

end ElementError

def PluralKind.ofText : String → Except ElementError PluralKind
  | "cardinal" => .ok .cardinal
  | "ordinal" => .ok .ordinal
  | text => .error (.unknownPluralType text)

def ElementStyle.toArgStyle : ElementStyle → Except ElementError ArgStyle
  | .text t => .ok (.text t)
  | .skeleton 0 tokens _ => .ok (.number tokens)
  | .skeleton 1 _ (some pattern) => .ok (.dateTime pattern)
  | .skeleton 1 _ none => .error (.missingField "skeleton" "pattern")
  | .skeleton type _ _ => .error (.unknownSkeletonType type)

namespace Element

def needed {α : Type} (element : String) (field : Field) : Option α → Except ElementError α
  | some a => .ok a
  | none => .error (.missingField element field.name)

def toFormatted (format : ArgFormat) (value : Option String) (style : Option ElementStyle) :
    Except ElementError Node := do
  let name ← needed format.keyword .value value
  match style with
  | none => return .formatted format name none
  | some style => return .formatted format name (some (← style.toArgStyle))

mutual

def toNode : Element → Except ElementError Node
  | ⟨type, value, style, options, offset, pluralType, children⟩ =>
    match type with
    | 0 => return .literal (← needed "literal" .value value)
    | 1 => return .argument (← needed "argument" .value value)
    | 2 => toFormatted .number value style
    | 3 => toFormatted .date value style
    | 4 => toFormatted .time value style
    | 5 => do
      let name ← needed "select" .value value
      match options with
      | none => throw (.missingField "select" Field.options.name)
      | some options => return .select name (← toBranches options)
    | 6 => do
      let name ← needed "plural" .value value
      let kind ← PluralKind.ofText (← needed "plural" .pluralType pluralType)
      match options with
      | none => throw (.missingField "plural" Field.options.name)
      | some options => return .plural name kind offset (← toBranches options)
    | 7 => return .pound
    | 8 => do
      let name ← needed "tag" .value value
      match children with
      | none => throw (.missingField "tag" Field.children.name)
      | some children => return .tag name (← toMessage children)
    | type => throw (.unknownElementType type)
termination_by structural e => e

def toMessage : List Element → Except ElementError (List Node)
  | [] => .ok []
  | e :: es => do
    let node ← toNode e
    let nodes ← toMessage es
    return node :: nodes
termination_by structural es => es

def toBranches : List (String × List Element) → Except ElementError (List (String × List Node))
  | [] => .ok []
  | (key, body) :: branches => do
    let body ← toMessage body
    let branches ← toBranches branches
    return (key, body) :: branches
termination_by structural branches => branches

end

end Element

namespace Message

/-- The message that a JSON value holds as a tree of elements. -/
def ofJson (j : Json) : Except ElementError Message := do
  let elements ← (Element.ofBody j).mapError fun fault => .unreadable (.dataFault fault)
  Element.toMessage elements

/-- The message that a JSON text holds as a tree of elements. -/
def ofText (text : String) : Except ElementError Message := do
  let elements ← (Json.readDocument (Element.readBody Json.maxDepth) text).mapError .unreadable
  Element.toMessage elements

end Message

end MessageFormat
