import MessageFormat.Json.Basic
import MessageFormat.Message.Basic

/-!
# Elements

An element is one node of a message in the form in which extractors hand it over: a record with a
numeric type and a field for everything that some type of node needs. Elements are read whole,
fields that their type has no use for included, before any of them is made a node.
-/

namespace MessageFormat

/-- The style of an element: free text or a skeleton, again with a numeric type. -/
inductive ElementStyle where
  | text (text : String)
  | skeleton (type : UInt8) (tokens : List SkeletonToken) (pattern : Option String)
deriving DecidableEq, Repr

structure Element where
  type : UInt8
  value : Option String
  style : Option ElementStyle
  options : Option (List (String × List Element))
  offset : Option UInt32
  pluralType : Option String
  children : Option (List Element)

namespace Element

/-- An element of which nothing has been read. -/
def blank : Element :=
  ⟨0, none, none, none, none, none, none⟩

inductive Field where
  | type
  | value
  | style
  | options
  | offset
  | pluralType
  | children
deriving DecidableEq, Repr

namespace Field

def name : Field → String
  | .type => "type"
  | .value => "value"
  | .style => "style"
  | .options => "options"
  | .offset => "offset"
  | .pluralType => "pluralType"
  | .children => "children"

/-- The fields in the order of an element that is written as an array. -/
def all : List Field :=
  [.type, .value, .style, .options, .offset, .pluralType, .children]

def ofName? (name : String) : Option Field :=
  all.find? fun f => f.name = name

theorem ofName?_name (f : Field) : ofName? f.name = some f := by
  cases f <;> rfl

theorem name_of_ofName? {s : String} {f : Field} (h : ofName? s = some f) : f.name = s := by
  simpa using List.find?_some h

end Field

end Element

end MessageFormat
