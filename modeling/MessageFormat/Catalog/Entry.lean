import MessageFormat.Catalog.Basic
import MessageFormat.Json.Draft.Object
import MessageFormat.Json.Layout

/-!
# Entries and messages in JSON

A catalog entry is the text of a message and, if there is one, its description. An extracted
message is the source of a message, as text or as a tree, and possibly a description of any kind.
Both are records of one field that must be there and one that may be missing, and both are read
from an object or from an array of the fields. For an entry a description that is `null` is a
missing one; for an extracted message it is there.
-/

namespace MessageFormat

open Json (Draft PairReader ReadError)

structure CatalogEntry where
  message : String
  description : Option String
deriving DecidableEq, Repr

/-- The source of a message: its text or, as any other JSON value, its tree. -/
inductive MessageSource where
  | text (text : String)
  | tree (tree : Json)

structure ExtractedMessage where
  source : MessageSource
  description : Option Json

namespace CatalogEntry

def reader : PairReader String (Option String) where
  kind := .entry
  first := "message"
  second := "description"
  readFirst _ := Draft.readText
  readSecond _ := Draft.readOptional Draft.readText

def read (depth : Nat) (d : Draft) : Except ReadError CatalogEntry :=
  (reader.read depth d).map fun e => ⟨e.1, e.2.join⟩

def toJson (e : CatalogEntry) : Json :=
  .object (("message", .string e.message) ::
    (e.description.map fun d => ("description", Json.string d)).toList)

end CatalogEntry

namespace ExtractedMessage

def readSource (depth : Nat) (d : Draft) : Except ReadError MessageSource :=
  (d.readValue depth).map fun
    | .string s => .text s
    | j => .tree j

def reader : PairReader MessageSource Json where
  kind := .extracted
  first := "defaultMessage"
  second := "description"
  readFirst := readSource
  readSecond := Draft.readValue

def read (depth : Nat) (d : Draft) : Except ReadError ExtractedMessage :=
  (reader.read depth d).map fun m => ⟨m.1, m.2⟩

def sourceJson : MessageSource → Json
  | .text t => .string t
  | .tree j => j

def toJson (m : ExtractedMessage) : Json :=
  .object (("defaultMessage", sourceJson m.source) ::
    (m.description.map fun d => ("description", d)).toList)

/-- The extracted messages of a text in the order of their ids there. -/
def ofText (text : String) : Except ReadError (Members ExtractedMessage) :=
  Json.readObject [] (fun ms id m => Keyed.set id m ms) read text

end ExtractedMessage

namespace Catalog

variable {α : Type}

/-- The catalog that a text holds, given how a value of it is read. -/
def ofText (readOne : Nat → Draft → Except ReadError α) (text : String) :
    Except ReadError (Catalog α) :=
  Json.readObject Catalog.empty Catalog.insert readOne text

def toJson (valueJson : α → Json) (c : Catalog α) : Json :=
  .object (c.entries.map fun e => (e.1, valueJson e.2))

end Catalog

/-- The trees of a text by id, in the order of the text. -/
def readTrees (text : String) : Except ReadError (Members Json) :=
  Json.readObject [] (fun ms id j => Keyed.set id j ms) Draft.readValue text

end MessageFormat
