import MessageFormat.Catalog.Entry
import MessageFormat.Catalog.Report
import MessageFormat.Message.Printer

/-!
# Making catalogs

Formatting turns extracted messages into catalog entries, printing turns trees into texts. How the
text of a message is read, and whether the text around its blocks is moved into their branches
before it is printed, is left to the caller.
-/

namespace MessageFormat

abbrev MessageParser := String → Except ParseError Message

abbrev Hoister := Message → Message

namespace MessageParser

def elements : MessageParser := fun text =>
  (Message.ofText text).mapError fun error => ⟨error.message⟩

def unsupported : MessageParser := fun _ =>
  .error ⟨"message source text is not supported; extract messages as ast"⟩

end MessageParser

namespace Hoister

def unchanged : Hoister := fun message => message

end Hoister

/-- The message of a source before hoisting. -/
def MessageSource.toMessage (parser : MessageParser) (id : String) :
    MessageSource → Except CatalogError Message
  | .text t => (parser t).mapError (.unparsable id)
  | .tree j => (Message.ofJson j).mapError (.invalidTree id)

/-- The description of an entry: a text as it is, any other value in its compact form. -/
def renderDescription : Option Json → Option String
  | none => none
  | some (.string s) => some s
  | some j => some j.compact

def formatEntry (parser : MessageParser) (hoist : Hoister) (id : String) (m : ExtractedMessage) :
    Report CatalogEntry :=
  match m.source.toMessage parser id with
  | .error error => ⟨.error error, []⟩
  | .ok message =>
    let text := (hoist message).print
    ⟨.ok ⟨text, renderDescription m.description⟩, [.formatted id text]⟩

def formatCatalog (parser : MessageParser) (hoist : Hoister)
    (messages : List (String × ExtractedMessage)) : Report (Catalog CatalogEntry) :=
  Report.collect (formatEntry parser hoist) (fun id error => [.failed id error]) .formattedAll
    Catalog.empty messages

def printTree (id : String) (tree : Json) : Report String :=
  match Message.ofJson tree with
  | .error error => ⟨.error (.invalidTree id error), []⟩
  | .ok message => ⟨.ok message.print, [.printed id message.print]⟩

def printTrees (trees : List (String × Json)) : Report (Catalog String) :=
  Report.collect printTree (fun _ _ => []) .printedAll Catalog.empty trees

end MessageFormat
