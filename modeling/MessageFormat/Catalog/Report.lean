import MessageFormat.Catalog.Basic
import MessageFormat.Element.Node

/-!
# Reports

Going through an input in order, stopping at the first failure and reporting what happens on the
way as events. An id that is repeated ends up with its last value.
-/

namespace MessageFormat

/-- Why the text of a message is refused by a parser. -/
structure ParseError where
  message : String
deriving DecidableEq, Repr

inductive CatalogError where
  | unreadable (error : Json.ReadError)
  | unparsable (id : String) (error : ParseError)
  | invalidTree (id : String) (error : ElementError)
deriving DecidableEq, Repr

namespace CatalogError

def message : CatalogError → String
  | .unreadable error => "json error: " ++ error.message
  | .unparsable id error => "parse error for " ++ id ++ ": " ++ error.message
  | .invalidTree id error => "invalid ast for " ++ id ++ ": " ++ error.message

end CatalogError

inductive Level where
  | debug
  | info
  | warn
deriving DecidableEq, Repr

inductive Event where
  | formatted (id output : String)
  | failed (id : String) (error : CatalogError)
  | formattedAll (entries : Nat)
  | printed (id output : String)
  | printedAll (entries : Nat)
deriving DecidableEq, Repr

namespace Event

def level : Event → Level
  | .formatted .. | .printed .. => .debug
  | .formattedAll _ | .printedAll _ => .info
  | .failed .. => .warn

def message : Event → String
  | .formatted .. => "formatted message"
  | .failed .. => "failed to format message"
  | .formattedAll _ => "formatted catalog"
  | .printed .. => "printed message"
  | .printedAll _ => "printed compiled messages"

end Event

/-- What came of a run and the events on the way to it. -/
structure Report (α : Type) where
  outcome : Except CatalogError α
  events : List Event

namespace Report

/-- Puts what `step` makes of each pair into a catalog. After a failure come the events of
`failure`, after the last pair that of `finish`, which is told the number of ids. -/
def collect {α β : Type} (step : String → α → Report β)
    (failure : String → CatalogError → List Event) (finish : Nat → Event) :
    Catalog β → List (String × α) → Report (Catalog β)
  | catalog, [] => ⟨.ok catalog, [finish catalog.size]⟩
  | catalog, (id, a) :: pairs =>
    match step id a with
    | ⟨.error error, events⟩ => ⟨.error error, events ++ failure id error⟩
    | ⟨.ok b, events⟩ =>
      let rest := collect step failure finish (catalog.insert id b) pairs
      ⟨rest.outcome, events ++ rest.events⟩

end Report

end MessageFormat
