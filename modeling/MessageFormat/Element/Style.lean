import MessageFormat.Element.Basic
import MessageFormat.Json.Typed

/-!
# Styles of elements

A style is text or a skeleton. A skeleton is an object, or an array of its three fields; it has a
type, which is a byte, and may have tokens and a pattern. A token is an object, or an array of one
or two fields; it has a stem and may have options. Unknown names are passed over and a known name
may stand once. A value of any other shape is no style, whatever is wrong with it.
-/

namespace MessageFormat.ElementStyle

def text? (j : Json) : Option String :=
  j.asText.toOption

def texts? : Json → Option (List String)
  | .array items => items.mapM text?
  | _ => none

def pattern? (j : Json) : Option (Option String) :=
  (j.asOptional Json.asText).toOption

/-- The value under a name that may be missing but must not be repeated. -/
def unique? (name : String) (members : Members Json) : Option (Option Json) :=
  match members.filter fun m => m.1 = name with
  | [] => some none
  | [m] => some (some m.2)
  | _ => none

/-- A field of a record: read if it is there, else the given value. -/
def field? {α : Type} (name : String) (missing : Option α) (read : Json → Option α)
    (members : Members Json) : Option α := do
  match ← unique? name members with
  | none => missing
  | some j => read j

def token? : Json → Option SkeletonToken
  | .object members => do
    let stem ← field? "stem" none text? members
    let options ← field? "options" (some []) texts? members
    return ⟨stem, options⟩
  | .array [stem] => (text? stem).map fun stem => ⟨stem, []⟩
  | .array [stem, options] => do return ⟨← text? stem, ← texts? options⟩
  | _ => none

def tokens? : Json → Option (List SkeletonToken)
  | .array items => items.mapM token?
  | _ => none

def ofJson? : Json → Option ElementStyle
  | .string s => some (.text s)
  | .object members => do
    let type ← field? "type" none (·.asByte.toOption) members
    let tokens ← field? "tokens" (some []) tokens? members
    let pattern ← field? "pattern" (some none) pattern? members
    return .skeleton type tokens pattern
  | .array [type, tokens, pattern] => do
    return .skeleton (← type.asByte.toOption) (← tokens? tokens) (← pattern? pattern)
  | _ => none

end MessageFormat.ElementStyle
