import MessageFormat.Keyed
import MessageFormat.Json.Number

/-!
# JSON values

The members of an object keep their order. A tree that was read from a text may hold an object in
which a name is repeated; `settle` resolves the repetitions as `Keyed.set` does, and a value is
settled unless something else is said.
-/

namespace MessageFormat

inductive Json where
  | null
  | bool (value : Bool)
  | number (value : Json.Number)
  | string (value : String)
  | array (items : List Json)
  | object (members : List (String × Json))
deriving Inhabited

namespace Json

mutual

/-- Leaves every name of every object once: at its first place, with its last value. -/
def settle : Json → Json
  | .array items => .array (settleItems items)
  | .object members => .object (Keyed.ofList (settleMembers members))
  | j => j
termination_by structural j => j

def settleItems : List Json → List Json
  | [] => []
  | item :: items => item.settle :: settleItems items
termination_by structural items => items

def settleMembers : List (String × Json) → List (String × Json)
  | [] => []
  | (key, value) :: members => (key, value.settle) :: settleMembers members
termination_by structural members => members

end

mutual

/-- How many containers lie around each other in a value at most. -/
def depth : Json → Nat
  | .array items => itemsDepth items + 1
  | .object members => membersDepth members + 1
  | _ => 0
termination_by structural j => j

def itemsDepth : List Json → Nat
  | [] => 0
  | item :: items => max item.depth (itemsDepth items)
termination_by structural items => items

def membersDepth : List (String × Json) → Nat
  | [] => 0
  | (_, value) :: members => max value.depth (membersDepth members)
termination_by structural members => members

end

end Json

end MessageFormat
