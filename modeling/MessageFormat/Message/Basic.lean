/-!
# Messages

A message is a list of nodes: literal text, arguments, formatted arguments, plural and select
blocks, tags, and the pound sign that stands for the number of the enclosing plural. The branches
of a block keep their order and may repeat a key; looking one up finds the first.
-/

namespace MessageFormat

/-- One token of a number skeleton: a stem and the options written after it. -/
structure SkeletonToken where
  stem : String
  options : List String
deriving DecidableEq, Repr, Inhabited

/-- How an argument is to be formatted: free text, a number skeleton or a date-time pattern. -/
inductive ArgStyle where
  | text (text : String)
  | number (tokens : List SkeletonToken)
  | dateTime (pattern : String)
deriving DecidableEq, Repr, Inhabited

inductive ArgFormat where
  | number
  | date
  | time
deriving DecidableEq, Repr, Inhabited

namespace ArgFormat

def keyword : ArgFormat → String
  | .number => "number"
  | .date => "date"
  | .time => "time"

end ArgFormat

inductive PluralKind where
  | cardinal
  | ordinal
deriving DecidableEq, Repr, Inhabited

namespace PluralKind

def keyword : PluralKind → String
  | .cardinal => "plural"
  | .ordinal => "selectordinal"

end PluralKind

/-- A plural without an offset is not the same node as one whose offset is written and zero. -/
inductive Node where
  | literal (text : String)
  | argument (name : String)
  | formatted (format : ArgFormat) (name : String) (style : Option ArgStyle)
  | pound
  | plural (name : String) (kind : PluralKind) (offset : Option UInt32)
      (branches : List (String × List Node))
  | select (name : String) (branches : List (String × List Node))
  | tag (name : String) (children : List Node)
deriving Inhabited

abbrev Message := List Node

/-- The branches of a plural or select block: selector keys with their bodies, in order. -/
abbrev Branches := List (String × List Node)

namespace Branches

def empty : Branches := []

/-- Adds a branch at the end, also where its key is there already. -/
def push (bs : Branches) (key : String) (body : Message) : Branches :=
  bs ++ [(key, body)]

/-- The body of the first branch with the given key. -/
def get? (bs : Branches) (key : String) : Option Message :=
  (bs.find? fun b => b.1 = key).map Prod.snd

def keys (bs : Branches) : List String :=
  bs.map Prod.fst

def size (bs : Branches) : Nat :=
  bs.length

@[simp] theorem keys_push (bs : Branches) (key : String) (body : Message) :
    (bs.push key body).keys = bs.keys ++ [key] := by
  simp [push, keys]

@[simp] theorem size_push (bs : Branches) (key : String) (body : Message) :
    (bs.push key body).size = bs.size + 1 := by
  simp [push, size]

theorem get?_push (bs : Branches) (key k : String) (body : Message) :
    (bs.push key body).get? k = (bs.get? k).or (if key = k then some body else none) := by
  simp only [push, get?, List.find?_append]
  cases bs.find? fun b => b.1 = k <;> by_cases h : key = k <;> simp [h]

end Branches

/-! ### Equality of nodes can be decided -/

mutual

def Node.decEq (a b : Node) : Decidable (a = b) :=
  match a, b with
  | .literal s, .literal t => decidable_of_iff (s = t) (by simp)
  | .argument s, .argument t => decidable_of_iff (s = t) (by simp)
  | .formatted f s x, .formatted g t y => decidable_of_iff (f = g ∧ s = t ∧ x = y) (by simp)
  | .pound, .pound => isTrue rfl
  | .plural s k m bs, .plural t l n cs =>
    match Branches.decEq bs cs with
    | isTrue h => decidable_of_iff (s = t ∧ k = l ∧ m = n) (by simp [h])
    | isFalse h => isFalse (by simp [h])
  | .select s bs, .select t cs =>
    match Branches.decEq bs cs with
    | isTrue h => decidable_of_iff (s = t) (by simp [h])
    | isFalse h => isFalse (by simp [h])
  | .tag s ms, .tag t ns =>
    match Message.decEq ms ns with
    | isTrue h => decidable_of_iff (s = t) (by simp [h])
    | isFalse h => isFalse (by simp [h])
  | .literal _, .argument _ | .literal _, .formatted .. | .literal _, .pound
  | .literal _, .plural .. | .literal _, .select .. | .literal _, .tag ..
  | .argument _, .literal _ | .argument _, .formatted .. | .argument _, .pound
  | .argument _, .plural .. | .argument _, .select .. | .argument _, .tag ..
  | .formatted .., .literal _ | .formatted .., .argument _ | .formatted .., .pound
  | .formatted .., .plural .. | .formatted .., .select .. | .formatted .., .tag ..
  | .pound, .literal _ | .pound, .argument _ | .pound, .formatted ..
  | .pound, .plural .. | .pound, .select .. | .pound, .tag ..
  | .plural .., .literal _ | .plural .., .argument _ | .plural .., .formatted ..
  | .plural .., .pound | .plural .., .select .. | .plural .., .tag ..
  | .select .., .literal _ | .select .., .argument _ | .select .., .formatted ..
  | .select .., .pound | .select .., .plural .. | .select .., .tag ..
  | .tag .., .literal _ | .tag .., .argument _ | .tag .., .formatted ..
  | .tag .., .pound | .tag .., .plural .. | .tag .., .select .. => isFalse (by simp)
termination_by structural a

def Message.decEq (a b : List Node) : Decidable (a = b) :=
  match a, b with
  | [], [] => isTrue rfl
  | m :: ms, n :: ns =>
    match Node.decEq m n, Message.decEq ms ns with
    | isTrue h, isTrue hs => isTrue (by rw [h, hs])
    | isFalse h, _ => isFalse (by simp [h])
    | _, isFalse hs => isFalse (by simp [hs])
  | [], _ :: _ | _ :: _, [] => isFalse (by simp)
termination_by structural a

def Branches.decEq (a b : List (String × List Node)) : Decidable (a = b) :=
  match a, b with
  | [], [] => isTrue rfl
  | (j, ms) :: as, (k, ns) :: bs =>
    match Message.decEq ms ns, Branches.decEq as bs with
    | isTrue h, isTrue hs => decidable_of_iff (j = k) (by simp [h, hs])
    | isFalse h, _ => isFalse (by simp [h])
    | _, isFalse hs => isFalse (by simp [hs])
  | [], _ :: _ | _ :: _, [] => isFalse (by simp)
termination_by structural a

end

instance : DecidableEq Node := Node.decEq

end MessageFormat
