import MessageFormat.Message.Printer

/-!
# Well-formed messages

What a message has to satisfy for its text to say everything about it. Names and selector keys have
no blanks and none of the characters of message syntax, literals are not empty, need no apostrophe
of their own and never stand side by side, and a pound sign stands for a number only in the body of
a plural. The whole message neither begins nor ends with a blank of a literal.
-/

namespace MessageFormat

/-- The characters that end a name somewhere in message syntax. -/
def reservedChars : List Char :=
  ['\x7b', '\x7d', ',', '\'', '<', '>', '/', '#']

/-- A text that can be a name or a selector key. -/
def IsName (s : String) : Prop :=
  s ≠ "" ∧ ∀ c ∈ s.toList, Text.isBlank c = false ∧ c ∉ reservedChars

/-- A text that can be a literal. In the body of a plural no pound sign lies between its braces,
because such a pound sign would close the quotes around them. -/
def IsLiteral (scope : Scope) (t : String) : Prop :=
  t ≠ "" ∧ '\'' ∉ t.toList ∧ '<' ∉ t.toList ∧
    (scope = .pluralBody → '#' ∉ (Quoting.braceSpan t.toList).2.1)

/-! The instances below go through the characters of a text and not through all characters. -/

instance (s : String) : Decidable (IsName s) :=
  have := List.decidableBAll (fun c => Text.isBlank c = false ∧ c ∉ reservedChars) s.toList
  inferInstanceAs (Decidable (_ ∧ _))

instance (scope : Scope) (t : String) : Decidable (IsLiteral scope t) :=
  inferInstanceAs (Decidable (_ ∧ _ ∧ _ ∧ _))

theorem IsName.exists_cons {s : String} (h : IsName s) :
    ∃ c u, s.toList = c :: u ∧ Text.isBlank c = false ∧ c ∉ reservedChars := by
  have hne : s.toList ≠ [] := fun hnil => h.1 (String.toList_eq_nil_iff.1 hnil)
  obtain ⟨c, u, hcons⟩ := List.exists_cons_of_ne_nil hne
  exact ⟨c, u, hcons, h.2 c (by simp [hcons])⟩

theorem IsLiteral.toList_ne_nil {scope : Scope} {t : String} (h : IsLiteral scope t) :
    t.toList ≠ [] :=
  fun hnil => h.1 (String.toList_eq_nil_iff.1 hnil)

/-- A token that can be told from the tokens around it. -/
def SkeletonToken.WellFormed (token : SkeletonToken) : Prop :=
  token.stem ≠ "" ∧ ∀ s ∈ token.stem :: token.options, ∀ c ∈ s.toList,
    c ≠ ' ' ∧ c ≠ '/' ∧ Quoting.isBrace c = false

instance (token : SkeletonToken) : Decidable token.WellFormed :=
  have (s : String) :=
    List.decidableBAll (fun c => c ≠ ' ' ∧ c ≠ '/' ∧ Quoting.isBrace c = false) s.toList
  inferInstanceAs (Decidable (_ ∧ _))

/-- Number skeletons belong to numbers, patterns to dates and times, and a text is not announced
like a skeleton. -/
def ArgStyle.WellFormed (format : ArgFormat) : ArgStyle → Prop
  | .text t => '\'' ∉ t.toList ∧ ¬ [':', ':'] <+: t.toList
  | .number tokens => format = .number ∧ ∀ token ∈ tokens, token.WellFormed
  | .dateTime pattern => format ≠ .number ∧ ∀ c ∈ pattern.toList, Quoting.isBrace c = false

instance (format : ArgFormat) (style : ArgStyle) : Decidable (style.WellFormed format) :=
  match style with
  | .text _ => inferInstanceAs (Decidable (_ ∧ _))
  | .number _ => inferInstanceAs (Decidable (_ ∧ _))
  | .dateTime pattern =>
    have := List.decidableBAll (fun c => Quoting.isBrace c = false) pattern.toList
    inferInstanceAs (Decidable (_ ∧ _))

namespace Node

/-- The text of a literal, and nothing for any other node. -/
def text : Node → List Char
  | .literal t => t.toList
  | _ => []

def isLiteral : Node → Bool
  | .literal _ => true
  | _ => false

theorem exists_of_isLiteral {node : Node} (h : node.isLiteral = true) : ∃ t, node = .literal t := by
  cases node with
  | literal t => exact ⟨t, rfl⟩
  | _ => cases h

end Node

def Message.startsWithLiteral : Message → Bool
  | [] => false
  | node :: _ => node.isLiteral

mutual

def Node.WellFormed (scope : Scope) : Node → Prop
  | .literal t => IsLiteral scope t
  | .argument name => IsName name
  | .formatted format name style => IsName name ∧ ∀ s ∈ style, s.WellFormed format
  | .pound => scope = .pluralBody
  | .plural name _ _ branches => IsName name ∧ Branches.WellFormed .pluralBody branches
  | .select name branches => IsName name ∧ Branches.WellFormed .selectBody branches
  | .tag name children => IsName name ∧ Message.WellFormedIn scope children
termination_by structural node => node

def Message.WellFormedIn (scope : Scope) : List Node → Prop
  | [] => True
  | node :: nodes =>
    node.WellFormed scope ∧ (node.isLiteral = true → Message.startsWithLiteral nodes = false) ∧
      Message.WellFormedIn scope nodes
termination_by structural nodes => nodes

def Branches.WellFormed (scope : Scope) : List (String × List Node) → Prop
  | [] => True
  | (key, body) :: branches =>
    IsName key ∧ Message.WellFormedIn scope body ∧ Branches.WellFormed scope branches
termination_by structural branches => branches

end

/-- No literal at either end of a message puts a blank there. -/
def Message.NoOuterBlank (m : Message) : Prop :=
  (∀ node ∈ m.head?, ∀ c ∈ node.text.head?, Text.isBlank c = false) ∧
    ∀ node ∈ m.getLast?, ∀ c ∈ node.text.getLast?, Text.isBlank c = false

instance (m : Message) : Decidable m.NoOuterBlank :=
  have (o : Option Char) : Decidable (∀ c ∈ o, Text.isBlank c = false) :=
    Option.decidableForallMem o
  inferInstanceAs (Decidable (_ ∧ _))

structure Message.WellFormed (m : Message) : Prop where
  nodes : Message.WellFormedIn .message m
  noOuterBlank : m.NoOuterBlank

mutual

def Node.decWellFormed (scope : Scope) (node : Node) : Decidable (node.WellFormed scope) :=
  match node with
  | .literal t => inferInstanceAs (Decidable (IsLiteral scope t))
  | .argument name => inferInstanceAs (Decidable (IsName name))
  | .formatted _ _ _ => inferInstanceAs (Decidable (_ ∧ _))
  | .pound => inferInstanceAs (Decidable (scope = .pluralBody))
  | .plural _ _ _ branches =>
    have := Branches.decWellFormed .pluralBody branches
    inferInstanceAs (Decidable (_ ∧ _))
  | .select _ branches =>
    have := Branches.decWellFormed .selectBody branches
    inferInstanceAs (Decidable (_ ∧ _))
  | .tag _ children =>
    have := Message.decWellFormedIn scope children
    inferInstanceAs (Decidable (_ ∧ _))
termination_by structural node

def Message.decWellFormedIn (scope : Scope) (m : List Node) :
    Decidable (Message.WellFormedIn scope m) :=
  match m with
  | [] => isTrue trivial
  | node :: nodes =>
    have := node.decWellFormed scope
    have := Message.decWellFormedIn scope nodes
    inferInstanceAs (Decidable (_ ∧ _ ∧ _))
termination_by structural m

def Branches.decWellFormed (scope : Scope) (branches : List (String × List Node)) :
    Decidable (Branches.WellFormed scope branches) :=
  match branches with
  | [] => isTrue trivial
  | (_, body) :: branches =>
    have := Message.decWellFormedIn scope body
    have := Branches.decWellFormed scope branches
    inferInstanceAs (Decidable (_ ∧ _ ∧ _))
termination_by structural branches

end

instance (m : Message) : Decidable m.WellFormed :=
  have := Message.decWellFormedIn .message m
  decidable_of_iff (Message.WellFormedIn .message m ∧ m.NoOuterBlank)
    ⟨fun h => ⟨h.1, h.2⟩, fun h => ⟨h.nodes, h.noOuterBlank⟩⟩

/-- A message with every kind of node and of style, and with blocks inside of blocks. -/
def Message.sample (offset : Option UInt32) : Message :=
  [.literal "Hi ", .argument "name",
    .select "who" [
      ("one", [.literal "a\x7b#", .tag "b" [
        .plural "n" .cardinal offset [
          ("=1", []),
          ("other", [.pound, .literal "# \x7b\x7d", .select "to" [("x", [.literal "#"])]])]]]),
      ("other", [.formatted .number "n" (some (.number [⟨"a", ["b"]⟩, ⟨"c", []⟩])),
        .formatted .date "d" (some (.dateTime "yMd")),
        .formatted .time "t" (some (.text ":\x7b")), .formatted .time "t" none])]]

end MessageFormat
