import MessageFormat.Element.Basic

/-!
# The schema of a message

What a value must be like to be the elements of a message. An element is well-shaped if each of its
fields has the shape of that field, whether its type has a use for the field or not. It is valid if
it also has the fields that its type needs, with elements inside them that are valid again.

Fields are told by their names; unknown names may stand anywhere. No name is repeated in an object.
-/

namespace MessageFormat.Schema

/-! ### Parts of shapes -/

def IsText (j : Json) : Prop :=
  ∃ s, j = .string s

/-- An integer from 0 to 255. -/
def IsByte (j : Json) : Prop :=
  ∃ n : UInt8, j = .number (.ofUInt8 n)

/-- An integer from 0 to 2^32 - 1. -/
def IsWord (j : Json) : Prop :=
  ∃ n : UInt32, j = .number (.ofUInt32 n)

inductive OrNull (p : Json → Prop) : Json → Prop
  | null : OrNull p .null
  | value {j : Json} (h : p j) : OrNull p j

inductive ArrayOf (p : Json → Prop) : Json → Prop
  | array {items : List Json} (h : ∀ item ∈ items, p item) : ArrayOf p (.array items)

inductive ObjectOf (p : Json → Prop) : Json → Prop
  | object {members : Members Json} (h : ∀ m ∈ members, p m.2) : ObjectOf p (.object members)

/-- A member of the name is there and has the shape. -/
inductive Has (name : String) (p : Json → Prop) : Members Json → Prop
  | here {j : Json} {members : Members Json} (h : p j) : Has name p ((name, j) :: members)
  | there {m : String × Json} {members : Members Json} (h : Has name p members) :
    Has name p (m :: members)

/-- If a member of the name is there, it has the shape. -/
def MayHave (name : String) (p : Json → Prop) (members : Members Json) : Prop :=
  ∀ j, (name, j) ∈ members → p j

/-! ### Shapes -/

inductive TokenShape : Json → Prop
  | object {members : Members Json} (stem : Has "stem" IsText members)
    (options : MayHave "options" (ArrayOf IsText) members) : TokenShape (.object members)

inductive StyleShape : Json → Prop
  | text (s : String) : StyleShape (.string s)
  | skeleton {members : Members Json} (type : Has "type" IsByte members)
    (tokens : MayHave "tokens" (ArrayOf TokenShape) members)
    (pattern : MayHave "pattern" (OrNull IsText) members) : StyleShape (.object members)

/-- The record around the body of a branch. -/
inductive BranchOf (p : Json → Prop) : Json → Prop
  | object {members : Members Json} (value : Has "value" (ArrayOf p) members) :
    BranchOf p (.object members)

/-- What each field must be if it is there, and the elements inside it. -/
inductive FieldShape (p : Json → Prop) : Element.Field → Json → Prop
  | type {j : Json} (h : IsByte j) : FieldShape p .type j
  | value {j : Json} (h : OrNull IsText j) : FieldShape p .value j
  | style {j : Json} (h : OrNull StyleShape j) : FieldShape p .style j
  | options {j : Json} (h : OrNull (ObjectOf (BranchOf p)) j) : FieldShape p .options j
  | offset {j : Json} (h : OrNull IsWord j) : FieldShape p .offset j
  | pluralType {j : Json} (h : OrNull IsText j) : FieldShape p .pluralType j
  | children {j : Json} (h : OrNull (ArrayOf p) j) : FieldShape p .children j

/-- An object with a type and with fields of the right shape, at any depth. -/
inductive WellShaped : Json → Prop
  | object {members : Members Json} (type : "type" ∈ Keyed.keys members)
    (fields : ∀ (f : Element.Field) (j : Json), (f.name, j) ∈ members →
      FieldShape WellShaped f j) : WellShaped (.object members)

/-! ### Validity -/

def IsType (types : List UInt8) (j : Json) : Prop :=
  ∃ n ∈ types, j = .number (.ofUInt8 n)

/-- A skeleton of a number, or one of a date or time with its pattern. Text is always usable. -/
def UsableStyle (j : Json) : Prop :=
  ∀ members, j = .object members →
    Has "type" (IsType [0]) members ∨ Has "type" (IsType [1]) members ∧ Has "pattern" IsText members

def IsPluralKind (j : Json) : Prop :=
  j = .string "cardinal" ∨ j = .string "ordinal"

/-- An element has a known type and what its type needs. -/
inductive Complete (p : Json → Prop) : Json → Prop
  | text {members : Members Json} (type : Has "type" (IsType [0, 1]) members)
    (value : Has "value" IsText members) : Complete p (.object members)
  | formatted {members : Members Json} (type : Has "type" (IsType [2, 3, 4]) members)
    (value : Has "value" IsText members) (style : MayHave "style" UsableStyle members) :
    Complete p (.object members)
  | select {members : Members Json} (type : Has "type" (IsType [5]) members)
    (value : Has "value" IsText members)
    (options : Has "options" (ObjectOf (BranchOf p)) members) : Complete p (.object members)
  | plural {members : Members Json} (type : Has "type" (IsType [6]) members)
    (value : Has "value" IsText members) (kind : Has "pluralType" IsPluralKind members)
    (options : Has "options" (ObjectOf (BranchOf p)) members) : Complete p (.object members)
  | pound {members : Members Json} (type : Has "type" (IsType [7]) members) :
    Complete p (.object members)
  | tag {members : Members Json} (type : Has "type" (IsType [8]) members)
    (value : Has "value" IsText members) (children : Has "children" (ArrayOf p) members) :
    Complete p (.object members)

inductive Valid : Json → Prop
  | element {j : Json} (shape : WellShaped j) (complete : Complete Valid j) : Valid j

/-! ### Positions of records -/

inductive Position where
  | element
  | wrapper
  | skeleton
  | token

/-- A value stands at a position for a record somewhere in the array `v` of elements. -/
inductive At (v : Json) : Position → Json → Prop
  | item {items : List Json} {item : Json} (hv : v = .array items) (hitem : item ∈ items) :
    At v .element item
  | child {members : Members Json} {items : List Json} {item : Json}
    (h : At v .element (.object members)) (hm : ("children", .array items) ∈ members)
    (hitem : item ∈ items) : At v .element item
  | wrapper {members branches : Members Json} {key : String} {j : Json}
    (h : At v .element (.object members)) (hm : ("options", .object branches) ∈ members)
    (hb : (key, j) ∈ branches) : At v .wrapper j
  | body {members : Members Json} {items : List Json} {item : Json}
    (h : At v .wrapper (.object members)) (hm : ("value", .array items) ∈ members)
    (hitem : item ∈ items) : At v .element item
  | style {members : Members Json} {j : Json} (h : At v .element (.object members))
    (hm : ("style", j) ∈ members) : At v .skeleton j
  | token {members : Members Json} {items : List Json} {item : Json}
    (h : At v .skeleton (.object members)) (hm : ("tokens", .array items) ∈ members)
    (hitem : item ∈ items) : At v .token item

/-- No record is written as an array of its fields. -/
def ObjectRecords (v : Json) : Prop :=
  ∀ position j, At v position j → ∀ items, j ≠ .array items

/-! ### Members -/

theorem has_iff {name : String} {p : Json → Prop} {members : Members Json} :
    Has name p members ↔ ∃ j, (name, j) ∈ members ∧ p j := by
  constructor
  · intro h
    induction h with
    | here h => exact ⟨_, List.mem_cons_self, h⟩
    | there h ih =>
      obtain ⟨j, hj, hp⟩ := ih
      exact ⟨j, List.mem_cons_of_mem _ hj, hp⟩
  · rintro ⟨j, hj, hp⟩
    induction members with
    | nil => cases hj
    | cons m members ih =>
      rcases List.mem_cons.1 hj with rfl | hj
      · exact .here hp
      · exact .there (ih hj)

theorem Has.mono {name : String} {p q : Json → Prop} {members : Members Json}
    (h : Has name p members) (hpq : ∀ j, (name, j) ∈ members → p j → q j) :
    Has name q members := by
  obtain ⟨j, hj, hp⟩ := has_iff.1 h
  exact has_iff.2 ⟨j, hj, hpq j hj hp⟩

theorem has_congr {name : String} {p q : Json → Prop} {members : Members Json}
    (h : ∀ j, (name, j) ∈ members → (p j ↔ q j)) : Has name p members ↔ Has name q members :=
  ⟨fun hp => hp.mono fun j hj => (h j hj).1, fun hq => hq.mono fun j hj => (h j hj).2⟩

theorem exists_has_iff {α : Type} {name : String} {p : α → Json → Prop} {Q : α → Prop}
    {members : Members Json} :
    (∃ a, Has name (p a) members ∧ Q a) ↔ Has name (fun j => ∃ a, p a j ∧ Q a) members := by
  simp only [has_iff]
  constructor
  · rintro ⟨a, ⟨j, hj, hp⟩, hQ⟩
    exact ⟨j, hj, a, hp, hQ⟩
  · rintro ⟨j, hj, a, hp, hQ⟩
    exact ⟨a, ⟨j, hj, hp⟩, hQ⟩

/-- What a field must be, with the given shapes in the fields that hold records. -/
def FieldIs (style options children : Json → Prop) : Element.Field → Json → Prop
  | .type => IsByte
  | .value | .pluralType => OrNull IsText
  | .style => OrNull style
  | .options => OrNull options
  | .offset => OrNull IsWord
  | .children => OrNull children

theorem fieldShape_iff {p : Json → Prop} {f : Element.Field} {j : Json} :
    FieldShape p f j ↔ FieldIs StyleShape (ObjectOf (BranchOf p)) (ArrayOf p) f j := by
  constructor
  · intro h
    cases h with
    | type h | value h | style h | options h | offset h | pluralType h | children h => exact h
  · intro h
    cases f with
    | type => exact .type h
    | value => exact .value h
    | style => exact .style h
    | options => exact .options h
    | offset => exact .offset h
    | pluralType => exact .pluralType h
    | children => exact .children h

/-! ### Elements inside an element -/

/-- An element among the children or in the body of a branch. -/
inductive Inner (members : Members Json) : Json → Prop
  | child {items : List Json} {item : Json} (hm : ("children", .array items) ∈ members)
    (hitem : item ∈ items) : Inner members item
  | body {branches wrapper : Members Json} {key : String} {items : List Json} {item : Json}
    (hm : ("options", .object branches) ∈ members) (hb : (key, .object wrapper) ∈ branches)
    (hw : ("value", .array items) ∈ wrapper) (hitem : item ∈ items) : Inner members item

theorem sizeOf_lt_of_mem {members : Members Json} {key : String} {j : Json}
    (h : (key, j) ∈ members) : sizeOf j < sizeOf (Json.object members) := by
  have hlt := List.sizeOf_lt_of_mem h
  simp only [Prod.mk.sizeOf_spec, Json.object.sizeOf_spec] at hlt ⊢
  omega

theorem sizeOf_lt_of_mem_items {items : List Json} {item : Json} (h : item ∈ items) :
    sizeOf item < sizeOf (Json.array items) := by
  have hlt := List.sizeOf_lt_of_mem h
  simp only [Json.array.sizeOf_spec]
  omega

namespace Inner

variable {members : Members Json} {item : Json}

theorem sizeOf_lt (h : Inner members item) : sizeOf item < sizeOf (Json.object members) := by
  cases h with
  | child hm hitem =>
    have hitem := sizeOf_lt_of_mem_items hitem
    have hm := sizeOf_lt_of_mem hm
    omega
  | body hm hb hw hitem =>
    have hitem := sizeOf_lt_of_mem_items hitem
    have hw := sizeOf_lt_of_mem hw
    have hb := sizeOf_lt_of_mem hb
    have hm := sizeOf_lt_of_mem hm
    omega

/-- What holds of a value if it holds of the elements inside it holds of every value. -/
theorem induction {motive : Json → Prop}
    (step : ∀ j, (∀ members, j = .object members → ∀ item, Inner members item → motive item) →
      motive j) (j : Json) : motive j :=
  step j fun _ heq item h =>
    have : sizeOf item < sizeOf j := heq ▸ h.sizeOf_lt
    induction step item
termination_by sizeOf j

theorem at_element {v : Json} (h : Inner members item) (hat : At v .element (.object members)) :
    At v .element item := by
  cases h with
  | child hm hitem => exact .child hat hm hitem
  | body hm hb hw hitem => exact .body (.wrapper hat hm hb) hw hitem

end Inner

section

variable {p q : Json → Prop} {members : Members Json} {j : Json}
  (hpq : ∀ item, Inner members item → p item → q item)

include hpq

theorem ArrayOf.of_inner (hj : ("children", j) ∈ members) (h : ArrayOf p j) : ArrayOf q j := by
  obtain ⟨h⟩ := h
  exact .array fun item hitem => hpq item (.child hj hitem) (h item hitem)

theorem ObjectOf.of_inner (hj : ("options", j) ∈ members) (h : ObjectOf (BranchOf p) j) :
    ObjectOf (BranchOf q) j := by
  obtain ⟨h⟩ := h
  refine .object fun m hm => ?_
  obtain ⟨key, w⟩ := m
  cases h _ hm with
  | object hvalue =>
    refine .object (hvalue.mono fun body hbody hitems => ?_)
    obtain ⟨hitems⟩ := hitems
    exact .array fun item hitem => hpq item (.body hj hm hbody hitem) (hitems item hitem)

theorem FieldShape.of_inner {f : Element.Field} (hj : (f.name, j) ∈ members)
    (h : FieldShape p f j) : FieldShape q f j := by
  cases h with
  | type h => exact .type h
  | value h => exact .value h
  | style h => exact .style h
  | offset h => exact .offset h
  | pluralType h => exact .pluralType h
  | options h =>
    cases h with
    | null => exact .options .null
    | value h => exact .options (.value (h.of_inner hpq hj))
  | children h =>
    cases h with
    | null => exact .children .null
    | value h => exact .children (.value (h.of_inner hpq hj))

theorem Complete.of_inner (h : Complete p (.object members)) : Complete q (.object members) := by
  have hoptions : Has "options" (ObjectOf (BranchOf p)) members →
      Has "options" (ObjectOf (BranchOf q)) members :=
    fun h => h.mono fun j hj hbranches => hbranches.of_inner hpq hj
  cases h with
  | text type value => exact .text type value
  | formatted type value style => exact .formatted type value style
  | select type value options => exact .select type value (hoptions options)
  | plural type value kind options => exact .plural type value kind (hoptions options)
  | pound type => exact .pound type
  | tag type value children =>
    exact .tag type value (children.mono fun j hj hitems => hitems.of_inner hpq hj)

end

end MessageFormat.Schema
