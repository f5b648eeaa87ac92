import MessageFormat.Proofs.Element.Reading
import MessageFormat.Proofs.Element.Spelling

/-!
# Legible values

What every part of a value must be like that is looked at when elements are read. A value is legible
as an element if its type is there and each of its fields has the shape of that field, also in the
elements inside of it; its records may be spelled as objects or as arrays. The elements that can be
read are the legible ones.
-/

namespace MessageFormat

namespace Schema

inductive LegibleToken : Json → Prop
  | record {j : Json} {members : Members Json} (h : Spells .token j members)
    (stem : Has "stem" IsText members) (options : MayHave "options" (ArrayOf IsText) members) :
    LegibleToken j

inductive LegibleStyle : Json → Prop
  | text (s : String) : LegibleStyle (.string s)
  | skeleton {j : Json} {members : Members Json} (h : Spells .skeleton j members)
    (type : Has "type" IsByte members) (tokens : MayHave "tokens" (ArrayOf LegibleToken) members)
    (pattern : MayHave "pattern" (OrNull IsText) members) : LegibleStyle j

/-- The record around the body of a branch. -/
inductive LegibleBranch (p : Json → Prop) : Json → Prop
  | object {members : Members Json} (value : Has "value" (ArrayOf p) members) :
    LegibleBranch p (.object members)
  | array {body : Json} (value : ArrayOf p body) : LegibleBranch p (.array [body])

/-- What each field must be if it is there, and the elements inside it. -/
inductive LegibleField (p : Json → Prop) : Element.Field → Json → Prop
  | type {j : Json} (h : IsByte j) : LegibleField p .type j
  | value {j : Json} (h : OrNull IsText j) : LegibleField p .value j
  | style {j : Json} (h : OrNull LegibleStyle j) : LegibleField p .style j
  | options {j : Json} (h : OrNull (ObjectOf (LegibleBranch p)) j) : LegibleField p .options j
  | offset {j : Json} (h : OrNull IsWord j) : LegibleField p .offset j
  | pluralType {j : Json} (h : OrNull IsText j) : LegibleField p .pluralType j
  | children {j : Json} (h : OrNull (ArrayOf p) j) : LegibleField p .children j

/-- A record with a type and with fields of the right shape, at any depth. -/
inductive Legible : Json → Prop
  | record {j : Json} {members : Members Json} (h : Spells .element j members)
    (type : "type" ∈ Keyed.keys members)
    (fields : ∀ (f : Element.Field) (x : Json), (f.name, x) ∈ members →
      LegibleField Legible f x) : Legible j

/-! ### Smaller values -/

section

variable {p q : Json → Prop} {j : Json}

theorem OrNull.mono (h : OrNull p j) (hpq : p j → q j) : OrNull q j := by
  cases h with
  | null => exact .null
  | value h => exact .value (hpq h)

/-- What holds of one value only if another thing does, for values inside of `j`. -/
def ImpliesInside (j : Json) (p q : Json → Prop) : Prop :=
  ∀ item, sizeOf item < sizeOf j → item.Distinct → p item → q item

theorem ImpliesInside.of_lt {x : Json} (hpq : ImpliesInside j p q) (h : sizeOf x < sizeOf j) :
    ImpliesInside x p q :=
  fun item hlt => hpq item (Nat.lt_trans hlt h)

variable (hdistinct : j.Distinct) (hpq : ImpliesInside j p q)

include hdistinct hpq

theorem ArrayOf.mono_inside (h : ArrayOf p j) : ArrayOf q j := by
  obtain ⟨h⟩ := h
  exact .array fun item hitem =>
    hpq item (sizeOf_lt_of_mem_items hitem) (hdistinct.item hitem) (h item hitem)

theorem LegibleBranch.mono_inside (h : LegibleBranch p j) : LegibleBranch q j := by
  cases h with
  | object hvalue =>
    refine .object (hvalue.mono fun body hbody hitems => ?_)
    exact hitems.mono_inside (hdistinct.member hbody) (hpq.of_lt (sizeOf_lt_of_mem hbody))
  | @array body hvalue =>
    have hbody : body ∈ [body] := List.mem_singleton_self body
    refine .array (hvalue.mono_inside (hdistinct.item hbody) (hpq.of_lt ?_))
    exact sizeOf_lt_of_mem_items hbody

theorem ObjectOf.mono_inside (h : ObjectOf (LegibleBranch p) j) :
    ObjectOf (LegibleBranch q) j := by
  obtain ⟨h⟩ := h
  refine .object fun m hm => ?_
  exact (h m hm).mono_inside (hdistinct.member hm) (hpq.of_lt (sizeOf_lt_of_mem hm))

theorem LegibleField.mono_inside {f : Element.Field} (h : LegibleField p f j) :
    LegibleField q f j := by
  cases h with
  | type h => exact .type h
  | value h => exact .value h
  | style h => exact .style h
  | options h => exact .options (h.mono (·.mono_inside hdistinct hpq))
  | offset h => exact .offset h
  | pluralType h => exact .pluralType h
  | children h => exact .children (h.mono (·.mono_inside hdistinct hpq))

end

end Schema

open Schema

theorem Json.object_ne_array (members : Members Json) (items : List Json) :
    Json.object members ≠ .array items :=
  nofun

/-! ### Styles that can be read -/

namespace ElementStyle

variable {j : Json}

theorem token?_isSome_iff_legible (hdistinct : j.Distinct) :
    (∃ token, token? j = some token) ↔ LegibleToken j := by
  constructor
  · rintro ⟨token, h⟩
    obtain ⟨members, hspells⟩ := exists_spells_of_token? h
    rw [token?_spells hspells] at h
    have hobject := token?_isSome_iff (Json.object_ne_array members) (hspells.distinct hdistinct)
    cases hobject.1 ⟨token, h⟩ with
    | object stem options => exact .record hspells stem options
  · intro h
    obtain @⟨members, hspells, stem, options⟩ := h
    rw [token?_spells hspells]
    exact (token?_isSome_iff (Json.object_ne_array members) (hspells.distinct hdistinct)).2
      (.object stem options)

theorem ofJson?_object_isSome_iff_legible {members : Members Json}
    (hdistinct : (Json.object members).Distinct) :
    (∃ style, ofJson? (.object members) = some style) ↔ Has "type" IsByte members ∧
      MayHave "tokens" (ArrayOf LegibleToken) members ∧
      MayHave "pattern" (OrNull IsText) members := by
  refine ofJson?_object_isSome_iff hdistinct.nodup fun x hx => tokens?_isSome_iff ?_
  rintro items rfl item hitem
  exact token?_isSome_iff_legible ((hdistinct.member hx).item hitem)

theorem ofJson?_isSome_iff_legible (hdistinct : j.Distinct) :
    (∃ style, ofJson? j = some style) ↔ LegibleStyle j := by
  constructor
  · rintro ⟨style, h⟩
    rcases exists_spells_of_ofJson? h with ⟨s, rfl⟩ | ⟨members, hspells⟩
    · exact .text s
    · rw [ofJson?_spells hspells] at h
      obtain ⟨type, tokens, pattern⟩ :=
        (ofJson?_object_isSome_iff_legible (hspells.distinct hdistinct)).1 ⟨style, h⟩
      exact .skeleton hspells type tokens pattern
  · rintro (s | ⟨hspells, type, tokens, pattern⟩)
    · exact ⟨.text s, rfl⟩
    · rw [ofJson?_spells hspells]
      exact (ofJson?_object_isSome_iff_legible (hspells.distinct hdistinct)).2
        ⟨type, tokens, pattern⟩

end ElementStyle

/-! ### Elements that can be read -/

namespace Element

variable {P : Element → Prop} {j : Json} {members : Members Json}

theorem ofBranch_yields_iff_legible (hdistinct : j.Distinct) :
    (∃ es, ofBranch j = .ok es ∧ ∀ e ∈ es, P e) ↔ LegibleBranch (Yields P) j := by
  have hsingle : ∀ body, ofBranch (.array [body]) = ofBody body := by
    intro body
    rw [ofBranch]
    cases ofBody body <;> rfl
  constructor
  · rintro ⟨es, hes, hP⟩
    obtain ⟨members, hspells⟩ := exists_spells_of_ofBranch hes
    cases hspells with
    | object members =>
      obtain ⟨hvalue⟩ := (ofBranch_yields_iff (Json.object_ne_array _) hdistinct).1 ⟨es, hes, hP⟩
      exact .object hvalue
    | array h =>
      obtain ⟨body, rfl⟩ := List.length_eq_one_iff.1 (List.mem_singleton.1 h)
      rw [hsingle] at hes
      exact .array (ofBody_yields_iff.1 ⟨es, hes, hP⟩)
  · intro h
    cases h with
    | object hvalue =>
      exact (ofBranch_yields_iff (Json.object_ne_array _) hdistinct).2 (.object hvalue)
    | array hvalue =>
      rw [hsingle]
      exact ofBody_yields_iff.2 hvalue

theorem legibleField_iff {p : Json → Prop} {f : Field} :
    LegibleField p f j ↔ FieldIs LegibleStyle (ObjectOf (LegibleBranch p)) (ArrayOf p) f j := by
  constructor
  · intro h
    cases h with
    | type h | value h | style h | options h | offset h | pluralType h | children h => exact h
  · intro h
    cases f with
    | type => exact .type h
    | value => exact .value h
    | style => exact .style h
    | options => exact .options h
    | offset => exact .offset h
    | pluralType => exact .pluralType h
    | children => exact .children h

/-- A field is read exactly if it is legible, with readable elements inside. -/
theorem readContent_isOk_iff_legible {f : Field} (hdistinct : j.Distinct) :
    (∃ c, readContent f j = .ok c) ↔ LegibleField Readable f j := by
  rw [legibleField_iff]
  refine readContent_isOk_iff_fieldIs (fun _ => ?_) (fun _ => ?_)
  · simp only [styleOf_eq_ok]
    exact ElementStyle.ofJson?_isSome_iff_legible hdistinct
  · have hbranches : (∃ bs, branchesOf j = .ok bs ∧ ∀ b ∈ bs, ∀ e ∈ b.2, True) ↔
        ObjectOf (LegibleBranch Readable) j := by
      refine branchesOf_yields_iff hdistinct ?_
      rintro branches rfl m hm
      exact ofBranch_yields_iff_legible (hdistinct.member hm)
    simpa using hbranches

theorem readable_spells_iff (hspells : Spells .element j members) (hdistinct : j.Distinct) :
    Readable j ↔ "type" ∈ Keyed.keys members ∧
      ∀ (f : Field) (x : Json), (f.name, x) ∈ members → LegibleField Readable f x := by
  rw [readable_iff, ofJson_spells hspells, ofJson_object_isOk_iff (hspells.nodup hdistinct)]
  refine and_congr_right fun _ => forall₃_congr fun f x hx => ?_
  exact readContent_isOk_iff_legible (hspells.distinct_member hdistinct hx)

/-- The elements that can be read are the legible ones. -/
theorem readable_iff_legible (j : Json) (hdistinct : j.Distinct) : Readable j ↔ Legible j := by
  have hinner : ∀ item, sizeOf item < sizeOf j → item.Distinct → (Readable item ↔ Legible item) :=
    fun item _ hitem => readable_iff_legible item hitem
  constructor
  · intro h
    obtain ⟨e, he⟩ := readable_iff.1 h
    obtain ⟨members, hspells⟩ := exists_spells_of_ofJson he
    obtain ⟨htype, hfields⟩ := (readable_spells_iff hspells hdistinct).1 h
    refine .record hspells htype fun f x hx => ?_
    have hlt := hspells.sizeOf_lt hx
    exact (hfields f x hx).mono_inside (hspells.distinct_member hdistinct hx)
      fun item hitem hd => (hinner item (Nat.lt_trans hitem hlt) hd).1
  · rintro ⟨hspells, htype, hfields⟩
    refine (readable_spells_iff hspells hdistinct).2 ⟨htype, fun f x hx => ?_⟩
    have hlt := hspells.sizeOf_lt hx
    exact (hfields f x hx).mono_inside (hspells.distinct_member hdistinct hx)
      fun item hitem hd => (hinner item (Nat.lt_trans hitem hlt) hd).2
termination_by sizeOf j

end Element

end MessageFormat
