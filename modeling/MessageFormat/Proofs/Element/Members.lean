import MessageFormat.Element.OfJson
import MessageFormat.Proofs.Agree

/-!
# The members of a record in any order

The records of a style are read by looking their fields up. An element is read one member at a
time, and when every member is read as the field of the same element, the order of the members has
no part in the result.
-/

namespace MessageFormat

theorem Keyed.nodup_keys_of_perm {κ α : Type} {es ds : Keyed κ α} (h : es.Perm ds)
    (hnodup : (keys ds).Nodup) : (keys es).Nodup :=
  (h.map Prod.fst).nodup_iff.2 hnodup

theorem Keyed.mem_keys_of_perm {κ α : Type} {es ds : Keyed κ α} (h : es.Perm ds) {key : κ} :
    key ∈ keys es ↔ key ∈ keys ds :=
  (h.map Prod.fst).mem_iff

/-! ### Integers -/

theorem Json.asNat_int {n bound : Nat} (h : n < bound) (wanted : Json.Wanted)
    (hword : Json.IsWord n) : (Json.number (.int n hword)).asNat wanted bound = .ok n := by
  have hbound : (0 : Int) ≤ n ∧ (n : Int) < bound := by omega
  rw [Json.asNat, if_pos hbound]
  rfl

theorem Json.asByte_ofUInt8 (n : UInt8) : (Json.number (.ofUInt8 n)).asByte = .ok n := by
  rw [Json.asByte, Json.Number.ofUInt8, Json.asNat_int n.toNat_lt]
  simp [Except.map]

theorem Json.asWord_ofUInt32 (n : UInt32) : (Json.number (.ofUInt32 n)).asWord = .ok n := by
  rw [Json.asWord, Json.Number.ofUInt32, Json.asNat_int n.toNat_lt]
  simp [Except.map]

/-! ### Looking fields up -/

namespace ElementStyle

variable {members : Members Json} {name : String} {j : Json}

theorem unique?_of_not_mem (h : name ∉ Keyed.keys members) : unique? name members = some none := by
  have hfilter : members.filter (fun m => m.1 = name) = [] := by
    rw [List.filter_eq_nil_iff]
    intro m hm heq
    exact h (List.mem_map.2 ⟨m, hm, of_decide_eq_true heq⟩)
  rw [unique?, hfilter]

theorem unique?_of_mem (hnodup : (Keyed.keys members).Nodup) (h : (name, j) ∈ members) :
    unique? name members = some (some j) := by
  have hfilter : members.filter (fun m => m.1 = name) = [(name, j)] := by
    induction members with
    | nil => cases h
    | cons m members ih =>
      simp only [Keyed.keys, List.map_cons, List.nodup_cons] at hnodup
      rcases List.mem_cons.1 h with heq | hmem
      · subst heq
        rw [List.filter_cons_of_pos (by simp), List.cons_inj_right, List.filter_eq_nil_iff]
        intro m hm heq
        exact hnodup.1 (List.mem_map.2 ⟨m, hm, of_decide_eq_true heq⟩)
      · have hne : m.1 ≠ name := by
          rintro rfl
          exact hnodup.1 (List.mem_map.2 ⟨_, hmem, rfl⟩)
        rw [List.filter_cons_of_neg (by simpa using hne), ih hnodup.2 hmem]
  rw [unique?, hfilter]

theorem field?_of_not_mem {α : Type} (missing : Option α) (read : Json → Option α)
    (h : name ∉ Keyed.keys members) : field? name missing read members = missing := by
  rw [field?, unique?_of_not_mem h]
  rfl

theorem field?_of_mem {α : Type} (missing : Option α) (read : Json → Option α)
    (hnodup : (Keyed.keys members).Nodup) (h : (name, j) ∈ members) :
    field? name missing read members = read j := by
  rw [field?, unique?_of_mem hnodup h]
  rfl

end ElementStyle

/-! ### Elements -/

namespace Element

theorem Field.name_injective {f g : Field} (h : f.name = g.name) : f = g := by
  have hf := Field.ofName?_name f
  rw [h, Field.ofName?_name] at hf
  exact (Option.some.inj hf).symm

/-- The element `e` with one field taken from `t`. -/
def copyField (f : Field) (t e : Element) : Element :=
  match f with
  | .type => { e with type := t.type }
  | .value => { e with value := t.value }
  | .style => { e with style := t.style }
  | .options => { e with options := t.options }
  | .offset => { e with offset := t.offset }
  | .pluralType => { e with pluralType := t.pluralType }
  | .children => { e with children := t.children }

theorem copyField_copyField (f : Field) (t e : Element) :
    copyField f t (copyField f t e) = copyField f t e := by
  cases f <;> rfl

theorem copyField_comm (f g : Field) (t e : Element) :
    copyField f t (copyField g t e) = copyField g t (copyField f t e) := by
  cases f <;> cases g <;> rfl

/-- An element that has every field from `t` already is `t`. -/
theorem eq_of_copyField {t e : Element} (h : ∀ f, copyField f t e = e) : e = t := by
  obtain ⟨_, _, _, _, _, _, _⟩ := e
  obtain ⟨_, _, _, _, _, _, _⟩ := t
  have htype := congrArg type (h .type)
  have hvalue := congrArg value (h .value)
  have hstyle := congrArg style (h .style)
  have hoptions := congrArg options (h .options)
  have hoffset := congrArg offset (h .offset)
  have hpluralType := congrArg pluralType (h .pluralType)
  have hchildren := congrArg children (h .children)
  simp only [copyField] at htype hvalue hstyle hoptions hoffset hpluralType hchildren
  simp only [htype, hvalue, hstyle, hoptions, hoffset, hpluralType, hchildren]

/-- A member that is read as a field of `t`, whatever has been read before. -/
def Fits (t : Element) (m : String × Json) : Prop :=
  ∃ f : Field, m.1 = f.name ∧ ∀ e, withField f e m.2 = .ok (copyField f t e)

theorem ofMembers_of_fits {t e : Element} {members : Members Json} {seen : List Field}
    (hfits : ∀ m ∈ members, Fits t m) (hnodup : (Keyed.keys members).Nodup)
    (hseen : ∀ f ∈ seen, f.name ∉ Keyed.keys members)
    (hrest : ∀ f : Field, f.name ∉ Keyed.keys members → copyField f t e = e)
    (htype : .type ∈ seen ∨ Field.type.name ∈ Keyed.keys members) :
    ofMembers seen e members = .ok t := by
  induction members generalizing seen e with
  | nil =>
    have htype' : .type ∈ seen := by simpa [Keyed.keys] using htype
    rw [ofMembers, if_pos htype', eq_of_copyField fun f => hrest f (by simp [Keyed.keys])]
  | cons m members ih =>
    obtain ⟨key, value⟩ := m
    obtain ⟨f, hf, hread⟩ := hfits _ List.mem_cons_self
    dsimp only at hf hread
    subst hf
    simp only [Keyed.keys, List.map_cons, List.nodup_cons] at hnodup
    have hnew : f ∉ seen := fun hmem => hseen f hmem List.mem_cons_self
    rw [ofMembers, Field.ofName?_name]
    dsimp only
    rw [if_neg hnew, hread, ok_bind]
    refine ih (fun m hm => hfits m (List.mem_cons_of_mem _ hm)) hnodup.2 ?_ ?_ ?_
    · intro g hg hmem
      rcases List.mem_cons.1 hg with rfl | hg
      · exact hnodup.1 hmem
      · exact hseen g hg (List.mem_cons_of_mem _ hmem)
    · intro g hg
      by_cases hgf : g = f
      · rw [hgf, copyField_copyField]
      · have hname : g.name ∉ Keyed.keys ((f.name, value) :: members) := by
          intro hmem
          rcases List.mem_cons.1 hmem with heq | hmem
          · exact hgf (Field.name_injective heq)
          · exact hg hmem
        rw [copyField_comm, hrest g hname]
    · rcases htype with htype | htype
      · exact .inl (List.mem_cons_of_mem _ htype)
      · rcases List.mem_cons.1 htype with heq | hmem
        · have hf : Field.type = f := Field.name_injective heq
          rw [hf]
          exact .inl List.mem_cons_self
        · exact .inr hmem

theorem ofJson_of_fits {t : Element} {members arranged : Members Json}
    (hperm : arranged.Perm members) (hfits : ∀ m ∈ members, Fits t m)
    (hnodup : (Keyed.keys members).Nodup)
    (hrest : ∀ f : Field, f.name ∉ Keyed.keys members → copyField f t blank = blank)
    (htype : Field.type.name ∈ Keyed.keys members) : ofJson (.object arranged) = .ok t := by
  have hkeys : ∀ key, key ∈ Keyed.keys arranged ↔ key ∈ Keyed.keys members :=
    fun key => Keyed.mem_keys_of_perm hperm
  rw [ofJson]
  refine ofMembers_of_fits (fun m hm => hfits m (hperm.mem_iff.1 hm))
    (Keyed.nodup_keys_of_perm hperm hnodup) (by simp) ?_ (.inr ((hkeys _).2 htype))
  intro f hf
  exact hrest f fun hmem => hf ((hkeys _).2 hmem)

/-! ### Members that are read as their field -/

section

variable {t : Element}

theorem fits_type {n : UInt8} (h : t.type = n) : Fits t ("type", .number (.ofUInt8 n)) := by
  refine ⟨.type, rfl, fun e => ?_⟩
  rw [withField, Json.asByte_ofUInt8, ← h]
  rfl

theorem fits_value {s : String} (h : t.value = some s) : Fits t ("value", .string s) :=
  ⟨.value, rfl, fun e => by rw [copyField, h]; rfl⟩

theorem fits_style {j : Json} {style : ElementStyle} (hread : ElementStyle.ofJson? j = some style)
    (h : t.style = some style) : Fits t ("style", j) := by
  have hstyle : j.asOptional styleOf = .ok (some style) := by
    cases j with
    | null => cases hread
    | _ =>
      simp only [Json.asOptional, styleOf, hread]
      rfl
  refine ⟨.style, rfl, fun e => ?_⟩
  rw [withField, hstyle, copyField, h]
  rfl

theorem fits_offset {n : UInt32} (h : t.offset = some n) :
    Fits t ("offset", .number (.ofUInt32 n)) := by
  refine ⟨.offset, rfl, fun e => ?_⟩
  have hoffset : (Json.number (.ofUInt32 n)).asOptional Json.asWord = .ok (some n) := by
    rw [Json.asOptional, Json.asWord_ofUInt32]
    · rfl
    · simp
  rw [withField, hoffset, copyField, h]
  rfl

theorem fits_pluralType {s : String} (h : t.pluralType = some s) :
    Fits t ("pluralType", .string s) :=
  ⟨.pluralType, rfl, fun e => by rw [copyField, h]; rfl⟩

theorem fits_options {members : Members Json} {branches : Members (List Element)}
    (hread : ofBranches [] members = .ok branches) (h : t.options = some branches) :
    Fits t ("options", .object members) := by
  refine ⟨.options, rfl, fun e => ?_⟩
  rw [withField, hread, copyField, h]
  rfl

theorem fits_children {items : List Json} {children : List Element}
    (hread : ofList items = .ok children) (h : t.children = some children) :
    Fits t ("children", .array items) := by
  refine ⟨.children, rfl, fun e => ?_⟩
  rw [withField, hread, copyField, h]
  rfl

/-- Fields other than type and value are among the given names or missing. -/
theorem named_or_missing {names : List String} (hstyle : "style" ∈ names ∨ t.style = none)
    (hoptions : "options" ∈ names ∨ t.options = none)
    (hoffset : "offset" ∈ names ∨ t.offset = none)
    (hpluralType : "pluralType" ∈ names ∨ t.pluralType = none)
    (hchildren : "children" ∈ names ∨ t.children = none) (f : Field) :
    f.name ∈ "type" :: "value" :: names ∨ copyField f t blank = blank := by
  have hnames : ∀ name ∈ names, name ∈ "type" :: "value" :: names :=
    fun name h => List.mem_cons_of_mem _ (List.mem_cons_of_mem _ h)
  cases f with
  | type => exact .inl List.mem_cons_self
  | value => exact .inl (List.mem_cons_of_mem _ List.mem_cons_self)
  | style => exact hstyle.imp (hnames _) fun h => by rw [copyField, h]; rfl
  | options => exact hoptions.imp (hnames _) fun h => by rw [copyField, h]; rfl
  | offset => exact hoffset.imp (hnames _) fun h => by rw [copyField, h]; rfl
  | pluralType => exact hpluralType.imp (hnames _) fun h => by rw [copyField, h]; rfl
  | children => exact hchildren.imp (hnames _) fun h => by rw [copyField, h]; rfl

end

end Element

end MessageFormat
