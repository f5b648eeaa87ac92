import MessageFormat.Proofs.Element.Members
import MessageFormat.Proofs.Element.Schema

/-!
# Fields of an element that has been read

Reading a member sets one field of the element and looks at no other. So an element that has been
read is one that any of its members, read again, leaves as it is, and it has nothing in the fields
that have no member.
-/

namespace MessageFormat

/-! ### Single values -/

theorem Json.asText_eq_ok {j : Json} {s : String} : j.asText = .ok s ↔ j = .string s := by
  cases j with
  | string t => simp [Json.asText]
  | _ => constructor <;> intro h <;> cases h

theorem Json.asNat_eq_ok {wanted : Json.Wanted} {bound n : Nat} {j : Json} :
    j.asNat wanted bound = .ok n ↔ n < bound ∧ ∃ hword, j = .number (.int n hword) := by
  constructor
  · intro h
    unfold Json.asNat at h
    split at h
    · next i hword =>
      split at h
      · next hi =>
        cases h
        have hn : (i.toNat : Int) = i := Int.toNat_of_nonneg hi.1
        refine ⟨by omega, hn.symm ▸ hword, ?_⟩
        simp only [hn]
      · cases h
    · cases h
  · rintro ⟨hn, hword, rfl⟩
    exact Json.asNat_int hn wanted hword

theorem Json.asByte_eq_ok {j : Json} {n : UInt8} : j.asByte = .ok n ↔ j = .number (.ofUInt8 n) := by
  constructor
  · intro h
    obtain ⟨i, hi, rfl⟩ := map_eq_ok.1 h
    obtain ⟨hlt, hword, rfl⟩ := Json.asNat_eq_ok.1 hi
    have hn : (UInt8.ofNat i).toNat = i := UInt8.toNat_ofNat_of_lt' hlt
    simp only [Json.Number.ofUInt8, hn]
  · rintro rfl
    exact Json.asByte_ofUInt8 n

theorem Json.asWord_eq_ok {j : Json} {n : UInt32} :
    j.asWord = .ok n ↔ j = .number (.ofUInt32 n) := by
  constructor
  · intro h
    obtain ⟨i, hi, rfl⟩ := map_eq_ok.1 h
    obtain ⟨hlt, hword, rfl⟩ := Json.asNat_eq_ok.1 hi
    have hn : (UInt32.ofNat i).toNat = i := UInt32.toNat_ofNat_of_lt' hlt
    simp only [Json.Number.ofUInt32, hn]
  · rintro rfl
    exact Json.asWord_ofUInt32 n

/-- A value that may be missing, where `null` is never a value. -/
theorem Json.asOptional_eq_ok {α : Type} {as : Json → Except Json.DataFault α}
    (hnull : ∀ a, as .null ≠ .ok a) {j : Json} {o : Option α} :
    j.asOptional as = .ok o ↔ j = .null ∧ o = none ∨ ∃ a, as j = .ok a ∧ o = some a := by
  cases j with
  | null =>
    have hnone : ¬ ∃ a, as .null = .ok a ∧ o = some a := fun ⟨a, ha, _⟩ => hnull a ha
    rw [Json.asOptional, or_iff_left hnone]
    constructor
    · intro h
      cases h
      exact ⟨rfl, rfl⟩
    · rintro ⟨-, rfl⟩
      rfl
  | _ =>
    rw [Json.asOptional, map_eq_ok]
    · simp [eq_comm]
    · intro h
      cases h

namespace Element

open Json (DataFault)

/-! ### Reading one field -/

def branchesOf : Json → Except DataFault (Members (List Element))
  | .object members => ofBranches [] members
  | j => .error (j.mismatch .object)

theorem withField_options (e : Element) (j : Json) :
    withField .options e j =
      (j.asOptional branchesOf).map fun options => { e with options := options } := by
  cases j with
  | object members =>
    rw [withField, Json.asOptional, branchesOf]
    · cases ofBranches [] members <;> rfl
    · intro h
      cases h
  | _ => rfl

theorem withField_children (e : Element) (j : Json) :
    withField .children e j =
      (j.asOptional ofBody).map fun children => { e with children := children } := by
  cases j with
  | array items =>
    rw [withField, Json.asOptional, ofBody]
    · cases ofList items <;> rfl
    · intro h
      cases h
  | _ => rfl

/-- What a field of an element holds. -/
def Field.Content : Field → Type
  | .type => UInt8
  | .value => Option String
  | .style => Option ElementStyle
  | .options => Option (Members (List Element))
  | .offset => Option UInt32
  | .pluralType => Option String
  | .children => Option (List Element)

def content (e : Element) : (f : Field) → f.Content
  | .type => e.type
  | .value => e.value
  | .style => e.style
  | .options => e.options
  | .offset => e.offset
  | .pluralType => e.pluralType
  | .children => e.children

def put (e : Element) : (f : Field) → f.Content → Element
  | .type, c => { e with type := c }
  | .value, c => { e with value := c }
  | .style, c => { e with style := c }
  | .options, c => { e with options := c }
  | .offset, c => { e with offset := c }
  | .pluralType, c => { e with pluralType := c }
  | .children, c => { e with children := c }

def readContent : (f : Field) → Json → Except DataFault f.Content
  | .type => Json.asByte
  | .value => Json.asOptional Json.asText
  | .style => Json.asOptional styleOf
  | .options => Json.asOptional branchesOf
  | .offset => Json.asOptional Json.asWord
  | .pluralType => Json.asOptional Json.asText
  | .children => Json.asOptional ofBody

theorem content_put (e : Element) (f : Field) (c : f.Content) : (e.put f c).content f = c := by
  cases f <;> rfl

theorem content_put_of_ne (e : Element) {f g : Field} (h : g ≠ f) (c : f.Content) :
    (e.put f c).content g = e.content g := by
  cases f <;> cases g <;> first | rfl | exact absurd rfl h

theorem put_comm (e : Element) {f g : Field} (h : f ≠ g) (c : f.Content) (d : g.Content) :
    (e.put f c).put g d = (e.put g d).put f c := by
  cases f <;> cases g <;> first | rfl | exact absurd rfl h

theorem withField_eq (f : Field) (e : Element) (j : Json) :
    withField f e j = (readContent f j).map (e.put f) := by
  cases f with
  | options => exact withField_options e j
  | children => exact withField_children e j
  | _ =>
    rw [withField]
    exact bind_pure_comp _ _

/-! ### Reading all fields -/

variable {members : Members Json} {t : Element}

section

variable {seen : List Field} {e : Element} {key : String} {f : Field}

theorem ofMembers_cons_unknown (h : Field.ofName? key = none) (j : Json) :
    ofMembers seen e ((key, j) :: members) = ofMembers seen e members := by
  rw [ofMembers, h]

theorem ofMembers_cons_seen (h : f ∈ seen) (j : Json) :
    ofMembers seen e ((f.name, j) :: members) = .error (.duplicateField f.name) := by
  rw [ofMembers, Field.ofName?_name]
  exact if_pos h

theorem ofMembers_cons_known (h : f ∉ seen) (j : Json) :
    ofMembers seen e ((f.name, j) :: members) =
      readContent f j >>= fun c => ofMembers (f :: seen) (e.put f c) members := by
  rw [ofMembers, Field.ofName?_name]
  dsimp only
  rw [if_neg h, withField_eq]
  cases readContent f j <;> rfl

end

/-- What an element has in its fields after the members have been read into `e`. -/
structure HasFields (members : Members Json) (e t : Element) : Prop where
  present : ∀ (f : Field) (j : Json), (f.name, j) ∈ members → readContent f j = .ok (t.content f)
  absent : ∀ f : Field, f.name ∉ Keyed.keys members → t.content f = e.content f

theorem ofMembers_ok {seen : List Field} {e : Element} (h : ofMembers seen e members = .ok t) :
    (∀ f ∈ seen, f.name ∉ Keyed.keys members) ∧
      (.type ∈ seen ∨ Field.type.name ∈ Keyed.keys members) ∧ HasFields members e t := by
  induction members generalizing seen e with
  | nil =>
    rw [ofMembers] at h
    split at h
    · next htype =>
      cases h
      exact ⟨by simp [Keyed.keys], .inl htype, by simp, fun _ _ => rfl⟩
    · cases h
  | cons m members ih =>
    obtain ⟨key, value⟩ := m
    cases hname : Field.ofName? key with
    | none =>
      rw [ofMembers_cons_unknown hname] at h
      obtain ⟨hseen, htype, hfields⟩ := ih h
      have hkey : ∀ f : Field, f.name ≠ key := by
        rintro f rfl
        rw [Field.ofName?_name] at hname
        cases hname
      refine ⟨fun f hf => ?_, htype.imp_right (List.mem_cons_of_mem _), ⟨?_, ?_⟩⟩
      · exact List.not_mem_cons_of_ne_of_not_mem (hkey f) (hseen f hf)
      · intro f j hj
        rcases List.mem_cons.1 hj with heq | hj
        · cases heq
          exact absurd rfl (hkey f)
        · exact hfields.present f j hj
      · intro f hf
        exact hfields.absent f (List.not_mem_of_not_mem_cons hf)
    | some f =>
      obtain rfl := Field.name_of_ofName? hname
      by_cases hnew : f ∈ seen
      · rw [ofMembers_cons_seen hnew] at h
        cases h
      · rw [ofMembers_cons_known hnew] at h
        obtain ⟨c, hc, h⟩ := bind_eq_ok.1 h
        obtain ⟨hseen, htype, hfields⟩ := ih h
        have hrest : f.name ∉ Keyed.keys members := hseen f List.mem_cons_self
        refine ⟨fun g hg => ?_, ?_, ⟨?_, ?_⟩⟩
        · have hne : g.name ≠ f.name := by
            intro heq
            exact hnew (Field.name_injective heq ▸ hg)
          exact List.not_mem_cons_of_ne_of_not_mem hne (hseen g (List.mem_cons_of_mem _ hg))
        · rcases htype with htype | htype
          · rcases List.mem_cons.1 htype with rfl | htype
            · exact .inr List.mem_cons_self
            · exact .inl htype
          · exact .inr (List.mem_cons_of_mem _ htype)
        · intro g j hj
          rcases List.mem_cons.1 hj with heq | hj
          · obtain ⟨hgf, rfl⟩ := Prod.mk.inj heq
            obtain rfl := Field.name_injective hgf
            rw [hc, hfields.absent g hrest, content_put]
          · exact hfields.present g j hj
        · intro g hg
          obtain ⟨hne, hg⟩ := List.ne_and_not_mem_of_not_mem_cons hg
          have hgf : g ≠ f := fun heq => hne (congrArg Field.name heq)
          rw [hfields.absent g hg, content_put_of_ne e hgf]

theorem ofMembers_isOk {seen : List Field} {e : Element} (hnodup : (Keyed.keys members).Nodup)
    (hseen : ∀ f ∈ seen, f.name ∉ Keyed.keys members)
    (htype : .type ∈ seen ∨ Field.type.name ∈ Keyed.keys members)
    (hread : ∀ (f : Field) (j : Json), (f.name, j) ∈ members → ∃ c, readContent f j = .ok c) :
    ∃ t, ofMembers seen e members = .ok t := by
  induction members generalizing seen e with
  | nil =>
    have htype' : .type ∈ seen := by simpa [Keyed.keys] using htype
    exact ⟨e, by rw [ofMembers, if_pos htype']⟩
  | cons m members ih =>
    obtain ⟨key, value⟩ := m
    obtain ⟨hkey, hmembers⟩ := List.nodup_cons.1 hnodup
    have hrest : ∀ (f : Field) (j : Json), (f.name, j) ∈ members → ∃ c, readContent f j = .ok c :=
      fun f j hj => hread f j (List.mem_cons_of_mem _ hj)
    cases hname : Field.ofName? key with
    | none =>
      rw [ofMembers_cons_unknown hname]
      refine ih hmembers (fun f hf => List.not_mem_of_not_mem_cons (hseen f hf)) ?_ hrest
      refine htype.imp_right fun hmem => (List.mem_cons.1 hmem).resolve_left ?_
      rintro rfl
      rw [Field.ofName?_name] at hname
      cases hname
    | some f =>
      obtain rfl := Field.name_of_ofName? hname
      have hnew : f ∉ seen := fun hf => hseen f hf List.mem_cons_self
      obtain ⟨c, hc⟩ := hread f value List.mem_cons_self
      rw [ofMembers_cons_known hnew, hc]
      refine ih hmembers ?_ ?_ hrest
      · intro g hg
        rcases List.mem_cons.1 hg with rfl | hg
        · exact hkey
        · exact List.not_mem_of_not_mem_cons (hseen g hg)
      · rcases htype with htype | htype
        · exact .inl (List.mem_cons_of_mem _ htype)
        · rcases List.mem_cons.1 htype with heq | htype
          · exact .inl (Field.name_injective heq ▸ List.mem_cons_self)
          · exact .inr htype

theorem ofJson_object_ok (h : ofJson (.object members) = .ok t) :
    Field.type.name ∈ Keyed.keys members ∧ HasFields members blank t := by
  rw [ofJson] at h
  obtain ⟨-, htype, hfields⟩ := ofMembers_ok h
  exact ⟨htype.resolve_left (by simp), hfields⟩

/-- An element can be read if it has a type and each of its fields can be read. -/
theorem ofJson_object_isOk_iff (hnodup : (Keyed.keys members).Nodup) :
    (∃ t, ofJson (.object members) = .ok t) ↔ Field.type.name ∈ Keyed.keys members ∧
      ∀ (f : Field) (j : Json), (f.name, j) ∈ members → ∃ c, readContent f j = .ok c := by
  constructor
  · rintro ⟨t, ht⟩
    obtain ⟨htype, hfields⟩ := ofJson_object_ok ht
    exact ⟨htype, fun f j hj => ⟨_, hfields.present f j hj⟩⟩
  · rintro ⟨htype, hread⟩
    rw [ofJson]
    exact ofMembers_isOk hnodup (by simp) (.inr htype) hread

/-! ### What a field holds -/

/-- A field that may be missing holds what a member that is there has been read as. -/
theorem eq_some_iff_has {α : Type} {name : String} {as : Json → Except DataFault α} {o : Option α}
    (hnull : ∀ a, as .null ≠ .ok a) (hpresent : ∀ j, (name, j) ∈ members → j.asOptional as = .ok o)
    (habsent : name ∉ Keyed.keys members → o = none) {a : α} :
    o = some a ↔ Schema.Has name (fun j => as j = .ok a) members := by
  rw [Schema.has_iff]
  constructor
  · rintro rfl
    by_cases hkey : name ∈ Keyed.keys members
    · obtain ⟨⟨key, j⟩, hj, rfl⟩ := List.mem_map.1 hkey
      rcases (Json.asOptional_eq_ok hnull).1 (hpresent j hj) with ⟨-, hnone⟩ | ⟨b, hb, heq⟩
      · cases hnone
      · cases heq
        exact ⟨j, hj, hb⟩
    · cases habsent hkey
  · rintro ⟨j, hj, ha⟩
    rcases (Json.asOptional_eq_ok hnull).1 (hpresent j hj) with ⟨rfl, -⟩ | ⟨b, hb, rfl⟩
    · exact absurd ha (hnull a)
    · rw [ha] at hb
      cases hb
      rfl

namespace HasFields

variable (h : HasFields members blank t)

include h

theorem value_eq_some {s : String} :
    t.value = some s ↔ Schema.Has "value" (fun j => j.asText = .ok s) members :=
  eq_some_iff_has (fun a h => by cases h) (h.present .value) (h.absent .value)

theorem pluralType_eq_some {s : String} :
    t.pluralType = some s ↔ Schema.Has "pluralType" (fun j => j.asText = .ok s) members :=
  eq_some_iff_has (fun a h => by cases h) (h.present .pluralType) (h.absent .pluralType)

theorem style_eq_some {style : ElementStyle} :
    t.style = some style ↔ Schema.Has "style" (fun j => styleOf j = .ok style) members :=
  eq_some_iff_has (fun a h => by cases h) (h.present .style) (h.absent .style)

theorem options_eq_some {branches : Members (List Element)} :
    t.options = some branches ↔
      Schema.Has "options" (fun j => branchesOf j = .ok branches) members :=
  eq_some_iff_has (fun a h => by cases h) (h.present .options) (h.absent .options)

theorem children_eq_some {es : List Element} :
    t.children = some es ↔ Schema.Has "children" (fun j => ofBody j = .ok es) members :=
  eq_some_iff_has (fun a h => by cases h) (h.present .children) (h.absent .children)

theorem type_iff (htype : "type" ∈ Keyed.keys members) {types : List UInt8} :
    t.type ∈ types ↔ Schema.Has "type" (Schema.IsType types) members := by
  have hread : ∀ j, ("type", j) ∈ members → j.asByte = .ok t.type := h.present .type
  rw [Schema.has_iff]
  constructor
  · intro hmem
    obtain ⟨⟨key, j⟩, hj, rfl⟩ := List.mem_map.1 htype
    exact ⟨j, hj, t.type, hmem, Json.asByte_eq_ok.1 (hread j hj)⟩
  · rintro ⟨j, hj, n, hn, rfl⟩
    have heq := hread _ hj
    rw [Json.asByte_ofUInt8] at heq
    cases heq
    exact hn

end HasFields

end Element

end MessageFormat
