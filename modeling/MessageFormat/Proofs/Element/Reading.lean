import MessageFormat.Proofs.Element.Styles

/-!
# Which values are read as elements

Reading takes a value apart into the elements inside it. What is said of the value is said for an
arbitrary property of those elements, so that it serves twice: for elements that can be read, and
for elements that can also be made nodes. The elements that can be read are the well-shaped ones.
-/

namespace MessageFormat.Element

open Schema
open Json (DataFault)

/-- A value is read as an element that has a property. -/
def Yields (P : Element → Prop) (j : Json) : Prop :=
  ∃ e, ofJson j = .ok e ∧ P e

variable {P : Element → Prop} {v j : Json} {members : Members Json}

/-! ### Lists and branches -/

theorem ofList_yields_iff {items : List Json} :
    (∃ es, ofList items = .ok es ∧ ∀ e ∈ es, P e) ↔ ∀ item ∈ items, Yields P item := by
  induction items with
  | nil => exact ⟨fun _ => by simp, fun _ => ⟨[], rfl, by simp⟩⟩
  | cons item items ih =>
    rw [List.forall_mem_cons, ← ih]
    constructor
    · rintro ⟨es, hes, hP⟩
      rw [ofList] at hes
      obtain ⟨e, he, hes⟩ := bind_eq_ok.1 hes
      obtain ⟨rest, hrest, hcons⟩ := bind_eq_ok.1 hes
      cases hcons
      rw [List.forall_mem_cons] at hP
      exact ⟨⟨e, he, hP.1⟩, rest, hrest, hP.2⟩
    · rintro ⟨⟨e, he, hP⟩, es, hes, hPs⟩
      refine ⟨e :: es, ?_, List.forall_mem_cons.2 ⟨hP, hPs⟩⟩
      rw [ofList, he, hes]
      rfl

theorem ofBody_yields_iff :
    (∃ es, ofBody j = .ok es ∧ ∀ e ∈ es, P e) ↔ ArrayOf (Yields P) j := by
  cases j with
  | array items =>
    rw [ofBody, ofList_yields_iff]
    constructor
    · exact .array
    · rintro ⟨h⟩
      exact h
  | _ =>
    constructor
    · rintro ⟨es, hes, -⟩
      cases hes
    · intro h
      cases h

theorem ofBranchMembers_some {body : List Element} (h : "value" ∉ Keyed.keys members) :
    ofBranchMembers (some body) members = .ok body := by
  induction members with
  | nil => rfl
  | cons m members ih =>
    obtain ⟨key, value⟩ := m
    obtain ⟨hne, hrest⟩ := List.ne_and_not_mem_of_not_mem_cons h
    rw [ofBranchMembers, if_neg (Ne.symm hne), ih hrest]

theorem ofBranchMembers_eq_ok (hnodup : (Keyed.keys members).Nodup) {es : List Element} :
    ofBranchMembers none members = .ok es ↔ Has "value" (fun j => ofBody j = .ok es) members := by
  induction members with
  | nil => exact ⟨nofun, nofun⟩
  | cons m members ih =>
    obtain ⟨key, value⟩ := m
    obtain ⟨hkey, hrest⟩ := List.nodup_cons.1 hnodup
    rw [ofBranchMembers]
    split
    · next heq =>
      subst heq
      rw [bind_eq_ok]
      constructor
      · rintro ⟨body, hbody, h⟩
        rw [ofBranchMembers_some hkey] at h
        cases h
        exact .here hbody
      · intro h
        refine ⟨es, ?_, ofBranchMembers_some hkey⟩
        cases h with
        | here h => exact h
        | there h =>
          obtain ⟨j, hj, -⟩ := has_iff.1 h
          exact absurd (List.mem_map.2 ⟨_, hj, rfl⟩) hkey
    · next hne =>
      rw [ih hrest]
      constructor
      · exact .there
      · intro h
        cases h with
        | here h => exact absurd rfl hne
        | there h => exact h

theorem ofBranch_yields_iff (hrecord : ∀ items, j ≠ .array items) (hdistinct : j.Distinct) :
    (∃ es, ofBranch j = .ok es ∧ ∀ e ∈ es, P e) ↔ BranchOf (Yields P) j := by
  cases j with
  | array items => exact absurd rfl (hrecord items)
  | object members =>
    simp only [ofBranch, ofBranchMembers_eq_ok hdistinct.nodup]
    constructor
    · rintro ⟨es, h, hP⟩
      exact .object (h.mono fun j _ hj => ofBody_yields_iff.1 ⟨es, hj, hP⟩)
    · rintro ⟨h⟩
      obtain ⟨j, hj, hbody⟩ := has_iff.1 h
      obtain ⟨es, hes, hP⟩ := ofBody_yields_iff.2 hbody
      exact ⟨es, has_iff.2 ⟨j, hj, hes⟩, hP⟩
  | _ =>
    constructor
    · rintro ⟨es, hes, -⟩
      cases hes
    · intro h
      cases h

/-- A branch with a new name stands after those that were there before. -/
theorem ofBranches_cons_of_new {branches : Members (List Element)} {key : String} (value : Json)
    (h : key ∉ Keyed.keys branches) : ofBranches branches ((key, value) :: members) =
      ofBranch value >>= fun body => ofBranches (branches ++ [(key, body)]) members := by
  rw [ofBranches]
  simp only [Keyed.set_of_not_mem _ h]

theorem not_mem_keys_append {branches : Members (List Element)} {key : String}
    (hkey : key ∉ Keyed.keys members) (hnew : ∀ m ∈ members, m.1 ∉ Keyed.keys branches)
    (body : List Element) : ∀ m ∈ members, m.1 ∉ Keyed.keys (branches ++ [(key, body)]) := by
  intro m hm hmem
  rw [Keyed.keys, List.map_append, List.mem_append, List.map_singleton,
    List.mem_singleton] at hmem
  rcases hmem with hmem | rfl
  · exact hnew m hm hmem
  · exact hkey (List.mem_map.2 ⟨m, hm, rfl⟩)

theorem ofBranches_yields_iff {branches : Members (List Element)}
    (hnodup : (Keyed.keys members).Nodup) (hnew : ∀ m ∈ members, m.1 ∉ Keyed.keys branches) :
    (∃ bs, ofBranches branches members = .ok bs ∧ ∀ b ∈ bs, ∀ e ∈ b.2, P e) ↔
      (∀ b ∈ branches, ∀ e ∈ b.2, P e) ∧
        ∀ m ∈ members, ∃ es, ofBranch m.2 = .ok es ∧ ∀ e ∈ es, P e := by
  induction members generalizing branches with
  | nil =>
    constructor
    · rintro ⟨bs, hbs, hP⟩
      cases hbs
      exact ⟨hP, by simp⟩
    · rintro ⟨hP, -⟩
      exact ⟨branches, rfl, hP⟩
  | cons m members ih =>
    obtain ⟨key, value⟩ := m
    obtain ⟨hkey, hrest⟩ := List.nodup_cons.1 hnodup
    rw [List.forall_mem_cons] at hnew
    have hnew' := not_mem_keys_append hkey hnew.2
    rw [List.forall_mem_cons, ofBranches_cons_of_new value hnew.1]
    constructor
    · rintro ⟨bs, hbs, hP⟩
      obtain ⟨es, hes, hbs⟩ := bind_eq_ok.1 hbs
      obtain ⟨hbranches, hmembers⟩ := (ih hrest (hnew' es)).1 ⟨bs, hbs, hP⟩
      rw [List.forall_mem_append, List.forall_mem_singleton] at hbranches
      exact ⟨hbranches.1, ⟨es, hes, hbranches.2⟩, hmembers⟩
    · rintro ⟨hbranches, ⟨es, hes, hP⟩, hmembers⟩
      have hadded : ∀ b ∈ branches ++ [(key, es)], ∀ e ∈ b.2, P e := by
        rw [List.forall_mem_append, List.forall_mem_singleton]
        exact ⟨hbranches, hP⟩
      obtain ⟨bs, hbs, hbsP⟩ := (ih hrest (hnew' es)).2 ⟨hadded, hmembers⟩
      exact ⟨bs, bind_eq_ok.2 ⟨es, hes, hbs⟩, hbsP⟩

theorem branchesOf_yields_iff {p : Json → Prop} (hdistinct : j.Distinct)
    (hbranch : ∀ branches, j = .object branches → ∀ m ∈ branches,
      ((∃ es, ofBranch m.2 = .ok es ∧ ∀ e ∈ es, P e) ↔ p m.2)) :
    (∃ bs, branchesOf j = .ok bs ∧ ∀ b ∈ bs, ∀ e ∈ b.2, P e) ↔ ObjectOf p j := by
  cases j with
  | object branches =>
    rw [branchesOf, ofBranches_yields_iff hdistinct.nodup (by simp [Keyed.keys])]
    constructor
    · rintro ⟨-, h⟩
      exact .object fun m hm => (hbranch branches rfl m hm).1 (h m hm)
    · rintro ⟨h⟩
      exact ⟨by simp, fun m hm => (hbranch branches rfl m hm).2 (h m hm)⟩
  | _ =>
    constructor
    · rintro ⟨bs, hbs, -⟩
      cases hbs
    · intro h
      cases h

/-! ### Well-shaped elements -/

def Readable : Json → Prop :=
  Yields fun _ => True

theorem readable_iff : Readable j ↔ ∃ e, ofJson j = .ok e := by
  simp [Readable, Yields]

theorem asOptional_isOk_iff {α : Type} {as : Json → Except DataFault α} {p : Json → Prop}
    (hnull : ∀ a, as .null ≠ .ok a) (h : (∃ a, as j = .ok a) ↔ p j) :
    (∃ o, j.asOptional as = .ok o) ↔ OrNull p j := by
  simp only [Json.asOptional_eq_ok hnull]
  constructor
  · rintro ⟨o, ⟨rfl, -⟩ | ⟨a, ha, -⟩⟩
    · exact .null
    · exact .value (h.1 ⟨a, ha⟩)
  · rintro (_ | hp)
    · exact ⟨none, .inl ⟨rfl, rfl⟩⟩
    · obtain ⟨a, ha⟩ := h.2 hp
      exact ⟨some a, .inr ⟨a, ha, rfl⟩⟩

theorem styleOf_eq_ok {style : ElementStyle} :
    styleOf j = .ok style ↔ ElementStyle.ofJson? j = some style := by
  rw [styleOf]
  cases ElementStyle.ofJson? j with
  | none => constructor <;> intro h <;> cases h
  | some s => simp

/-- A field is read exactly if it is what it must be, given what the records in it must be. -/
theorem readContent_isOk_iff_fieldIs {style options : Json → Prop} {f : Field}
    (hstyle : f = .style → ((∃ s, styleOf j = .ok s) ↔ style j))
    (hoptions : f = .options → ((∃ bs, branchesOf j = .ok bs) ↔ options j)) :
    (∃ c, readContent f j = .ok c) ↔ FieldIs style options (ArrayOf Readable) f j := by
  have htext : (∃ s, j.asText = .ok s) ↔ IsText j := by
    simp only [Json.asText_eq_ok]
    rfl
  cases f with
  | type =>
    have hbyte : (∃ n, j.asByte = .ok n) ↔ IsByte j := by
      simp only [Json.asByte_eq_ok]
      rfl
    exact hbyte
  | value | pluralType => exact asOptional_isOk_iff (fun a h => by cases h) htext
  | offset =>
    refine asOptional_isOk_iff (fun a h => by cases h) ?_
    simp only [Json.asWord_eq_ok]
    rfl
  | style => exact asOptional_isOk_iff (fun a h => by cases h) (hstyle rfl)
  | options => exact asOptional_isOk_iff (fun a h => by cases h) (hoptions rfl)
  | children =>
    refine asOptional_isOk_iff (fun a h => by cases h) ?_
    rw [Readable, ← ofBody_yields_iff]
    simp

section

variable (hv : ObjectRecords v) (hat : At v .element (.object members))
  (hdistinct : (Json.object members).Distinct)

include hv hat hdistinct

theorem styleOf_isOk_iff (hj : ("style", j) ∈ members) :
    (∃ style, styleOf j = .ok style) ↔ StyleShape j := by
  have hskeleton : At v .skeleton j := .style hat hj
  simp only [styleOf_eq_ok]
  refine ElementStyle.ofJson?_isSome_iff (hv _ j hskeleton) (hdistinct.member hj) ?_
  rintro members items item rfl hm hitem
  exact hv _ item (.token hskeleton hm hitem)

theorem branchesOf_iff (hj : ("options", j) ∈ members) :
    (∃ bs, branchesOf j = .ok bs ∧ ∀ b ∈ bs, ∀ e ∈ b.2, P e) ↔
      ObjectOf (BranchOf (Yields P)) j := by
  have hdistinct := hdistinct.member hj
  refine branchesOf_yields_iff hdistinct ?_
  rintro branches rfl m hm
  exact ofBranch_yields_iff (hv _ m.2 (.wrapper hat hj hm)) (hdistinct.member hm)

/-- A member is read exactly if it has the shape of its field, with readable elements inside. -/
theorem readContent_isOk_iff {f : Field} (hj : (f.name, j) ∈ members) :
    (∃ c, readContent f j = .ok c) ↔ FieldShape Readable f j := by
  rw [fieldShape_iff]
  refine readContent_isOk_iff_fieldIs ?_ ?_
  · rintro rfl
    exact styleOf_isOk_iff hv hat hdistinct hj
  · rintro rfl
    rw [Readable, ← branchesOf_iff hv hat hdistinct hj]
    simp

theorem readable_object_iff : Readable (.object members) ↔ "type" ∈ Keyed.keys members ∧
    ∀ (f : Field) (j : Json), (f.name, j) ∈ members → FieldShape Readable f j := by
  rw [readable_iff, ofJson_object_isOk_iff hdistinct.nodup]
  refine and_congr_right fun _ => forall₃_congr fun f j hj => ?_
  exact readContent_isOk_iff hv hat hdistinct hj

end

theorem distinct_of_inner {item : Json} (h : Inner members item)
    (hdistinct : (Json.object members).Distinct) : item.Distinct := by
  cases h with
  | child hm hitem => exact (hdistinct.member hm).item hitem
  | body hm hb hw hitem => exact (((hdistinct.member hm).member hb).member hw).item hitem

/-- The elements that can be read are those that are well-shaped. -/
theorem readable_iff_wellShaped (hv : ObjectRecords v) (hat : At v .element j)
    (hdistinct : j.Distinct) : Readable j ↔ WellShaped j := by
  induction j using Inner.induction with
  | step j ih =>
  cases j with
  | array items => exact absurd rfl (hv _ _ hat items)
  | object members =>
    have hinner : ∀ item, Inner members item → (Readable item ↔ WellShaped item) :=
      fun item h => ih members rfl item h (h.at_element hat) (distinct_of_inner h hdistinct)
    rw [readable_object_iff hv hat hdistinct]
    constructor
    · rintro ⟨htype, hfields⟩
      refine .object htype fun f j hj => ?_
      exact (hfields f j hj).of_inner (fun item h => (hinner item h).1) hj
    · rintro ⟨htype, hfields⟩
      refine ⟨htype, fun f j hj => ?_⟩
      exact (hfields f j hj).of_inner (fun item h => (hinner item h).2) hj
  | _ =>
    rw [readable_iff]
    constructor
    · rintro ⟨e, he⟩
      cases he
    · intro h
      cases h

end MessageFormat.Element
