import MessageFormat.Proofs.Element.Reading

/-!
# Which values are messages

An array of elements is read as a message exactly if every element of it is valid. An element that
has been read is made a node exactly if it is complete, and the schema follows by going down to the
elements inside it.
-/

namespace MessageFormat.Element

open Schema

variable {P : Element → Prop} {v j : Json} {members : Members Json}

/-! ### Nodes -/

def Convertible (e : Element) : Prop :=
  ∃ node, e.toNode = .ok node

theorem toMessage_isOk_iff {es : List Element} :
    (∃ nodes, toMessage es = .ok nodes) ↔ ∀ e ∈ es, Convertible e := by
  induction es with
  | nil => exact ⟨fun _ => by simp, fun _ => ⟨[], rfl⟩⟩
  | cons e es ih =>
    rw [List.forall_mem_cons, ← ih]
    constructor
    · rintro ⟨nodes, h⟩
      rw [toMessage] at h
      obtain ⟨node, hnode, h⟩ := bind_eq_ok.1 h
      obtain ⟨rest, hrest, -⟩ := bind_eq_ok.1 h
      exact ⟨⟨node, hnode⟩, rest, hrest⟩
    · rintro ⟨⟨node, hnode⟩, rest, hrest⟩
      refine ⟨node :: rest, ?_⟩
      rw [toMessage, hnode, hrest]
      rfl

theorem toBranches_isOk_iff {branches : Members (List Element)} :
    (∃ bs, toBranches branches = .ok bs) ↔ ∀ b ∈ branches, ∀ e ∈ b.2, Convertible e := by
  induction branches with
  | nil => exact ⟨fun _ => by simp, fun _ => ⟨[], rfl⟩⟩
  | cons b branches ih =>
    obtain ⟨key, body⟩ := b
    rw [List.forall_mem_cons, ← ih, ← toMessage_isOk_iff]
    constructor
    · rintro ⟨bs, h⟩
      rw [toBranches] at h
      obtain ⟨nodes, hnodes, h⟩ := bind_eq_ok.1 h
      obtain ⟨rest, hrest, -⟩ := bind_eq_ok.1 h
      exact ⟨⟨nodes, hnodes⟩, rest, hrest⟩
    · rintro ⟨⟨nodes, hnodes⟩, rest, hrest⟩
      refine ⟨(key, nodes) :: rest, ?_⟩
      rw [toBranches, hnodes, hrest]
      rfl

theorem needed_eq_ok {α : Type} {element : String} {field : Field} {o : Option α} {a : α} :
    needed element field o = .ok a ↔ o = some a := by
  cases o <;> simp [needed]

theorem toFormatted_isOk_iff {format : ArgFormat} {value : Option String}
    {style : Option ElementStyle} :
    (∃ node, toFormatted format value style = .ok node) ↔ (∃ s, value = some s) ∧
      ∀ st, style = some st → ∃ a, st.toArgStyle = .ok a := by
  cases value with
  | none =>
    constructor
    · rintro ⟨node, h⟩
      cases h
    · rintro ⟨⟨s, hs⟩, -⟩
      cases hs
  | some name =>
    cases style with
    | none => exact ⟨fun _ => ⟨⟨name, rfl⟩, nofun⟩, fun _ => ⟨_, rfl⟩⟩
    | some st =>
      have hbind : toFormatted format (some name) (some st) =
          st.toArgStyle >>= fun a => pure (.formatted format name (some a)) := rfl
      simp only [hbind, bind_eq_ok]
      constructor
      · rintro ⟨node, a, ha, -⟩
        refine ⟨⟨name, rfl⟩, fun _ hst => ?_⟩
        cases hst
        exact ⟨a, ha⟩
      · rintro ⟨-, h⟩
        obtain ⟨a, ha⟩ := h st rfl
        exact ⟨_, a, ha, rfl⟩

section

variable {e : Element} {name : String}

theorem toNode_select {bs : Members (List Element)} (htype : e.type = 5)
    (hvalue : e.value = some name) (hoptions : e.options = some bs) :
    e.toNode = (toBranches bs).map (.select name) := by
  obtain ⟨type, value, style, options, offset, pluralType, children⟩ := e
  obtain rfl : type = 5 := htype
  obtain rfl : value = some name := hvalue
  obtain rfl : options = some bs := hoptions
  rfl

theorem toNode_plural {bs : Members (List Element)} {text : String} {kind : PluralKind}
    (htype : e.type = 6) (hvalue : e.value = some name) (hpluralType : e.pluralType = some text)
    (hkind : PluralKind.ofText text = .ok kind) (hoptions : e.options = some bs) :
    e.toNode = (toBranches bs).map (.plural name kind e.offset) := by
  obtain ⟨type, value, style, options, offset, pluralType, children⟩ := e
  obtain rfl : type = 6 := htype
  obtain rfl : value = some name := hvalue
  obtain rfl : pluralType = some text := hpluralType
  obtain rfl : options = some bs := hoptions
  have hbind : toNode ⟨6, some name, style, some bs, offset, some text, children⟩ =
      PluralKind.ofText text >>= fun kind =>
        toBranches bs >>= fun bs => pure (.plural name kind offset bs) := rfl
  rw [hbind, hkind]
  rfl

theorem toNode_tag {es : List Element} (htype : e.type = 8) (hvalue : e.value = some name)
    (hchildren : e.children = some es) : e.toNode = (toMessage es).map (.tag name) := by
  obtain ⟨type, value, style, options, offset, pluralType, children⟩ := e
  obtain rfl : type = 8 := htype
  obtain rfl : value = some name := hvalue
  obtain rfl : children = some es := hchildren
  rfl

end

theorem ofText_isOk_iff {s : String} :
    (∃ kind, PluralKind.ofText s = .ok kind) ↔ s = "cardinal" ∨ s = "ordinal" := by
  unfold PluralKind.ofText
  split
  · simp
  · simp
  · next hcardinal hordinal => exact ⟨nofun, fun h => (h.elim hcardinal hordinal).elim⟩

namespace HasFields

section

variable {e : Element} (h : HasFields members blank e)

include h

theorem value_iff : (∃ s, e.value = some s) ↔ Has "value" IsText members := by
  constructor
  · rintro ⟨s, hs⟩
    exact (h.value_eq_some.1 hs).mono fun j _ hj => ⟨s, Json.asText_eq_ok.1 hj⟩
  · intro hvalue
    obtain ⟨j, hj, s, rfl⟩ := has_iff.1 hvalue
    exact ⟨s, h.value_eq_some.2 (has_iff.2 ⟨_, hj, rfl⟩)⟩

theorem pluralType_iff :
    (∃ s, e.pluralType = some s ∧ ∃ kind, PluralKind.ofText s = .ok kind) ↔
      Has "pluralType" IsPluralKind members := by
  simp only [h.pluralType_eq_some, ofText_isOk_iff]
  rw [exists_has_iff]
  refine has_congr fun j _ => ?_
  simp only [Json.asText_eq_ok]
  constructor
  · rintro ⟨s, rfl, rfl | rfl⟩
    · exact .inl rfl
    · exact .inr rfl
  · rintro (rfl | rfl)
    · exact ⟨_, rfl, .inl rfl⟩
    · exact ⟨_, rfl, .inr rfl⟩

theorem children_iff : (∃ es, e.children = some es ∧ ∀ e ∈ es, P e) ↔
    Has "children" (ArrayOf (Yields P)) members := by
  simp only [h.children_eq_some]
  rw [exists_has_iff]
  exact has_congr fun j _ => ofBody_yields_iff

end

section

variable (hv : ObjectRecords v) (hat : At v .element (.object members))
  (hdistinct : (Json.object members).Distinct) {e : Element} (h : HasFields members blank e)

include hv hat hdistinct h

theorem options_iff : (∃ bs, e.options = some bs ∧ ∀ b ∈ bs, ∀ e ∈ b.2, P e) ↔
    Has "options" (ObjectOf (BranchOf (Yields P))) members := by
  simp only [h.options_eq_some]
  rw [exists_has_iff]
  exact has_congr fun j hj => branchesOf_iff hv hat hdistinct hj

theorem style_iff : (∀ st, e.style = some st → ∃ a, st.toArgStyle = .ok a) ↔
    MayHave "style" UsableStyle members := by
  have husable : ∀ {j st}, ("style", j) ∈ members → styleOf j = .ok st →
      ((∃ a, st.toArgStyle = .ok a) ↔ UsableStyle j) := by
    intro j st hj hst
    exact ElementStyle.toArgStyle_isOk_iff (styleOf_eq_ok.1 hst) (hv _ j (.style hat hj))
      (hdistinct.member hj)
  constructor
  · intro hstyle j hj
    rcases (Json.asOptional_eq_ok fun a h => by cases h).1 (h.present .style j hj) with
      ⟨rfl, -⟩ | ⟨st, hst, heq⟩
    · exact fun _ => nofun
    · exact (husable hj hst).1 (hstyle st heq)
  · intro hstyle st hst
    obtain ⟨j, hj, hread⟩ := has_iff.1 (h.style_eq_some.1 hst)
    exact (husable hj hread).2 (hstyle j hj)

theorem complete_of_convertible (htype : "type" ∈ Keyed.keys members)
    (hconvertible : Convertible e) : Complete (Yields Convertible) (.object members) := by
  obtain ⟨node, hnode⟩ := hconvertible
  obtain ⟨type, value, style, options, offset, pluralType, children⟩ := e
  unfold toNode at hnode
  -- the types from 0 to 8 in their order, and at last all others
  split at hnode
  case h_1 | h_2 =>
    obtain ⟨s, hs, -⟩ := bind_eq_ok.1 hnode
    exact .text ((h.type_iff htype).1 (by simp)) (h.value_iff.1 ⟨s, needed_eq_ok.1 hs⟩)
  case h_3 | h_4 | h_5 =>
    obtain ⟨hvalue, hstyle⟩ := toFormatted_isOk_iff.1 ⟨node, hnode⟩
    exact .formatted ((h.type_iff htype).1 (by simp)) (h.value_iff.1 hvalue)
      ((h.style_iff hv hat hdistinct).1 hstyle)
  case h_6 =>
    obtain ⟨s, hs, hnode⟩ := bind_eq_ok.1 hnode
    cases options with
    | none => cases hnode
    | some branches =>
      obtain ⟨bs, hbs, -⟩ := bind_eq_ok.1 hnode
      refine .select ((h.type_iff htype).1 (by simp)) (h.value_iff.1 ⟨s, needed_eq_ok.1 hs⟩) ?_
      exact (h.options_iff hv hat hdistinct).1
        ⟨branches, rfl, toBranches_isOk_iff.1 ⟨bs, hbs⟩⟩
  case h_7 =>
    obtain ⟨s, hs, hnode⟩ := bind_eq_ok.1 hnode
    obtain ⟨text, htext, hnode⟩ := bind_eq_ok.1 hnode
    obtain ⟨kind, hkind, hnode⟩ := bind_eq_ok.1 hnode
    cases options with
    | none => cases hnode
    | some branches =>
      obtain ⟨bs, hbs, -⟩ := bind_eq_ok.1 hnode
      refine .plural ((h.type_iff htype).1 (by simp)) (h.value_iff.1 ⟨s, needed_eq_ok.1 hs⟩)
        (h.pluralType_iff.1 ⟨text, needed_eq_ok.1 htext, kind, hkind⟩) ?_
      exact (h.options_iff hv hat hdistinct).1
        ⟨branches, rfl, toBranches_isOk_iff.1 ⟨bs, hbs⟩⟩
  case h_8 => exact .pound ((h.type_iff htype).1 (by simp))
  case h_9 =>
    obtain ⟨s, hs, hnode⟩ := bind_eq_ok.1 hnode
    cases children with
    | none => cases hnode
    | some es =>
      obtain ⟨nodes, hnodes, -⟩ := bind_eq_ok.1 hnode
      refine .tag ((h.type_iff htype).1 (by simp)) (h.value_iff.1 ⟨s, needed_eq_ok.1 hs⟩) ?_
      exact h.children_iff.1 ⟨es, rfl, toMessage_isOk_iff.1 ⟨nodes, hnodes⟩⟩
  case h_10 => cases hnode

theorem convertible_of_complete (htype : "type" ∈ Keyed.keys members)
    (hcomplete : Complete (Yields Convertible) (.object members)) : Convertible e := by
  have hmem : ∀ {types}, Has "type" (IsType types) members → e.type ∈ types :=
    fun htypes => (h.type_iff htype).2 htypes
  have hvalue : Has "value" IsText members → ∃ s, e.value = some s := h.value_iff.2
  have hkind := h.pluralType_iff.2
  have hoptions := (h.options_iff hv hat hdistinct (P := Convertible)).2
  have hstyle := (h.style_iff hv hat hdistinct).2
  have hchildren := (h.children_iff (P := Convertible)).2
  obtain ⟨type, value, style, options, offset, pluralType, children⟩ := e
  dsimp only at hmem hvalue hkind hoptions hstyle hchildren
  cases hcomplete with
  | text htypes hname =>
    obtain ⟨s, rfl⟩ := hvalue hname
    have htypes := hmem htypes
    simp only [List.mem_cons, List.not_mem_nil, or_false] at htypes
    rcases htypes with rfl | rfl
    · exact ⟨_, rfl⟩
    · exact ⟨_, rfl⟩
  | formatted htypes hname hstyles =>
    have hformatted : ∀ format, ∃ node, toFormatted format value style = .ok node :=
      fun format => toFormatted_isOk_iff.2 ⟨hvalue hname, hstyle hstyles⟩
    have htypes := hmem htypes
    simp only [List.mem_cons, List.not_mem_nil, or_false] at htypes
    rcases htypes with rfl | rfl | rfl
    · exact hformatted .number
    · exact hformatted .date
    · exact hformatted .time
  | select htypes hname hbranches =>
    obtain rfl := List.mem_singleton.1 (hmem htypes)
    obtain ⟨s, rfl⟩ := hvalue hname
    obtain ⟨branches, rfl, hall⟩ := hoptions hbranches
    obtain ⟨bs, hbs⟩ := toBranches_isOk_iff.2 hall
    exact ⟨.select s bs, (toNode_select rfl rfl rfl).trans (by rw [hbs]; rfl)⟩
  | plural htypes hname hkinds hbranches =>
    obtain rfl := List.mem_singleton.1 (hmem htypes)
    obtain ⟨s, rfl⟩ := hvalue hname
    obtain ⟨text, rfl, kind, htext⟩ := hkind hkinds
    obtain ⟨branches, rfl, hall⟩ := hoptions hbranches
    obtain ⟨bs, hbs⟩ := toBranches_isOk_iff.2 hall
    exact ⟨.plural s kind offset bs, (toNode_plural rfl rfl rfl htext rfl).trans (by rw [hbs]; rfl)⟩
  | pound htypes =>
    obtain rfl := List.mem_singleton.1 (hmem htypes)
    exact ⟨.pound, rfl⟩
  | tag htypes hname hitems =>
    obtain rfl := List.mem_singleton.1 (hmem htypes)
    obtain ⟨s, rfl⟩ := hvalue hname
    obtain ⟨es, rfl, hall⟩ := hchildren hitems
    obtain ⟨nodes, hnodes⟩ := toMessage_isOk_iff.2 hall
    exact ⟨.tag s nodes, (toNode_tag rfl rfl rfl).trans (by rw [hnodes]; rfl)⟩

end

end HasFields

theorem yields_object_iff (hv : ObjectRecords v) (hat : At v .element (.object members))
    (hdistinct : (Json.object members).Distinct) : Yields Convertible (.object members) ↔
      Readable (.object members) ∧ Complete (Yields Convertible) (.object members) := by
  rw [readable_iff]
  constructor
  · rintro ⟨e, he, hconvertible⟩
    obtain ⟨htype, hfields⟩ := ofJson_object_ok he
    exact ⟨⟨e, he⟩, hfields.complete_of_convertible hv hat hdistinct htype hconvertible⟩
  · rintro ⟨⟨e, he⟩, hcomplete⟩
    obtain ⟨htype, hfields⟩ := ofJson_object_ok he
    exact ⟨e, he, hfields.convertible_of_complete hv hat hdistinct htype hcomplete⟩

/-- The elements that nodes can be made of are those that are valid. -/
theorem yields_iff_valid (hv : ObjectRecords v) (hat : At v .element j) (hdistinct : j.Distinct) :
    Yields Convertible j ↔ Valid j := by
  induction j using Inner.induction with
  | step j ih =>
  cases j with
  | array items => exact absurd rfl (hv _ _ hat items)
  | object members =>
    have hinner : ∀ item, Inner members item → (Yields Convertible item ↔ Valid item) :=
      fun item h => ih members rfl item h (h.at_element hat) (distinct_of_inner h hdistinct)
    rw [yields_object_iff hv hat hdistinct, readable_iff_wellShaped hv hat hdistinct]
    constructor
    · rintro ⟨hwell, hcomplete⟩
      exact .element hwell (hcomplete.of_inner fun item h => (hinner item h).1)
    · rintro ⟨hwell, hcomplete⟩
      exact ⟨hwell, hcomplete.of_inner fun item h => (hinner item h).2⟩
  | _ =>
    constructor
    · rintro ⟨e, he, -⟩
      cases he
    · rintro ⟨hwell, -⟩
      cases hwell

end MessageFormat.Element

namespace MessageFormat

open Schema

/-- A value is read as a message exactly if it is an array of valid elements. The names of an object
in a value are distinct, and the records of the value must be written as objects. -/
theorem Message.ofJson_isOk_iff {v : Json} (hdistinct : v.Distinct) (hrecords : ObjectRecords v) :
    (∃ m, Message.ofJson v = .ok m) ↔ ArrayOf Valid v := by
  have hread : (∃ m, Message.ofJson v = .ok m) ↔
      ∃ es, Element.ofBody v = .ok es ∧ ∀ e ∈ es, Element.Convertible e := by
    simp only [Message.ofJson, bind_eq_ok, mapError_eq_ok, ← Element.toMessage_isOk_iff]
    constructor
    · rintro ⟨m, es, hes, hm⟩
      exact ⟨es, hes, m, hm⟩
    · rintro ⟨es, hes, m, hm⟩
      exact ⟨m, es, hes, hm⟩
  rw [hread, Element.ofBody_yields_iff]
  constructor
  · rintro ⟨h⟩
    refine .array fun item hitem => ?_
    exact (Element.yields_iff_valid hrecords (.item rfl hitem) (hdistinct.item hitem)).1
      (h item hitem)
  · rintro ⟨h⟩
    refine .array fun item hitem => ?_
    exact (Element.yields_iff_valid hrecords (.item rfl hitem) (hdistinct.item hitem)).2
      (h item hitem)

namespace Schema.Sample

def token : Json :=
  .object [("stem", .string "currency"), ("options", .array [.string "EUR"])]

def skeleton : Json :=
  .object [("type", .number (.ofUInt8 0)), ("tokens", .array [token]), ("parsed", .object [])]

def price : Json :=
  .object [("value", .string "price"), ("type", .number (.ofUInt8 2)), ("style", skeleton)]

def bold : Json :=
  .object [("type", .number (.ofUInt8 8)), ("value", .string "b"), ("children", .array [price]),
    ("style", .null)]

def pound : Json :=
  .object [("type", .number (.ofUInt8 7)), ("offset", .number (.ofUInt32 3))]

def wrapper : Json :=
  .object [("value", .array [pound, bold])]

def plural : Json :=
  .object [("type", .number (.ofUInt8 6)), ("value", .string "count"),
    ("pluralType", .string "ordinal"), ("options", .object [("other", wrapper)])]

/-- What stands at the positions of the array of the one element `plural`. -/
def Stands : Position → Json → Prop
  | .element, j => j = plural ∨ j = pound ∨ j = bold ∨ j = price
  | .wrapper, j => j = wrapper
  | .skeleton, j => j = skeleton ∨ j = .null
  | .token, j => j = token

theorem stands_of_at {position : Position} {j : Json} (h : At (.array [plural]) position j) :
    Stands position j := by
  induction h with
  | item hv hitem =>
    cases hv
    exact .inl (List.mem_singleton.1 hitem)
  | child h hm hitem ih =>
    rcases ih with heq | heq | heq | heq <;> cases heq <;> simp at hm
    subst hm
    exact .inr (.inr (.inr (List.mem_singleton.1 hitem)))
  | wrapper h hm hb ih =>
    rcases ih with heq | heq | heq | heq <;> cases heq <;> simp at hm
    subst hm
    rw [List.mem_singleton] at hb
    cases hb
    rfl
  | body h hm hitem ih =>
    cases ih
    simp at hm
    subst hm
    rcases List.mem_cons.1 hitem with rfl | hitem
    · exact .inr (.inl rfl)
    · exact .inr (.inr (.inl (List.mem_singleton.1 hitem)))
  | style h hm ih =>
    rcases ih with heq | heq | heq | heq <;> cases heq <;> simp at hm
    · exact .inr hm
    · exact .inl hm
  | token h hm hitem ih =>
    rcases ih with heq | heq <;> cases heq
    simp at hm
    subst hm
    exact List.mem_singleton.1 hitem

theorem objectRecords : ObjectRecords (.array [plural]) := by
  intro position j h items
  have hstands := stands_of_at h
  cases position with
  | element => rcases hstands with rfl | rfl | rfl | rfl <;> exact nofun
  | skeleton => rcases hstands with rfl | rfl <;> exact nofun
  | wrapper | token =>
    cases hstands
    exact nofun

end Schema.Sample

open Schema.Sample in
/-- A plural whose branch holds a tag is valid, and an offset is no fault where it has no use. -/
theorem Message.ofJson_isOk_plural : (Json.array [plural]).Distinct ∧
    ObjectRecords (.array [plural]) ∧ ArrayOf Valid (.array [plural]) := by
  have hdistinct : (Json.array [plural]).Distinct := by
    simp [Json.Distinct, Json.DistinctItems, Json.DistinctMembers, Keyed.keys, plural, wrapper,
      pound, bold, price, skeleton, token]
  have hread : ∃ m, Message.ofJson (.array [plural]) = .ok m := ⟨_, rfl⟩
  exact ⟨hdistinct, objectRecords, (Message.ofJson_isOk_iff hdistinct objectRecords).1 hread⟩

end MessageFormat
