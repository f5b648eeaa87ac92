import Mathlib.Data.List.Forall2
import Mathlib.Data.List.Nodup
import MessageFormat.Proofs.Element.Acceptance
import MessageFormat.Proofs.Element.Legible

/-!
# Which fault is reported

A value is read whole before anything of it is made a node: if a part of it is not legible, that is
reported, whatever else is wrong. In a legible value the faults are met in document order, those
inside of an element before all that comes after it, and the first one is the error of the whole.
-/

namespace MessageFormat

/-! ### The first failure in a list -/

section

variable {ε α β γ δ : Type}

/-- The first thing in a list on which `f` fails makes it fail with this error. -/
inductive FirstFails (f : α → Except ε β) (error : ε) : List α → Prop
  | here {a : α} {as : List α} (h : f a = .error error) : FirstFails f error (a :: as)
  | later {a : α} {b : β} {as : List α} (ha : f a = .ok b) (h : FirstFails f error as) :
    FirstFails f error (a :: as)

variable {f : α → Except ε β} {g : γ → Except ε δ} {error : ε}

theorem not_firstFails_nil : ¬ FirstFails f error [] :=
  nofun

theorem firstFails_cons {a : α} {as : List α} : FirstFails f error (a :: as) ↔
    f a = .error error ∨ (∃ b, f a = .ok b) ∧ FirstFails f error as := by
  constructor
  · intro h
    cases h with
    | here h => exact .inl h
    | later ha h => exact .inr ⟨⟨_, ha⟩, h⟩
  · rintro (h | ⟨⟨b, hb⟩, h⟩)
    · exact .here h
    · exact .later hb h

/-- Two lists fail alike if their members in turn give the same results, up to what is made of a
success. -/
theorem firstFails_congr {as : List α} {cs : List γ}
    (h : List.Forall₂ (fun a c => ∃ k : δ → β, f a = (g c).map k) as cs) :
    FirstFails f error as ↔ FirstFails g error cs := by
  induction h with
  | nil => exact ⟨nofun, nofun⟩
  | @cons a c as cs hac _ ih =>
    obtain ⟨k, hk⟩ := hac
    have hok : (∃ b, f a = .ok b) ↔ ∃ d, g c = .ok d := by
      simp only [hk, map_eq_ok]
      exact ⟨fun ⟨_, d, hd, _⟩ => ⟨d, hd⟩, fun ⟨d, hd⟩ => ⟨_, d, hd, rfl⟩⟩
    rw [firstFails_cons, firstFails_cons, ih, hok, hk, map_eq_error]

end

/-! ### Making nodes -/

namespace Element

variable {error : ElementError}

theorem toMessage_eq_error_iff {es : List Element} :
    toMessage es = .error error ↔ FirstFails toNode error es := by
  induction es with
  | nil => exact ⟨nofun, nofun⟩
  | cons e es ih =>
    have hrest : ∀ node, (do let nodes ← toMessage es; return node :: nodes) = .error error ↔
        FirstFails toNode error es := by
      intro node
      rw [← ih, bind_eq_error]
      exact or_iff_left nofun
    rw [toMessage, bind_eq_error, firstFails_cons]
    simp only [hrest, exists_and_right]

theorem toBranches_eq_error_iff {branches : Members (List Element)} :
    toBranches branches = .error error ↔
      FirstFails (fun branch => toMessage branch.2) error branches := by
  induction branches with
  | nil => exact ⟨nofun, nofun⟩
  | cons branch branches ih =>
    obtain ⟨key, body⟩ := branch
    have hrest : ∀ nodes : List Node,
        (do let rest ← toBranches branches; return (key, nodes) :: rest) = .error error ↔
          FirstFails (fun branch => toMessage branch.2) error branches := by
      intro nodes
      rw [← ih, bind_eq_error]
      exact or_iff_left nofun
    rw [toBranches, bind_eq_error, firstFails_cons]
    simp only [hrest, exists_and_right]

/-- A result that is no fault of the value itself. -/
def Converted {α : Type} (x : Except ElementError α) : Prop :=
  ∀ error, x ≠ .error (.unreadable error)

namespace Converted

variable {α β : Type}

theorem ok (a : α) : Converted (.ok a) :=
  fun _ => nofun

theorem bind {x : Except ElementError α} {f : α → Except ElementError β} (hx : Converted x)
    (hf : ∀ a, Converted (f a)) : Converted (x >>= f) := by
  intro error h
  rcases bind_eq_error.1 h with h | ⟨a, -, h⟩
  · exact hx error h
  · exact hf a error h

theorem needed (element : String) (field : Field) (o : Option α) :
    Converted (needed element field o) := by
  cases o <;> exact fun _ => nofun

theorem ofText (s : String) : Converted (PluralKind.ofText s) := by
  unfold PluralKind.ofText
  split <;> exact fun _ => nofun

theorem toArgStyle (style : ElementStyle) : Converted style.toArgStyle := by
  unfold ElementStyle.toArgStyle
  split <;> exact fun _ => nofun

theorem toFormatted (format : ArgFormat) (value : Option String) (style : Option ElementStyle) :
    Converted (toFormatted format value style) := by
  refine (needed format.keyword .value value).bind fun name => ?_
  cases style with
  | none => exact ok _
  | some style => exact (toArgStyle style).bind fun _ => ok _

end Converted

mutual

theorem converted_toNode (e : Element) : Converted e.toNode := by
  obtain ⟨type, value, style, options, offset, pluralType, children⟩ := e
  unfold toNode
  -- the types from 0 to 8 in their order, and at last all others
  split
  case h_1 | h_2 => exact (Converted.needed _ _ value).bind fun _ => .ok _
  case h_3 | h_4 | h_5 => exact .toFormatted _ value style
  case h_6 =>
    refine (Converted.needed _ _ value).bind fun _ => ?_
    cases options with
    | none => exact fun _ => nofun
    | some branches => exact (converted_toBranches branches).bind fun _ => .ok _
  case h_7 =>
    refine (Converted.needed _ _ value).bind fun _ => ?_
    refine (Converted.needed _ _ pluralType).bind fun s => (Converted.ofText s).bind fun _ => ?_
    cases options with
    | none => exact fun _ => nofun
    | some branches => exact (converted_toBranches branches).bind fun _ => .ok _
  case h_8 => exact .ok _
  case h_9 =>
    refine (Converted.needed _ _ value).bind fun _ => ?_
    cases children with
    | none => exact fun _ => nofun
    | some children => exact (converted_toMessage children).bind fun _ => .ok _
  case h_10 => exact fun _ => nofun
termination_by structural e

theorem converted_toMessage (es : List Element) : Converted (toMessage es) := by
  cases es with
  | nil => exact .ok _
  | cons e es =>
    exact (converted_toNode e).bind fun _ => (converted_toMessage es).bind fun _ => .ok _
termination_by structural es

theorem converted_toBranches (branches : List (String × List Element)) :
    Converted (toBranches branches) := by
  cases branches with
  | nil => exact .ok _
  | cons branch branches =>
    obtain ⟨key, body⟩ := branch
    exact (converted_toMessage body).bind fun _ =>
      (converted_toBranches branches).bind fun _ => .ok _
termination_by structural branches

end

/-! ### Elements as they are read -/

theorem ofList_forall₂ {items : List Json} {es : List Element} (h : ofList items = .ok es) :
    List.Forall₂ (fun item e => ofJson item = .ok e) items es := by
  induction items generalizing es with
  | nil =>
    cases h
    exact .nil
  | cons item items ih =>
    rw [ofList] at h
    obtain ⟨e, he, h⟩ := bind_eq_ok.1 h
    obtain ⟨rest, hrest, hcons⟩ := bind_eq_ok.1 h
    cases hcons
    exact .cons he (ih hrest)

/-- Branches with new names are added in their order. -/
theorem ofBranches_forall₂ {branches : Members Json} {added bs : Members (List Element)}
    (hnodup : (Keyed.keys branches).Nodup) (hnew : ∀ m ∈ branches, m.1 ∉ Keyed.keys added)
    (h : ofBranches added branches = .ok bs) :
    ∃ rest, bs = added ++ rest ∧
      List.Forall₂ (fun m b => ofBranch m.2 = .ok b.2) branches rest := by
  induction branches generalizing added with
  | nil =>
    cases h
    exact ⟨[], by simp, .nil⟩
  | cons m branches ih =>
    obtain ⟨key, value⟩ := m
    obtain ⟨hkey, hrest⟩ := List.nodup_cons.1 hnodup
    rw [List.forall_mem_cons] at hnew
    rw [ofBranches_cons_of_new value hnew.1] at h
    obtain ⟨body, hbody, h⟩ := bind_eq_ok.1 h
    obtain ⟨rest, rfl, hall⟩ := ih hrest (not_mem_keys_append hkey hnew.2 body) h
    exact ⟨(key, body) :: rest, by simp, .cons hbody hall⟩

/-- The body of a branch is what its record has as value. -/
theorem ofBody_of_ofBranch {j body : Json} {members : Members Json} {es : List Element}
    (hspells : Schema.Spells .wrapper j members) (hdistinct : j.Distinct)
    (hbody : ("value", body) ∈ members) (h : ofBranch j = .ok es) : ofBody body = .ok es := by
  have hnodup := hspells.nodup hdistinct
  rw [ofBranch_spells hspells, ofBranch, ofBranchMembers_eq_ok hnodup] at h
  obtain ⟨value, hvalue, hread⟩ := Schema.has_iff.1 h
  cases List.inj_on_of_nodup_map hnodup hvalue hbody rfl
  exact hread

end Element

/-! ### What an element holds -/

namespace Schema

/-- A branch has this body. -/
def HasBody (branch : String × Json) (body : Json) : Prop :=
  ∃ members, Spells .wrapper branch.2 members ∧ ("value", body) ∈ members

/-- The lists of elements inside of an element, in document order. The element has all else that
its type needs. -/
inductive Holds : Json → List Json → Prop
  | select {j : Json} {members branches : Members Json} {name : String} {bodies : List Json}
    (h : Spells .element j members) (type : ("type", .number (.ofUInt8 5)) ∈ members)
    (value : ("value", .string name) ∈ members) (options : ("options", .object branches) ∈ members)
    (hbodies : List.Forall₂ HasBody branches bodies) : Holds j bodies
  | plural {j : Json} {members branches : Members Json} {name : String} {bodies : List Json}
    (h : Spells .element j members) (type : ("type", .number (.ofUInt8 6)) ∈ members)
    (value : ("value", .string name) ∈ members) (kind : Has "pluralType" IsPluralKind members)
    (options : ("options", .object branches) ∈ members)
    (hbodies : List.Forall₂ HasBody branches bodies) : Holds j bodies
  | tag {j : Json} {members : Members Json} {name : String} {items : List Json}
    (h : Spells .element j members) (type : ("type", .number (.ofUInt8 8)) ∈ members)
    (value : ("value", .string name) ∈ members)
    (children : ("children", .array items) ∈ members) : Holds j [.array items]

end Schema

open Schema

namespace Element.HasFields

variable {members branches : Members Json} {e : Element} (h : HasFields members blank e)

include h

theorem type_eq {n : UInt8} (htype : ("type", .number (.ofUInt8 n)) ∈ members) : e.type = n := by
  have hread : (Json.number (.ofUInt8 n)).asByte = .ok e.type := h.present .type _ htype
  rw [Json.asByte_ofUInt8] at hread
  exact (Except.ok.inj hread).symm

theorem value_eq {name : String} (hvalue : ("value", .string name) ∈ members) :
    e.value = some name :=
  h.value_eq_some.2 (has_iff.2 ⟨_, hvalue, rfl⟩)

theorem exists_options_eq (hoptions : ("options", .object branches) ∈ members) :
    ∃ bs, e.options = some bs ∧ ofBranches [] branches = .ok bs := by
  have hread : (Json.object branches).asOptional branchesOf = .ok e.options :=
    h.present .options _ hoptions
  obtain ⟨⟨⟩, -⟩ | ⟨bs, hbs, heq⟩ := (Json.asOptional_eq_ok nofun).1 hread
  exact ⟨bs, heq, hbs⟩

theorem exists_children_eq {items : List Json} (hchildren : ("children", .array items) ∈ members) :
    ∃ es, e.children = some es ∧ ofList items = .ok es := by
  have hread : (Json.array items).asOptional ofBody = .ok e.children :=
    h.present .children _ hchildren
  obtain ⟨⟨⟩, -⟩ | ⟨es, hes, heq⟩ := (Json.asOptional_eq_ok nofun).1 hread
  exact ⟨es, heq, hes⟩

end Element.HasFields

namespace Message

open Element (toNode toMessage toBranches)

variable {error : ElementError}

theorem ofJson_of_ofBody {j : Json} {es : List Element} (h : Element.ofBody j = .ok es) :
    ofJson j = toMessage es := by
  rw [ofJson, h]
  rfl

theorem ofJson_of_ofList {items : List Json} {es : List Element}
    (h : Element.ofList items = .ok es) : ofJson (.array items) = toMessage es :=
  ofJson_of_ofBody (by rw [Element.ofBody, h])

theorem ofJson_singleton {item : Json} {e : Element} (h : Element.ofJson item = .ok e) :
    ofJson (.array [item]) = e.toNode.map fun node => [node] := by
  have hlist : Element.ofList [item] = .ok [e] := by
    rw [Element.ofList, h]
    rfl
  rw [ofJson_of_ofList hlist, toMessage]
  cases e.toNode <;> rfl

theorem exists_ofList_iff {items : List Json} (hdistinct : (Json.array items).Distinct) :
    (∃ es, Element.ofList items = .ok es) ↔ ∀ item ∈ items, Legible item := by
  have hyields : (∃ es, Element.ofList items = .ok es ∧ ∀ e ∈ es, True) ↔
      ∀ item ∈ items, Element.Yields (fun _ => True) item := Element.ofList_yields_iff
  simp only [implies_true, and_true] at hyields
  rw [hyields]
  exact forall₂_congr fun item hitem =>
    Element.readable_iff_legible item (hdistinct.item hitem)

/-- A value that is not legible is unreadable, and nothing else is. -/
theorem ofJson_unreadable_iff {items : List Json} (hdistinct : (Json.array items).Distinct) :
    (∃ error, ofJson (.array items) = .error (.unreadable error)) ↔
      ∃ item ∈ items, ¬ Legible item := by
  have hlegible := exists_ofList_iff hdistinct
  cases hread : Element.ofList items with
  | error fault =>
    have hnot : ¬ ∀ item ∈ items, Legible item := by
      rw [← hlegible, hread]
      exact nofun
    have hfails : ofJson (.array items) = .error (.unreadable (.dataFault fault)) := by
      rw [ofJson, Element.ofBody, hread]
      rfl
    exact ⟨fun _ => by simpa using hnot, fun _ => ⟨_, hfails⟩⟩
  | ok es =>
    have hall := hlegible.1 ⟨es, hread⟩
    constructor
    · rintro ⟨error, herror⟩
      rw [ofJson_of_ofList hread] at herror
      exact absurd herror (Element.converted_toMessage es error)
    · rintro ⟨item, hitem, hnot⟩
      exact absurd (hall item hitem) hnot

theorem ofJson_eq_error_iff {items : List Json} {es : List Element}
    (h : Element.ofList items = .ok es) :
    ofJson (.array items) = .error error ↔
      FirstFails (fun item => ofJson (.array [item])) error items := by
  have hitems := (Element.ofList_forall₂ h).imp fun item e he =>
    (⟨_, ofJson_singleton he⟩ : ∃ k, ofJson (.array [item]) = e.toNode.map k)
  rw [ofJson_of_ofList h, Element.toMessage_eq_error_iff, firstFails_congr hitems]

/-- The branches of a block fail as their bodies do on their own. -/
theorem toBranches_eq_error_iff {branches : Members Json} {bodies : List Json}
    {bs : Members (List Element)} (hdistinct : (Json.object branches).Distinct)
    (hread : Element.ofBranches [] branches = .ok bs)
    (hbodies : List.Forall₂ HasBody branches bodies) :
    toBranches bs = .error error ↔ FirstFails ofJson error bodies := by
  obtain ⟨_, rfl, hbranches⟩ :=
    Element.ofBranches_forall₂ hdistinct.nodup (by simp [Keyed.keys]) hread
  have hall : ∀ m ∈ branches, m.2.Distinct := Json.distinctMembers_iff.1 hdistinct.2
  rw [Element.toBranches_eq_error_iff]
  refine (firstFails_congr ?_).symm
  clear hread hdistinct
  induction hbodies generalizing bs with
  | nil =>
    cases hbranches
    exact .nil
  | cons hbody _ ih =>
    rw [List.forall_mem_cons] at hall
    cases hbranches with
    | cons hbranch hbranches =>
      obtain ⟨members, hspells, hvalue⟩ := hbody
      have hes := Element.ofBody_of_ofBranch hspells hall.1 hvalue hbranch
      refine .cons ⟨id, ?_⟩ (ih hbranches hall.2)
      rw [ofJson_of_ofBody hes, Except.map_id]
      rfl

theorem ofJson_holds_eq_error_iff {item : Json} {parts : List Json} (hdistinct : item.Distinct)
    (hlegible : Legible item) (h : Holds item parts) :
    ofJson (.array [item]) = .error error ↔ FirstFails ofJson error parts := by
  obtain ⟨e, he⟩ :=
    Element.readable_iff.1 ((Element.readable_iff_legible item hdistinct).2 hlegible)
  rw [ofJson_singleton he, map_eq_error]
  have hfields : ∀ {members}, Spells .element item members →
      Element.HasFields members .blank e := by
    intro members hspells
    rw [Element.ofJson_spells hspells] at he
    exact (Element.ofJson_object_ok he).2
  cases h with
  | @select members branches name bodies hspells htype hvalue hoptions hbodies =>
    have hread := hfields hspells
    obtain ⟨bs, hbs, hbranches⟩ := hread.exists_options_eq hoptions
    rw [Element.toNode_select (hread.type_eq htype) (hread.value_eq hvalue) hbs, map_eq_error]
    exact toBranches_eq_error_iff (hspells.distinct_member hdistinct hoptions) hbranches hbodies
  | @plural members branches name bodies hspells htype hvalue hkind hoptions hbodies =>
    have hread := hfields hspells
    obtain ⟨bs, hbs, hbranches⟩ := hread.exists_options_eq hoptions
    obtain ⟨text, htext, kind, hkind⟩ := hread.pluralType_iff.2 hkind
    rw [Element.toNode_plural (hread.type_eq htype) (hread.value_eq hvalue) htext hkind hbs,
      map_eq_error]
    exact toBranches_eq_error_iff (hspells.distinct_member hdistinct hoptions) hbranches hbodies
  | @tag members name items hspells htype hvalue hchildren =>
    have hread := hfields hspells
    obtain ⟨es, hes, hitems⟩ := hread.exists_children_eq hchildren
    rw [Element.toNode_tag (hread.type_eq htype) (hread.value_eq hvalue) hes, map_eq_error,
      firstFails_cons, ofJson_of_ofList hitems]
    exact (or_iff_left fun h => not_firstFails_nil h.2).symm

/-- A part that is not legible is reported before any other fault. In a legible value the error is
that of the first element that fails on its own, and for an element that has all else it needs it is
that of the first list of elements inside of it that fails on its own. -/
theorem ofJson_fault_order {items : List Json} (hdistinct : (Json.array items).Distinct) :
    ((∃ item ∈ items, ¬ Legible item) ↔
      ∃ error, ofJson (.array items) = .error (.unreadable error)) ∧
    ((∀ item ∈ items, Legible item) → ∀ error : ElementError,
      (ofJson (.array items) = .error error ↔
        FirstFails (fun item => ofJson (.array [item])) error items) ∧
      ∀ item ∈ items, ∀ parts, Holds item parts →
        (ofJson (.array [item]) = .error error ↔ FirstFails ofJson error parts)) := by
  refine ⟨(ofJson_unreadable_iff hdistinct).symm, fun hlegible error => ⟨?_, ?_⟩⟩
  · obtain ⟨es, hes⟩ := (exists_ofList_iff hdistinct).2 hlegible
    exact ofJson_eq_error_iff hes
  · intro item hitem parts hparts
    exact ofJson_holds_eq_error_iff (hdistinct.item hitem) (hlegible item hitem) hparts

namespace FaultSample

/-- An element of the given type with nothing else in it. -/
def bare (type : UInt8) : Json :=
  .object [("type", .number (.ofUInt8 type))]

def bodies : List Json :=
  [.array [], .array [bare 0, bare 99], .array [bare 1]]

/-- A select with faults in two of its branches; the records of some are written as arrays. -/
def block : Json :=
  .object [("options", .object [("x", .object [("value", .array [])]),
      ("y", .array [.array [bare 0, bare 99]]), ("other", .array [.array [bare 1]])]),
    ("type", .number (.ofUInt8 5)), ("value", .string "g")]

theorem holds_block : Holds block bodies :=
  .select (.object _) (by simp) (List.mem_cons_of_mem _ (List.mem_cons_of_mem _ List.mem_cons_self))
    List.mem_cons_self
    (.cons ⟨_, .object _, List.mem_cons_self⟩
      (.cons ⟨_, .array (by decide), List.mem_cons_self⟩
        (.cons ⟨_, .array (by decide), List.mem_cons_self⟩ .nil)))

end FaultSample

open FaultSample in
/-- An unknown type is reported before the faults of a block after it, and text in the place of a
type is reported before both. -/
theorem ofJson_fault_order_twoFaults :
    (Json.array [bare 99, block]).Distinct ∧ (∀ item ∈ [bare 99, block], Legible item) ∧
      ofJson (.array [bare 99, block]) = .error (.unknownElementType 99) ∧
      Holds block bodies ∧ ofJson (.array [block]) = .error (.missingField "literal" "value") ∧
      ∃ error, ofJson (.array [bare 99, .object [("type", .string "5")]]) =
        .error (.unreadable error) := by
  have hdistinct : (Json.array [bare 99, block]).Distinct := by
    simp [Json.Distinct, Json.DistinctItems, Json.DistinctMembers, Keyed.keys, bare, block]
  have hlate : (Json.array [bare 99, .object [("type", .string "5")]]).Distinct := by
    simp [Json.Distinct, Json.DistinctItems, Json.DistinctMembers, Keyed.keys, bare]
  have hlegible : ∀ item ∈ [bare 99, block], Legible item :=
    (exists_ofList_iff hdistinct).1 ⟨_, rfl⟩
  have hillegible : ∃ item ∈ [bare 99, .object [("type", .string "5")]], ¬ Legible item := by
    by_contra! hall
    obtain ⟨es, hes⟩ := (exists_ofList_iff hlate).2 hall
    cases hes
  have horder := (ofJson_fault_order hdistinct).2 hlegible
  refine ⟨hdistinct, hlegible, (horder _).1.2 (.here rfl), holds_block, ?_,
    (ofJson_fault_order hlate).1.1 hillegible⟩
  exact ((horder _).2 block (by simp) bodies holds_block).2 (.later rfl (.here rfl))

end Message

end MessageFormat
