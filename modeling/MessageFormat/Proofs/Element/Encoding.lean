import MessageFormat.Element.Node
import MessageFormat.Proofs.Catalog.Source
import MessageFormat.Proofs.Element.Members
import MessageFormat.Proofs.Json.RoundTrip
import MessageFormat.Proofs.Message.WellFormed

/-!
# Messages as trees of elements

A message is written as the array of its elements. The members of the records in it may stand in
any order, which `arrange` decides for each of them; what is missing is left out. The branches of
a block keep their order. Reading such a tree gives the message back, and so does reading the text
of the tree.
-/

namespace MessageFormat

open Json (DataFault)

/-! ### Elements as values -/

namespace ArgFormat

/-- The type of an element for an argument with a format. -/
def code : ArgFormat → UInt8
  | .number => 2
  | .date => 3
  | .time => 4

end ArgFormat

namespace PluralKind

def text : PluralKind → String
  | .cardinal => "cardinal"
  | .ordinal => "ordinal"

end PluralKind

section

variable (arrange : Members Json → Members Json)

def SkeletonToken.toJson (token : SkeletonToken) : Json :=
  .object (arrange
    [("stem", .string token.stem), ("options", .array (token.options.map .string))])

def ArgStyle.toJson : ArgStyle → Json
  | .text t => .string t
  | .number tokens =>
    .object (arrange [("type", .number (.ofUInt8 0)),
      ("tokens", .array (tokens.map (SkeletonToken.toJson arrange)))])
  | .dateTime pattern =>
    .object (arrange [("type", .number (.ofUInt8 1)), ("pattern", .string pattern)])

/-- An element with its type, its value if it has one, and further members. -/
def elementJson (type : UInt8) (value : Option String) (others : Members Json) : Json :=
  .object (arrange (("type", .number (.ofUInt8 type)) ::
    (value.map fun s => ("value", Json.string s)).toList ++ others))

mutual

def Node.toJson : Node → Json
  | .literal t => elementJson arrange 0 (some t) []
  | .argument name => elementJson arrange 1 (some name) []
  | .formatted format name style =>
    elementJson arrange format.code (some name)
      (style.map fun s => ("style", s.toJson arrange)).toList
  | .select name branches =>
    elementJson arrange 5 (some name) [("options", .object (Branches.toJson branches))]
  | .plural name kind offset branches =>
    elementJson arrange 6 (some name)
      (("options", .object (Branches.toJson branches)) ::
        (offset.map fun n => ("offset", Json.number (.ofUInt32 n))).toList ++
        [("pluralType", .string kind.text)])
  | .pound => elementJson arrange 7 none []
  | .tag name children =>
    elementJson arrange 8 (some name) [("children", .array (Message.toJson children))]
termination_by structural node => node

def Message.toJson : List Node → List Json
  | [] => []
  | node :: nodes => node.toJson :: Message.toJson nodes
termination_by structural nodes => nodes

def Branches.toJson : List (String × List Node) → Members Json
  | [] => []
  | (key, body) :: branches =>
    (key, .object [("value", .array (Message.toJson body))]) :: Branches.toJson branches
termination_by structural branches => branches

end

/-- A message as a tree of elements. -/
def Message.encode (m : Message) : Json :=
  .array (Message.toJson arrange m)

end

/-! ### The elements that are read -/

def ArgStyle.toElement : ArgStyle → ElementStyle
  | .text t => .text t
  | .number tokens => .skeleton 0 tokens none
  | .dateTime pattern => .skeleton 1 [] (some pattern)

mutual

/-- The element that a node is read from. -/
def Node.toElement : Node → Element
  | .literal t => { Element.blank with type := 0, value := some t }
  | .argument name => { Element.blank with type := 1, value := some name }
  | .formatted format name style =>
    { Element.blank with
      type := format.code, value := some name, style := style.map ArgStyle.toElement }
  | .select name branches =>
    { Element.blank with
      type := 5, value := some name, options := some (Branches.toElements branches) }
  | .plural name kind offset branches =>
    { Element.blank with
      type := 6, value := some name, options := some (Branches.toElements branches)
      offset := offset, pluralType := some kind.text }
  | .pound => { Element.blank with type := 7 }
  | .tag name children =>
    { Element.blank with
      type := 8, value := some name, children := some (Message.toElements children) }
termination_by structural node => node

def Message.toElements : List Node → List Element
  | [] => []
  | node :: nodes => node.toElement :: Message.toElements nodes
termination_by structural nodes => nodes

def Branches.toElements : List (String × List Node) → Members (List Element)
  | [] => []
  | (key, body) :: branches => (key, Message.toElements body) :: Branches.toElements branches
termination_by structural branches => branches

end

theorem PluralKind.ofText_text (kind : PluralKind) : PluralKind.ofText kind.text = .ok kind := by
  cases kind <;> rfl

theorem ArgStyle.toArgStyle_toElement (style : ArgStyle) :
    style.toElement.toArgStyle = .ok style := by
  cases style <;> rfl

mutual

theorem Node.toNode_toElement (node : Node) : Element.toNode node.toElement = .ok node := by
  cases node with
  | literal t => rfl
  | argument name => rfl
  | formatted format name style =>
    have htoNode : Element.toNode (Node.formatted format name style).toElement =
        Element.toFormatted format (some name) (style.map ArgStyle.toElement) := by
      cases format <;> rfl
    rw [htoNode, Element.toFormatted]
    cases style with
    | none => rfl
    | some style =>
      change (style.toElement.toArgStyle >>= fun style =>
        pure (Node.formatted format name (some style))) = _
      rw [style.toArgStyle_toElement]
      rfl
  | pound => rfl
  | plural name kind offset branches =>
    change (PluralKind.ofText kind.text >>= fun kind =>
      Element.toBranches (Branches.toElements branches) >>= fun bs =>
        pure (Node.plural name kind offset bs)) = _
    rw [kind.ofText_text, ok_bind, Branches.toBranches_toElements branches]
    rfl
  | select name branches =>
    change (Element.toBranches (Branches.toElements branches) >>= fun bs =>
      pure (Node.select name bs)) = _
    rw [Branches.toBranches_toElements branches]
    rfl
  | tag name children =>
    change (Element.toMessage (Message.toElements children) >>= fun m =>
      pure (Node.tag name m)) = _
    rw [Message.toMessage_toElements children]
    rfl
termination_by structural node

theorem Message.toMessage_toElements (m : List Node) :
    Element.toMessage (Message.toElements m) = .ok m := by
  cases m with
  | nil => rfl
  | cons node nodes =>
    rw [Message.toElements, Element.toMessage, Node.toNode_toElement node, ok_bind,
      Message.toMessage_toElements nodes, ok_bind]
    rfl
termination_by structural m

theorem Branches.toBranches_toElements (branches : List (String × List Node)) :
    Element.toBranches (Branches.toElements branches) = .ok branches := by
  cases branches with
  | nil => rfl
  | cons branch branches =>
    rw [Branches.toElements, Element.toBranches, Message.toMessage_toElements branch.2, ok_bind,
      Branches.toBranches_toElements branches, ok_bind]
    rfl
termination_by structural branches

end

/-! ### Reading styles -/

theorem mapM_map_eq_some {α : Type} {f : α → Json} {g : Json → Option α} {l : List α}
    (h : ∀ a ∈ l, g (f a) = some a) : (l.map f).mapM g = some l := by
  induction l with
  | nil => rfl
  | cons a l ih =>
    have hl := ih fun b hb => h b (List.mem_cons_of_mem _ hb)
    rw [List.map_cons, List.mapM_cons, h a List.mem_cons_self, hl]
    rfl

section

variable {arrange : Members Json → Members Json} (harrange : ∀ ms, (arrange ms).Perm ms)

include harrange

/-! A record of two fields, looked up under either name or another one. -/

namespace ElementStyle

theorem field?_first {α : Type} {a b : String} (hne : a ≠ b) (x y : Json) (missing : Option α)
    (read : Json → Option α) :
    field? a missing read (arrange [(a, x), (b, y)]) = read x := by
  have hperm := harrange [(a, x), (b, y)]
  have hnodup := Keyed.nodup_keys_of_perm hperm (by simp [Keyed.keys, hne])
  exact field?_of_mem missing read hnodup (hperm.mem_iff.2 List.mem_cons_self)

theorem field?_second {α : Type} {a b : String} (hne : a ≠ b) (x y : Json) (missing : Option α)
    (read : Json → Option α) :
    field? b missing read (arrange [(a, x), (b, y)]) = read y := by
  have hperm := harrange [(a, x), (b, y)]
  have hnodup := Keyed.nodup_keys_of_perm hperm (by simp [Keyed.keys, hne])
  exact field?_of_mem missing read hnodup (hperm.mem_iff.2 (by simp))

theorem field?_other {α : Type} {a b c : String} (ha : c ≠ a) (hb : c ≠ b) (x y : Json)
    (missing : Option α) (read : Json → Option α) :
    field? c missing read (arrange [(a, x), (b, y)]) = missing := by
  refine field?_of_not_mem missing read fun hmem => ?_
  have hkeys := (Keyed.mem_keys_of_perm (harrange [(a, x), (b, y)])).1 hmem
  simp [Keyed.keys, ha, hb] at hkeys

end ElementStyle

open ElementStyle (field?_first field?_second field?_other)

theorem SkeletonToken.token?_toJson (token : SkeletonToken) :
    ElementStyle.token? (token.toJson arrange) = some token := by
  have hoptions : ElementStyle.texts? (.array (token.options.map .string)) = some token.options :=
    mapM_map_eq_some fun s _ => rfl
  rw [toJson, ElementStyle.token?, field?_first harrange (by decide),
    field?_second harrange (by decide), hoptions]
  rfl

theorem ArgStyle.ofJson?_toJson (style : ArgStyle) :
    ElementStyle.ofJson? (style.toJson arrange) = some style.toElement := by
  cases style with
  | text t => rfl
  | number tokens =>
    have htokens : ElementStyle.tokens? (.array (tokens.map (SkeletonToken.toJson arrange))) =
        some tokens :=
      mapM_map_eq_some fun token _ => token.token?_toJson harrange
    rw [toJson, ElementStyle.ofJson?, field?_first harrange (by decide),
      field?_second harrange (by decide), field?_other harrange (by decide) (by decide), htokens,
      Json.asByte_ofUInt8]
    rfl
  | dateTime pattern =>
    rw [toJson, ElementStyle.ofJson?, field?_first harrange (by decide),
      field?_other harrange (by decide) (by decide), field?_second harrange (by decide),
      Json.asByte_ofUInt8]
    rfl

/-! ### Reading elements -/

namespace Element

variable {t : Element}

theorem ofJson_elementJson {n : UInt8} {value : Option String} {others : Members Json}
    (htype : t.type = n) (hvalue : t.value = value) (hothers : ∀ m ∈ others, Fits t m)
    (hnodup : ("type" :: "value" :: Keyed.keys others).Nodup)
    (hrest : ∀ f : Field, f.name ∈ "type" :: "value" :: Keyed.keys others ∨
      copyField f t blank = blank) :
    ofJson (elementJson arrange n value others) = .ok t := by
  simp only [List.nodup_cons, List.mem_cons, not_or] at hnodup
  obtain ⟨⟨-, htypeNew⟩, hvalueNew, hothersNodup⟩ := hnodup
  refine ofJson_of_fits (harrange _) ?_ ?_ ?_ (by simp [Keyed.keys, Field.name])
  · intro m hm
    rcases List.mem_append.1 hm with hm | hm
    · rcases List.mem_cons.1 hm with rfl | hm
      · exact fits_type htype
      · cases value with
        | none => cases hm
        | some s =>
          obtain rfl := List.mem_singleton.1 hm
          exact fits_value hvalue
    · exact hothers m hm
  · rw [Keyed.keys] at htypeNew hvalueNew hothersNodup
    cases value <;> simp [Keyed.keys, htypeNew, hvalueNew, hothersNodup]
  · intro f hf
    by_cases hfvalue : f = .value
    · cases value with
      | none =>
        rw [hfvalue, copyField, hvalue]
        rfl
      | some s => simp [Keyed.keys, hfvalue, Field.name] at hf
    · refine (hrest f).resolve_left fun hmem => hf ?_
      have hne : f.name ≠ "value" := fun heq => hfvalue (Field.name_injective heq)
      cases value <;> simpa [Keyed.keys, hne] using hmem

end Element

end

/-! ### Messages whose blocks have no key twice -/

mutual

/-- No block in a node, however deep, has a key twice. -/
def Node.KeysDistinct : Node → Prop
  | .select _ branches => (Keyed.keys branches).Nodup ∧ Branches.KeysDistinct branches
  | .plural _ _ _ branches => (Keyed.keys branches).Nodup ∧ Branches.KeysDistinct branches
  | .tag _ children => Message.KeysDistinct children
  | _ => True
termination_by structural node => node

def Message.KeysDistinct : List Node → Prop
  | [] => True
  | node :: nodes => node.KeysDistinct ∧ Message.KeysDistinct nodes
termination_by structural nodes => nodes

def Branches.KeysDistinct : List (String × List Node) → Prop
  | [] => True
  | (_, body) :: branches => Message.KeysDistinct body ∧ Branches.KeysDistinct branches
termination_by structural branches => branches

end

mutual

/-- A node is read as its element wherever the members of its records stand. -/
theorem Node.ofJson_toJson {arrange : Members Json → Members Json}
    (harrange : ∀ ms, (arrange ms).Perm ms) (node : Node) (h : node.KeysDistinct) :
    Element.ofJson (node.toJson arrange) = .ok node.toElement := by
  cases node with
  | literal t | argument name | pound =>
    rw [Node.toJson]
    exact Element.ofJson_elementJson harrange rfl rfl (by simp) (by decide)
      (Element.named_or_missing (.inr rfl) (.inr rfl) (.inr rfl) (.inr rfl) (.inr rfl))
  | formatted format name style =>
    rw [Node.toJson]
    cases style with
    | none =>
      exact Element.ofJson_elementJson harrange rfl rfl (by simp) (by simp [Keyed.keys])
        (Element.named_or_missing (.inr rfl) (.inr rfl) (.inr rfl) (.inr rfl) (.inr rfl))
    | some style =>
      have hstyle : Element.Fits (Node.formatted format name (some style)).toElement
          ("style", style.toJson arrange) :=
        Element.fits_style (style.ofJson?_toJson harrange) rfl
      exact Element.ofJson_elementJson harrange rfl rfl (by simpa using hstyle)
        (by simp [Keyed.keys]) (Element.named_or_missing (.inl (by simp [Keyed.keys])) (.inr rfl)
          (.inr rfl) (.inr rfl) (.inr rfl))
  | select name branches =>
    have hoptions : Element.Fits (Node.select name branches).toElement
        ("options", .object (Branches.toJson arrange branches)) :=
      Element.fits_options (Branches.ofBranches_toJson harrange branches h.2 [] h.1) rfl
    rw [Node.toJson]
    exact Element.ofJson_elementJson harrange rfl rfl (by simpa using hoptions)
      (by simp [Keyed.keys]) (Element.named_or_missing (.inr rfl) (.inl (by simp [Keyed.keys]))
        (.inr rfl) (.inr rfl) (.inr rfl))
  | plural name kind offset branches =>
    have hoptions : Element.Fits (Node.plural name kind offset branches).toElement
        ("options", .object (Branches.toJson arrange branches)) :=
      Element.fits_options (Branches.ofBranches_toJson harrange branches h.2 [] h.1) rfl
    have hpluralType : Element.Fits (Node.plural name kind offset branches).toElement
        ("pluralType", .string kind.text) := Element.fits_pluralType rfl
    rw [Node.toJson]
    cases offset with
    | none =>
      exact Element.ofJson_elementJson harrange rfl rfl (by simp [hoptions, hpluralType])
        (by simp [Keyed.keys]) (Element.named_or_missing (.inr rfl) (.inl (by simp [Keyed.keys]))
          (.inr rfl) (.inl (by simp [Keyed.keys])) (.inr rfl))
    | some n =>
      have hoffset : Element.Fits (Node.plural name kind (some n) branches).toElement
          ("offset", .number (.ofUInt32 n)) := Element.fits_offset rfl
      exact Element.ofJson_elementJson harrange rfl rfl (by simp [hoptions, hoffset, hpluralType])
        (by simp [Keyed.keys]) (Element.named_or_missing (.inr rfl) (.inl (by simp [Keyed.keys]))
          (.inl (by simp [Keyed.keys])) (.inl (by simp [Keyed.keys])) (.inr rfl))
  | tag name children =>
    have hchildren : Element.Fits (Node.tag name children).toElement
        ("children", .array (Message.toJson arrange children)) :=
      Element.fits_children (Message.ofList_toJson harrange children h) rfl
    rw [Node.toJson]
    exact Element.ofJson_elementJson harrange rfl rfl (by simpa using hchildren)
      (by simp [Keyed.keys]) (Element.named_or_missing (.inr rfl) (.inr rfl) (.inr rfl) (.inr rfl)
        (.inl (by simp [Keyed.keys])))
termination_by structural node

theorem Message.ofList_toJson {arrange : Members Json → Members Json}
    (harrange : ∀ ms, (arrange ms).Perm ms) (m : List Node) (h : Message.KeysDistinct m) :
    Element.ofList (Message.toJson arrange m) = .ok (Message.toElements m) := by
  cases m with
  | nil => rfl
  | cons node nodes =>
    rw [Message.toJson, Element.ofList, Node.ofJson_toJson harrange node h.1, ok_bind,
      Message.ofList_toJson harrange nodes h.2]
    rfl
termination_by structural m

/-- Branches are added to those already read; a key that is new comes after them. -/
theorem Branches.ofBranches_toJson {arrange : Members Json → Members Json}
    (harrange : ∀ ms, (arrange ms).Perm ms) (branches : List (String × List Node))
    (h : Branches.KeysDistinct branches) (done : Members (List Element))
    (hnodup : (Keyed.keys done ++ Keyed.keys branches).Nodup) :
    Element.ofBranches done (Branches.toJson arrange branches) =
      .ok (done ++ Branches.toElements branches) := by
  cases branches with
  | nil => simp [Branches.toJson, Branches.toElements, Element.ofBranches]
  | cons branch branches =>
    obtain ⟨key, body⟩ := branch
    have hbody : Element.ofBranch (.object [("value", .array (Message.toJson arrange body))]) =
        .ok (Message.toElements body) := by
      rw [Element.ofBranch, Element.ofBranchMembers, if_pos rfl, Element.ofBody,
        Message.ofList_toJson harrange body h.1]
      rfl
    have hkey : key ∉ Keyed.keys done := by
      intro hmem
      exact (List.nodup_append.1 hnodup).2.2 _ hmem _ List.mem_cons_self rfl
    rw [Branches.toJson, Element.ofBranches, hbody, ok_bind, Keyed.set_of_not_mem _ hkey,
      Branches.ofBranches_toJson harrange branches h.2]
    · simp [Branches.toElements]
    · simpa [Keyed.keys] using hnodup
termination_by structural branches

end

/-! ### Texts of messages -/

section

variable {arrange : Members Json → Members Json} (harrange : ∀ ms, (arrange ms).Perm ms)

include harrange

theorem integral_arrange {members : Members Json} (h : ∀ m ∈ members, m.2.Integral) :
    (Json.object (arrange members)).Integral := by
  refine Json.integralMembers_iff.2 fun m hm => ?_
  exact h m ((harrange members).mem_iff.1 hm)

theorem SkeletonToken.integral_toJson (token : SkeletonToken) :
    (token.toJson arrange).Integral := by
  refine integral_arrange harrange ?_
  simp [Json.Integral, Json.integralItems_iff]

theorem ArgStyle.integral_toJson (style : ArgStyle) : (style.toJson arrange).Integral := by
  cases style with
  | text t => trivial
  | number tokens =>
    refine integral_arrange harrange ?_
    simp [Json.Integral, Json.Number.IsInt, Json.Number.ofUInt8, Json.integralItems_iff,
      SkeletonToken.integral_toJson harrange]
  | dateTime pattern =>
    refine integral_arrange harrange ?_
    simp [Json.Integral, Json.Number.IsInt, Json.Number.ofUInt8]

theorem integral_elementJson (type : UInt8) (value : Option String) {others : Members Json}
    (h : ∀ m ∈ others, m.2.Integral) : (elementJson arrange type value others).Integral := by
  refine integral_arrange harrange fun m hm => ?_
  rcases List.mem_append.1 hm with hm | hm
  · rcases List.mem_cons.1 hm with rfl | hm
    · trivial
    · cases value with
      | none => cases hm
      | some s =>
        obtain rfl := List.mem_singleton.1 hm
        trivial
  · exact h m hm

end

mutual

theorem Node.integral_toJson {arrange : Members Json → Members Json}
    (harrange : ∀ ms, (arrange ms).Perm ms) (node : Node) : (node.toJson arrange).Integral := by
  cases node with
  | literal t | argument name | pound => exact integral_elementJson harrange _ _ (by simp)
  | formatted format name style =>
    refine integral_elementJson harrange _ _ fun m hm => ?_
    cases style with
    | none => cases hm
    | some style =>
      obtain rfl := List.mem_singleton.1 hm
      exact style.integral_toJson harrange
  | select name branches =>
    refine integral_elementJson harrange _ _ fun m hm => ?_
    obtain rfl := List.mem_singleton.1 hm
    exact Branches.integral_toJson harrange branches
  | plural name kind offset branches =>
    have hbranches := Branches.integral_toJson harrange branches
    refine integral_elementJson harrange _ _ ?_
    cases offset <;>
      simp [Json.Integral, Json.Number.IsInt, Json.Number.ofUInt32, hbranches]
  | tag name children =>
    refine integral_elementJson harrange _ _ fun m hm => ?_
    obtain rfl := List.mem_singleton.1 hm
    exact Message.integral_toJson harrange children
termination_by structural node

theorem Message.integral_toJson {arrange : Members Json → Members Json}
    (harrange : ∀ ms, (arrange ms).Perm ms) (m : List Node) :
    Json.IntegralItems (Message.toJson arrange m) := by
  cases m with
  | nil => trivial
  | cons node nodes =>
    exact ⟨Node.integral_toJson harrange node, Message.integral_toJson harrange nodes⟩
termination_by structural m

theorem Branches.integral_toJson {arrange : Members Json → Members Json}
    (harrange : ∀ ms, (arrange ms).Perm ms) (branches : List (String × List Node)) :
    Json.IntegralMembers (Branches.toJson arrange branches) := by
  cases branches with
  | nil => trivial
  | cons branch branches =>
    exact ⟨⟨Message.integral_toJson harrange branch.2, trivial⟩,
      Branches.integral_toJson harrange branches⟩
termination_by structural branches

end

/-- A message without repeated keys comes back from its tree of elements, whatever the order of the
members in the records of the tree, and from any text of the tree that is not too deep to read. -/
theorem Message.read_encode {arrange : Members Json → Members Json}
    (harrange : ∀ ms, (arrange ms).Perm ms) {m : Message} (hkeys : KeysDistinct m) :
    ofJson (encode arrange m) = .ok m ∧
      ∀ layout, (encode arrange m).depth ≤ Json.maxDepth →
        ofText ((encode arrange m).render layout) = .ok m := by
  have htree : ofJson (encode arrange m) = .ok m := by
    rw [ofJson, encode, Element.ofBody, ofList_toJson harrange m hkeys, mapError_ok, ok_bind,
      toMessage_toElements]
  refine ⟨htree, fun layout hdepth => ?_⟩
  have hintegral : (encode arrange m).Integral := integral_toJson harrange m
  have hagree := ofText_agree_of_rawOfText (Json.rawOfText_render hintegral hdepth layout)
  rw [htree] at hagree
  exact hagree.eq_ok

theorem Message.read_encode_sample :
    (∀ members : Members Json, members.reverse.Perm members) ∧ KeysDistinct (sample (some 0)) ∧
      ofJson (encode List.reverse (sample (some 0))) = .ok (sample (some 0)) ∧
      (encode List.reverse (sample (some 0))).depth ≤ Json.maxDepth ∧
      ofText (encode List.reverse (sample (some 0))).compact = .ok (sample (some 0)) := by
  have hkeys : KeysDistinct (sample (some 0)) := by
    simp [sample, KeysDistinct, Node.KeysDistinct, Branches.KeysDistinct, Keyed.keys]
  have hdepth : (encode List.reverse (sample (some 0))).depth ≤ Json.maxDepth := by
    decide +kernel
  obtain ⟨htree, htext⟩ := read_encode List.reverse_perm hkeys
  exact ⟨List.reverse_perm, hkeys, htree, hdepth, htext .compact hdepth⟩

end MessageFormat
