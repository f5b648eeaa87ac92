import MessageFormat.Catalog.Format
import MessageFormat.Proofs.Element.Agreement
import MessageFormat.Proofs.Json.RoundTrip

/-!
# A message as text and as tree

A text in which no object has a name twice is the same message source as the value that it is read
as. Faults of reading may differ, because a text is given up at the first one in the order of the
text, but faults of the message are the same.
-/

namespace MessageFormat

namespace Message

theorem ofText_agree_of_rawOfText {text : String} {j : Json} (h : Json.rawOfText text = .ok j) :
    Agree (ofText text) (ofJson j) :=
  (((Element.readBody_agree_of_rawOfText h).mapError_left _).mapError_right _).bind fun es => by
    cases Element.toMessage es with
    | error e => exact .error e e
    | ok m => exact .ok m

/-- A fault other than one of reading is found in the elements, which are the same. -/
theorem ofText_eq_error_iff {text : String} {j : Json} (h : Json.rawOfText text = .ok j)
    {e : ElementError} (he : ∀ fault, e ≠ .unreadable fault) :
    ofText text = .error e ↔ ofJson j = .error e := by
  have hbody := Element.readBody_agree_of_rawOfText h
  rw [ofText, ofJson]
  cases hx : Json.readDocument (Element.readBody Json.maxDepth) text with
  | error fault =>
    rw [hx] at hbody
    cases hy : Element.ofBody j with
    | error fault' =>
      constructor
      · intro heq
        cases heq
        exact absurd rfl (he fault)
      · intro heq
        cases heq
        exact absurd rfl (he (.dataFault fault'))
    | ok es =>
      rw [hy] at hbody
      cases hbody
  | ok es =>
    rw [hx] at hbody
    cases hy : Element.ofBody j with
    | error fault =>
      rw [hy] at hbody
      cases hbody
    | ok es' =>
      rw [hy] at hbody
      cases hbody
      exact Iff.rfl

end Message

/-- Whatever the sources are, entries agree if the messages do. -/
theorem formatEntry_agree {parser parser' : MessageParser} {m m' : ExtractedMessage} {id : String}
    (hoist : Hoister)
    (h : Agree (m.source.toMessage parser id) (m'.source.toMessage parser' id))
    (hdescription : m.description = m'.description) :
    Agree (formatEntry parser hoist id m).outcome (formatEntry parser' hoist id m').outcome := by
  rw [formatEntry, formatEntry, hdescription]
  cases hx : m.source.toMessage parser id with
  | error e =>
    cases hy : m'.source.toMessage parser' id with
    | error e' => exact .error e e'
    | ok message =>
      rw [hx, hy] at h
      cases h
  | ok message =>
    cases hy : m'.source.toMessage parser' id with
    | error e =>
      rw [hx, hy] at h
      cases h
    | ok message' =>
      rw [hx, hy] at h
      cases h
      exact .ok _

/-- A text without repeated names is as good a source as its value: as messages they agree, they
are refused for the same faults of the message, and any entry made of one can be made of the
other. -/
theorem text_agree_tree {text : String} {v : Json} (hv : Json.ofText text = .ok v)
    (hnames : Json.NamesDistinct text) :
    Agree (Message.ofText text) (Message.ofJson v) ∧
      (∀ e : ElementError, (∀ fault, e ≠ .unreadable fault) →
        (Message.ofText text = .error e ↔ Message.ofJson v = .error e)) ∧
      ∀ (parser : MessageParser) (hoist : Hoister) (id : String) (description : Option Json),
        Agree (formatEntry .elements hoist id ⟨.text text, description⟩).outcome
          (formatEntry parser hoist id ⟨.tree v, description⟩).outcome := by
  have hraw := hnames.rawOfText_eq hv
  have hmessage := Message.ofText_agree_of_rawOfText hraw
  refine ⟨hmessage, fun e he => Message.ofText_eq_error_iff hraw he, ?_⟩
  intro parser hoist id description
  refine formatEntry_agree hoist ?_ rfl
  exact ((hmessage.mapError_left _).mapError_left _).mapError_right _

/-- An element that is written as an array, around one with a name that no element has. -/
def Message.mixedTree : Json :=
  .array [.array [.number (.ofUInt8 8), .string "b", .null, .null, .null, .null,
    .array [.object [("x", .array [.bool true]), ("value", .string "n"), ("style", .string "s"),
      ("type", .number (.ofUInt8 2))]]]]

theorem text_agree_tree_mixedTree :
    Json.ofText Message.mixedTree.compact = .ok Message.mixedTree ∧
      Json.NamesDistinct Message.mixedTree.compact ∧
      Agree (Message.ofText Message.mixedTree.compact) (Message.ofJson Message.mixedTree) ∧
      (Message.ofJson Message.mixedTree).toOption =
        some [.tag "b" [.formatted .number "n" (some (.text "s"))]] := by
  have hintegral : Message.mixedTree.Integral := by
    simp [Message.mixedTree, Json.Integral, Json.IntegralItems, Json.IntegralMembers,
      Json.Number.IsInt, Json.Number.ofUInt8]
  have hdistinct : Message.mixedTree.Distinct := by
    simp [Message.mixedTree, Json.Distinct, Json.DistinctItems, Json.DistinctMembers, Keyed.keys]
  have hraw := Json.rawOfText_render hintegral (by decide) .compact
  have hnames : Json.NamesDistinct Message.mixedTree.compact := ⟨_, hraw, hdistinct⟩
  have hv : Json.ofText Message.mixedTree.compact = .ok Message.mixedTree := by
    rw [Json.compact, Json.ofText_of_rawOfText hraw, Json.settle_of_distinct _ hdistinct]
  exact ⟨hv, hnames, (text_agree_tree hv hnames).1, by decide +kernel⟩

end MessageFormat
