import MessageFormat.Catalog.Entry
import MessageFormat.Proofs.Json.RoundTrip

/-!
# Extracted messages are read back

Extracted messages are written as one object that holds a record under each id. Whoever reads a
text of it gets the same messages in the same order: a source stays a text or a tree, and a
description that is missing stays apart from one that is `null`. Only a tree that is a bare string
would come back as something else, as a text.
-/

namespace MessageFormat

open Json (Draft ReadError lexemeOf draftMembers)

theorem Json.readValue_draft {j : Json} (hintegral : j.Integral) (hdistinct : j.Distinct)
    {depth : Nat} (hdepth : j.depth ≤ depth) : j.draft.readValue depth = .ok j := by
  rw [Draft.readValue, read_draft j hintegral hdepth]
  change Except.ok j.settle = _
  rw [settle_of_distinct j hdistinct]

/-- Members are read one by one and each is put to those before it. -/
theorem Json.readNamed_draft_foldl {α β : Type} {write : α → Json} (put : β → String → α → β)
    {readOne : Nat → Draft → Except ReadError α} {depth : Nat} {pairs : Members α}
    (hread : ∀ p ∈ pairs, readOne depth (write p.2).draft = .ok p.2) (start : β) :
    readNamed put readOne depth none start (draftMembers (pairs.map fun p => (p.1, write p.2))) =
      .ok (pairs.foldl (fun all p => put all p.1 p.2) start) := by
  induction pairs generalizing start with
  | nil => rfl
  | cons p pairs ih =>
    obtain ⟨key, one⟩ := p
    have hone : readOne depth (write one).draft = .ok one := hread _ List.mem_cons_self
    rw [List.map_cons, draftMembers, readNamed, read_lexemeOf, mapError_ok, ok_bind, hone, ok_bind,
      ih (fun p hp => hread p (List.mem_cons_of_mem _ hp)), List.foldl_cons]

/-- Members with different names come back in their order, after those read before. -/
theorem Json.readNamed_draft {α : Type} {write : α → Json}
    {readOne : Nat → Draft → Except ReadError α} {depth : Nat} {pairs : Members α}
    (hread : ∀ p ∈ pairs, readOne depth (write p.2).draft = .ok p.2) (done : Members α)
    (hnodup : (Keyed.keys (done ++ pairs)).Nodup) :
    readNamed (fun all key one => Keyed.set key one all) readOne depth none done
      (draftMembers (pairs.map fun p => (p.1, write p.2))) = .ok (done ++ pairs) := by
  rw [readNamed_draft_foldl _ hread done, Keyed.foldl_set hnodup]

/-- A record is read back from an object of its two fields or of the first one alone. -/
theorem Json.PairReader.read_draft {α β : Type} (reader : PairReader α β)
    (hnames : reader.first ≠ reader.second) {depth : Nat} {a : α} {x : Json}
    (hfirst : reader.readFirst depth x.draft = .ok a) {b : Option β} (write : β → Json)
    (hsecond : ∀ y, b = some y → reader.readSecond depth (write y).draft = .ok y) :
    reader.read (depth + 1) (Json.object ((reader.first, x) ::
      (b.map fun y => (reader.second, write y)).toList)).draft = .ok (a, b) := by
  rw [draft, read, draftMembers, readMembers, read_lexemeOf, mapError_ok, ok_bind, if_pos rfl,
    Option.isSome_none, if_neg Bool.false_ne_true, hfirst, ok_bind]
  cases b with
  | none => rfl
  | some y =>
    rw [Option.map_some, Option.toList_some, draftMembers, readMembers, read_lexemeOf, mapError_ok,
      ok_bind, if_neg hnames.symm, if_pos rfl, Option.isSome_none, if_neg Bool.false_ne_true,
      hsecond y rfl, ok_bind]
    rfl

namespace ExtractedMessage

/-- What a text can hold of a message: values of integers without repeated names, and no tree that
is a bare string. -/
structure Representable (m : ExtractedMessage) : Prop where
  tree : ∀ j, m.source = .tree j → (∀ s, j ≠ .string s) ∧ j.Integral ∧ j.Distinct
  description : ∀ j, m.description = some j → j.Integral ∧ j.Distinct

/-- The messages of an extraction by their ids. -/
def membersJson (ms : Members ExtractedMessage) : Json :=
  .object (ms.map fun m => (m.1, m.2.toJson))

variable {m : ExtractedMessage}

theorem Representable.integral_sourceJson (h : m.Representable) :
    (sourceJson m.source).Integral := by
  cases hsource : m.source with
  | text t => trivial
  | tree j => exact (h.tree j hsource).2.1

theorem Representable.integral_toJson (h : m.Representable) : m.toJson.Integral := by
  rw [toJson, Json.Integral, Json.integralMembers_iff]
  intro member hmember
  rcases List.mem_cons.1 hmember with rfl | hmember
  · exact h.integral_sourceJson
  · cases hdescription : m.description with
    | none =>
      rw [hdescription] at hmember
      cases hmember
    | some j =>
      rw [hdescription] at hmember
      obtain rfl := List.mem_singleton.1 hmember
      exact (h.description j hdescription).1

theorem Representable.readSource_draft (h : m.Representable) {depth : Nat}
    (hdepth : (sourceJson m.source).depth ≤ depth) :
    readSource depth (sourceJson m.source).draft = .ok m.source := by
  cases hsource : m.source with
  | text t =>
    rw [sourceJson, readSource, Json.readValue_draft (by trivial) (by trivial) (Nat.zero_le _)]
    rfl
  | tree j =>
    obtain ⟨hstring, hintegral, hdistinct⟩ := h.tree j hsource
    rw [hsource] at hdepth
    rw [sourceJson, readSource, Json.readValue_draft hintegral hdistinct hdepth]
    cases j with
    | string s => exact absurd rfl (hstring s)
    | _ => rfl

theorem Representable.read_draft (h : m.Representable) {depth : Nat}
    (hdepth : m.toJson.depth ≤ depth) : read depth m.toJson.draft = .ok m := by
  rw [toJson, Json.depth, Json.membersDepth] at hdepth
  obtain ⟨depth, rfl⟩ := Nat.exists_eq_succ_of_ne_zero (by omega : depth ≠ 0)
  have hsource : readSource depth (sourceJson m.source).draft = .ok m.source :=
    h.readSource_draft (by omega)
  have hdescription : ∀ j, m.description = some j → j.draft.readValue depth = .ok j := by
    intro j hj
    obtain ⟨hintegral, hdistinct⟩ := h.description j hj
    rw [hj, Option.map_some, Option.toList_some, Json.membersDepth] at hdepth
    exact Json.readValue_draft hintegral hdistinct (by omega)
  have hread : reader.read (depth + 1) m.toJson.draft = .ok (m.source, m.description) :=
    reader.read_draft (by decide) hsource (fun j => j) hdescription
  rw [read, hread]
  rfl

theorem integral_membersJson {ms : Members ExtractedMessage} (h : ∀ m ∈ ms, m.2.Representable) :
    (membersJson ms).Integral := by
  rw [membersJson, Json.Integral, Json.integralMembers_iff]
  intro member hmember
  obtain ⟨m, hm, rfl⟩ := List.mem_map.1 hmember
  exact (h m hm).integral_toJson

theorem depth_le_membersDepth {ms : Members Json} {m : String × Json} (h : m ∈ ms) :
    m.2.depth ≤ Json.membersDepth ms := by
  induction ms with
  | nil => cases h
  | cons n ms ih =>
    rw [Json.membersDepth]
    rcases List.mem_cons.1 h with rfl | h
    · exact Nat.le_max_left _ _
    · exact Nat.le_trans (ih h) (Nat.le_max_right _ _)

/-- Extracted messages come back from any text of them that is not too deep to read, with their
ids in the same order. -/
theorem ofText_render {ms : Members ExtractedMessage} (hids : (Keyed.keys ms).Nodup)
    (hms : ∀ m ∈ ms, m.2.Representable) (hdepth : (membersJson ms).depth ≤ Json.maxDepth)
    (layout : Json.Layout) : ofText ((membersJson ms).render layout) = .ok ms := by
  have htext : ((membersJson ms).render layout).toList =
      Json.chars layout 0 (membersJson ms) ++ [] := by
    rw [Json.render, String.toList_ofList, List.append_nil]
  have hscan := Json.scan_text (integral_membersJson hms) htext fun c hc => by cases hc
  have hread : ∀ m ∈ ms, read (Json.maxDepth - 1) m.2.toJson.draft = .ok m.2 := by
    intro m hm
    have hle := depth_le_membersDepth (List.mem_map_of_mem (f := fun m => (m.1, m.2.toJson)) hm)
    rw [membersJson, Json.depth] at hdepth
    exact (hms m hm).read_draft (by dsimp only at hle; omega)
  rw [ofText, Json.readObject, Json.readDocument_eq_ok, hscan]
  exact ⟨Json.readNamed_draft hread [] hids, rfl⟩

/-- One message in text and one as a tree, with descriptions of two kinds and none. -/
def extraction : Members ExtractedMessage :=
  [("b", ⟨.text "\"{é}\n", some .null⟩),
    ("", ⟨.tree (.object [("b", .number (.int (-9223372036854775808) (by decide))),
      ("a", .array [])]), none⟩),
    ("a", ⟨.tree .null, some (.string "\\u0000")⟩)]

theorem ofText_render_extraction :
    (Keyed.keys extraction).Nodup ∧ (∀ m ∈ extraction, m.2.Representable) ∧
      (membersJson extraction).depth ≤ Json.maxDepth ∧
      ofText (membersJson extraction).compact = .ok extraction := by
  have hids : (Keyed.keys extraction).Nodup := by decide
  have hms : ∀ m ∈ extraction, m.2.Representable := by
    intro m hm
    simp only [extraction, List.mem_cons, List.not_mem_nil, or_false] at hm
    rcases hm with rfl | rfl | rfl <;> constructor <;> intro j hj <;> cases hj <;>
      simp [Json.Integral, Json.IntegralItems, Json.IntegralMembers, Json.Number.IsInt,
        Json.Distinct, Json.DistinctItems, Json.DistinctMembers, Keyed.keys]
  have hdepth : (membersJson extraction).depth ≤ Json.maxDepth := by decide
  exact ⟨hids, hms, hdepth, ofText_render hids hms hdepth .compact⟩

end ExtractedMessage

end MessageFormat
