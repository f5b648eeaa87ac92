import MessageFormat.Catalog.Format
import MessageFormat.Proofs.Json.Assembly
import MessageFormat.Proofs.Json.Inversion

/-!
# Formatting and printing agree

The same trees can be given to both commands: to printing as they stand under their ids, to
formatting as the sources of messages. Reading them takes two ways and so does going through them,
but either both fail with the same error or the entries of the one are the texts of the other.
-/

namespace MessageFormat

open Json (Document Draft Lexeme ReadError lexemeOf)

/-! ### Other values under the same keys -/

namespace Keyed

variable {κ α β : Type}

def mapValues (f : α → β) (es : Keyed κ α) : Keyed κ β :=
  es.map fun e => (e.1, f e.2)

theorem set_mapValues [DecidableEq κ] (f : α → β) (key : κ) (value : α) (es : Keyed κ α) :
    set key (f value) (mapValues f es) = mapValues f (set key value es) := by
  induction es with
  | nil => rfl
  | cons e es ih =>
    rw [mapValues, List.map_cons, set, set]
    by_cases he : e.1 = key
    · rw [if_pos he, if_pos he]
      rfl
    · rw [if_neg he, if_neg he, ← mapValues, ih]
      rfl

end Keyed

namespace Catalog

variable {α β : Type}

def map (f : α → β) (c : Catalog α) : Catalog β where
  entries := Keyed.mapValues f c.entries
  sorted := List.pairwise_map.2 c.sorted

theorem insertSorted_mapValues (f : α → β) (id : String) (value : α) (es : List (String × α)) :
    insertSorted id (f value) (Keyed.mapValues f es) =
      Keyed.mapValues f (insertSorted id value es) := by
  induction es with
  | nil => rfl
  | cons e es ih =>
    rw [Keyed.mapValues, List.map_cons, insertSorted, insertSorted]
    by_cases hlt : id < e.1
    · rw [if_pos hlt, if_pos hlt]
      rfl
    · rw [if_neg hlt, if_neg hlt]
      by_cases heq : id = e.1
      · rw [if_pos heq, if_pos heq]
        rfl
      · rw [if_neg heq, if_neg heq, ← Keyed.mapValues, ih]
        rfl

theorem insert_map (f : α → β) (c : Catalog α) (id : String) (value : α) :
    (c.map f).insert id (f value) = (c.insert id value).map f :=
  ext (insertSorted_mapValues f id value c.entries)

end Catalog

/-! ### Reading -/

/-- Members whose values differ by a function make results that differ by a function. -/
theorem Json.readNamed_map {ι α α' β β' : Type} {put : β → String → α → β}
    {put' : β' → String → α' → β'} {readOne : Nat → Draft → Except ReadError α}
    {readOne' : Nat → Draft → Except ReadError α'} {depth : Nat} (flaw : Option Flaw) (F : β' → β)
    (f : α' → α) (hput : ∀ all key one, put (F all) key (f one) = F (put' all key one))
    {key : ι → Lexeme} {d d' : ι → Draft} {pairs : List ι}
    (hread : ∀ p ∈ pairs, readOne depth (d p) = (readOne' depth (d' p)).map f) (start : β') :
    readNamed put readOne depth flaw (F start) (pairs.map fun p => (key p, d p)) =
      (readNamed put' readOne' depth flaw start (pairs.map fun p => (key p, d' p))).map F := by
  induction pairs generalizing start with
  | nil => cases flaw <;> rfl
  | cons p pairs ih =>
    rw [List.map_cons, List.map_cons, readNamed, readNamed, hread p List.mem_cons_self]
    cases (key p).read with
    | error fault => rfl
    | ok name =>
      rw [mapError_ok, ok_bind, ok_bind]
      cases readOne' depth (d' p) with
      | error e => rfl
      | ok one =>
        change readNamed put readOne depth flaw (put (F start) name (f one)) _ = _
        rw [hput, ih (fun p hp => hread p (List.mem_cons_of_mem _ hp))]
        rfl

theorem Json.settle_eq_string {j : Json} {s : String} (h : j.settle = .string s) :
    j = .string s := by
  cases j with
  | string t => exact h
  | _ => cases h

theorem Json.Draft.readValue_ne_string {d : Draft} (h : ∀ s, d ≠ .string s) {depth : Nat}
    {s : String} : d.readValue depth ≠ .ok (.string s) := by
  intro hread
  obtain ⟨j, hj, hsettle⟩ := map_eq_ok.1 (mapError_eq_ok.1 hread)
  rw [Json.settle_eq_string hsettle] at hj
  cases holds_of_read hj with
  | string hs => exact h _ rfl

namespace ExtractedMessage

/-- The message of a tree without a description. -/
def ofTree (tree : Json) : ExtractedMessage :=
  ⟨.tree tree, none⟩

theorem readSource_of_ne_string {d : Draft} (h : ∀ s, d ≠ .string s) (depth : Nat) :
    readSource depth d = (d.readValue depth).map .tree := by
  rw [readSource]
  cases hd : d.readValue depth with
  | error e => rfl
  | ok j =>
    cases j with
    | string s => exact absurd hd (Draft.readValue_ne_string h)
    | _ => rfl

theorem read_source {d : Draft} (h : ∀ s, d ≠ .string s) (depth : Nat) :
    read (depth + 1) (.object [(lexemeOf "defaultMessage", d)] none) =
      (d.readValue depth).map ofTree := by
  have hname : (lexemeOf "defaultMessage").read = .ok reader.first := Json.read_lexemeOf _
  have hfirst : reader.readFirst depth d = (d.readValue depth).map .tree :=
    readSource_of_ne_string h depth
  rw [read, Json.PairReader.read, Json.PairReader.readMembers, hname, mapError_ok, ok_bind,
    if_pos rfl, Option.isSome_none, if_neg Bool.false_ne_true, hfirst]
  cases d.readValue depth with
  | error e => rfl
  | ok j => rfl

end ExtractedMessage

/-! ### Going through what was read -/

theorem Report.collect_map {α α' β β' : Type} {step : String → α → Report β}
    {step' : String → α' → Report β'} {failure failure' : String → CatalogError → List Event}
    {finish finish' : Nat → Event} (f : α' → α) (k : β' → β)
    (hstep : ∀ id a, (step id (f a)).outcome = (step' id a).outcome.map k) (c : Catalog β')
    (pairs : List (String × α')) :
    (collect step failure finish (c.map k) (Keyed.mapValues f pairs)).outcome =
      (collect step' failure' finish' c pairs).outcome.map (Catalog.map k) := by
  induction pairs generalizing c with
  | nil => rfl
  | cons p pairs ih =>
    obtain ⟨id, a⟩ := p
    have hone := hstep id a
    rw [Keyed.mapValues, List.map_cons, collect, collect]
    cases hs : step id (f a) with
    | mk outcome events =>
      cases hs' : step' id a with
      | mk outcome' events' =>
        rw [hs, hs'] at hone
        dsimp only at hone
        cases outcome' with
        | error error =>
          subst hone
          rfl
        | ok b =>
          subst hone
          change (collect step failure finish ((c.map k).insert id (k b)) _).outcome = _
          rw [Catalog.insert_map, ← Keyed.mapValues, ih]

/-- The entry of a text without a description. -/
def CatalogEntry.ofMessage (message : String) : CatalogEntry :=
  ⟨message, none⟩

theorem formatEntry_ofTree (parser : MessageParser) (id : String) (tree : Json) :
    (formatEntry parser Hoister.unchanged id (.ofTree tree)).outcome =
      (printTree id tree).outcome.map CatalogEntry.ofMessage := by
  rw [formatEntry, printTree, ExtractedMessage.ofTree, MessageSource.toMessage]
  cases Message.ofJson tree with
  | error e => rfl
  | ok message => rfl

/-! ### Texts -/

/-- The catalog that formatting makes of a text. -/
def formatText (text : String) : Except CatalogError (Catalog CatalogEntry) := do
  let messages ← (ExtractedMessage.ofText text).mapError .unreadable
  (formatCatalog MessageParser.unsupported Hoister.unchanged messages).outcome

/-- The catalog that printing makes of a text. -/
def printText (text : String) : Except CatalogError (Catalog String) := do
  let trees ← (readTrees text).mapError .unreadable
  (printTrees trees).outcome

namespace Json

def Draft.isString : Draft → Bool
  | .string _ => true
  | _ => false

/-- A text is a value, but no string, in which at most so many containers lie around each other. -/
structure IsTree (depth : Nat) (text : String) : Prop where
  isValue : IsValue text
  not_string : (Document.scan text).root.isString = false
  depth_le : (Document.scan text).root.depth ≤ depth

instance (depth : Nat) (text : String) : Decidable (IsTree depth text) :=
  decidable_of_iff (IsValue text ∧ (Document.scan text).root.isString = false ∧
      (Document.scan text).root.depth ≤ depth)
    ⟨fun h => ⟨h.1, h.2.1, h.2.2⟩, fun h => ⟨h.isValue, h.not_string, h.depth_le⟩⟩

theorem IsTree.ne_string {depth : Nat} {text : String} (h : IsTree depth text) (s : Lexeme) :
    (Document.scan text).root ≠ .string s := by
  intro hs
  have hstring := h.not_string
  rw [hs] at hstring
  cases hstring

/-- The text of an extraction, given those of the trees of its messages. -/
def extractionText (trees : List (String × String)) : String :=
  objectText (trees.map fun p => (p.1, objectText [("defaultMessage", p.2)]))

/-- The draft of the record of a tree. -/
def recordDraft (tree : String) : Draft :=
  .object [(lexemeOf "defaultMessage", (Document.scan tree).root)] none

end Json

theorem ofText_extractionText {trees : List (String × String)}
    (h : ∀ p ∈ trees, Json.IsTree 125 p.2) :
    ExtractedMessage.ofText (Json.extractionText trees) =
      (readTrees (Json.objectText trees)).map (Keyed.mapValues ExtractedMessage.ofTree) := by
  have hsource : ∀ p ∈ trees, ∀ m ∈ [("defaultMessage", p.2)], Json.IsValue m.2 := by
    intro p hp m hm
    rw [List.mem_singleton.1 hm]
    exact (h p hp).isValue
  have hrecords : ∀ m ∈ trees.map fun p => (p.1, Json.objectText [("defaultMessage", p.2)]),
      Json.IsValue m.2 := by
    intro m hm
    obtain ⟨p, hp, rfl⟩ := List.mem_map.1 hm
    exact Json.isValue_objectText (hsource p hp)
  have hdrafts : (trees.map fun p => (p.1, Json.objectText [("defaultMessage", p.2)])).map
      Json.memberDraft = trees.map fun p => (lexemeOf p.1, Json.recordDraft p.2) := by
    rw [List.map_map]
    apply List.map_congr_left
    intro p hp
    rw [Function.comp_apply, Json.memberDraft, Json.scan_objectText (hsource p hp)]
    rfl
  have hread : ∀ p ∈ trees, ExtractedMessage.read (Json.maxDepth - 1) (Json.recordDraft p.2) =
      ((Document.scan p.2).root.readValue (Json.maxDepth - 1)).map ExtractedMessage.ofTree := by
    intro p hp
    have htree := h p hp
    have hdepth : (Document.scan p.2).root.read 125 =
        (Document.scan p.2).root.read (Json.maxDepth - 1) :=
      Draft.read_eq_read _ htree.depth_le (Nat.le_trans htree.depth_le (by decide))
    rw [Draft.readValue, ← hdepth]
    exact ExtractedMessage.read_source htree.ne_string 125
  rw [ExtractedMessage.ofText, readTrees, Json.extractionText, Json.readObject_objectText _ _ _
    hrecords, Json.readObject_objectText _ _ _ fun p hp => (h p hp).isValue, hdrafts]
  refine Json.readNamed_map none (Keyed.mapValues ExtractedMessage.ofTree)
    ExtractedMessage.ofTree ?_ hread []
  intro all key one
  exact Keyed.set_mapValues ExtractedMessage.ofTree key one all

/-- Formatting the trees of an extraction makes entries of the texts that printing makes of them, or
fails for the same reason. -/
theorem formatText_eq_printText {trees : List (String × String)}
    (h : ∀ p ∈ trees, Json.IsTree 125 p.2) :
    formatText (Json.extractionText trees) =
      (printText (Json.objectText trees)).map (Catalog.map CatalogEntry.ofMessage) := by
  rw [formatText, printText, ofText_extractionText h]
  cases readTrees (Json.objectText trees) with
  | error e => rfl
  | ok js =>
    exact Report.collect_map ExtractedMessage.ofTree CatalogEntry.ofMessage
      (formatEntry_ofTree MessageParser.unsupported) Catalog.empty js

/-- A tree with blanks, an escaped character and a name that is repeated, and an empty one. -/
def repeatedName : List (String × String) :=
  [("b", " [\x7b\"type\": 8, \"type\": 0, \"value\": \"\\u00e9\"\x7d]\n"), ("a", "[]")]

theorem formatText_eq_printText_repeatedName :
    (∀ p ∈ repeatedName, Json.IsTree 125 p.2) ∧
      formatText (Json.extractionText repeatedName) =
        (printText (Json.objectText repeatedName)).map (Catalog.map CatalogEntry.ofMessage) ∧
      (printText (Json.objectText repeatedName)).toOption.map Catalog.entries =
        some [("a", ""), ("b", "é")] := by
  have htrees : ∀ p ∈ repeatedName, Json.IsTree 125 p.2 := by decide +kernel
  exact ⟨htrees, formatText_eq_printText htrees, by decide +kernel⟩

end MessageFormat
