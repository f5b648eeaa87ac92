import MessageFormat.Json.Draft.Read
import MessageFormat.Proofs.Agree

/-!
# Values without repeated names

A value in which no object has a name twice is settled: reading it keeps every member where it is.
A text has no repeated names if the value that it is read as, repetitions kept, has none.
-/

namespace MessageFormat

theorem Keyed.foldl_set {κ α : Type} [DecidableEq κ] {pairs es : Keyed κ α}
    (h : (keys (es ++ pairs)).Nodup) :
    pairs.foldl (fun es p => set p.1 p.2 es) es = es ++ pairs := by
  induction pairs generalizing es with
  | nil => simp
  | cons p pairs ih =>
    have hmem : p.1 ∉ keys es := by
      rw [keys, List.map_append, List.map_cons] at h
      intro hp
      exact (List.nodup_append.1 h).2.2 _ hp _ List.mem_cons_self rfl
    rw [List.foldl_cons, set_of_not_mem _ hmem, ih]
    · simp
    · simpa using h

theorem Keyed.ofList_of_nodup {κ α : Type} [DecidableEq κ] {pairs : List (κ × α)}
    (h : (keys pairs).Nodup) : ofList pairs = pairs := by
  have hpairs : (keys ([] ++ pairs)).Nodup := h
  exact foldl_set hpairs

namespace Json

mutual

/-- No object in a value has a name twice. -/
def Distinct : Json → Prop
  | .array items => DistinctItems items
  | .object members => (Keyed.keys members).Nodup ∧ DistinctMembers members
  | _ => True
termination_by structural j => j

def DistinctItems : List Json → Prop
  | [] => True
  | item :: items => item.Distinct ∧ DistinctItems items
termination_by structural items => items

def DistinctMembers : List (String × Json) → Prop
  | [] => True
  | (_, value) :: members => value.Distinct ∧ DistinctMembers members
termination_by structural members => members

end

theorem distinctItems_iff {items : List Json} :
    DistinctItems items ↔ ∀ item ∈ items, item.Distinct := by
  induction items with
  | nil => simp [DistinctItems]
  | cons item items ih => simp [DistinctItems, ih]

theorem distinctMembers_iff {members : List (String × Json)} :
    DistinctMembers members ↔ ∀ m ∈ members, m.2.Distinct := by
  induction members with
  | nil => simp [DistinctMembers]
  | cons m members ih => simp [DistinctMembers, ih]

theorem Distinct.item {items : List Json} (h : (Json.array items).Distinct) {item : Json}
    (hitem : item ∈ items) : item.Distinct :=
  distinctItems_iff.1 h item hitem

theorem Distinct.nodup {members : List (String × Json)} (h : (Json.object members).Distinct) :
    (Keyed.keys members).Nodup :=
  h.1

theorem Distinct.member {members : List (String × Json)} (h : (Json.object members).Distinct)
    {key : String} {j : Json} (hj : (key, j) ∈ members) : j.Distinct :=
  distinctMembers_iff.1 h.2 _ hj

mutual

theorem settle_of_distinct (j : Json) (h : j.Distinct) : j.settle = j := by
  cases j with
  | array items => rw [settle, settleItems_of_distinct items h]
  | object members =>
    rw [settle, settleMembers_of_distinct members h.2, Keyed.ofList_of_nodup h.1]
  | _ => rfl
termination_by structural j

theorem settleItems_of_distinct (items : List Json) (h : DistinctItems items) :
    settleItems items = items := by
  cases items with
  | nil => rfl
  | cons item items =>
    rw [settleItems, settle_of_distinct item h.1, settleItems_of_distinct items h.2]
termination_by structural items

theorem settleMembers_of_distinct (members : List (String × Json)) (h : DistinctMembers members) :
    settleMembers members = members := by
  cases members with
  | nil => rfl
  | cons member members =>
    rw [settleMembers, settle_of_distinct member.2 h.1, settleMembers_of_distinct members h.2]
termination_by structural members

end

/-! ### Texts -/

/-- The value of a text with repeated names kept. -/
def rawOfText (text : String) : Except ReadError Json :=
  readDocument (fun d => (d.read maxDepth).mapError .syntaxFault) text

/-- No object of a text that can be read has a name twice. -/
def NamesDistinct (text : String) : Prop :=
  ∃ j, rawOfText text = .ok j ∧ j.Distinct

/-- A text is read if its first value is and nothing comes after that. -/
theorem readDocument_eq_ok {α : Type} {read : Draft → Except ReadError α} {text : String} {a : α} :
    readDocument read text = .ok a ↔
      read (Document.scan text).root = .ok a ∧ skipSpace (Document.scan text).rest = [] := by
  rw [readDocument, bind_eq_ok]
  constructor
  · rintro ⟨b, hb, hrest⟩
    split at hrest
    · next hnil =>
      cases hrest
      exact ⟨hb, hnil⟩
    · cases hrest
  · rintro ⟨ha, hnil⟩
    exact ⟨a, ha, by rw [hnil]; rfl⟩

theorem readDocument_of_rest {α : Type} (read : Draft → Except ReadError α) {text : String}
    (h : skipSpace (Document.scan text).rest = []) :
    readDocument read text = read (Document.scan text).root := by
  unfold readDocument
  dsimp only
  rw [h]
  cases read (Document.scan text).root with
  | error e => rfl
  | ok a => rfl

theorem rawOfText_eq_ok {text : String} {j : Json} :
    rawOfText text = .ok j ↔
      (Document.scan text).root.read maxDepth = .ok j ∧
        skipSpace (Document.scan text).rest = [] := by
  rw [rawOfText, readDocument_eq_ok, mapError_eq_ok]

/-- The value of a text is the settled form of what stands there. -/
theorem ofText_of_rawOfText {text : String} {j : Json} (h : rawOfText text = .ok j) :
    ofText text = .ok j.settle := by
  obtain ⟨hread, hrest⟩ := rawOfText_eq_ok.1 h
  rw [ofText, readDocument_eq_ok]
  exact ⟨by rw [Draft.readValue, hread]; rfl, hrest⟩

/-- A text without repeated names is read as its value without any repetition to resolve. -/
theorem NamesDistinct.rawOfText_eq {text : String} {v : Json} (h : NamesDistinct text)
    (hv : ofText text = .ok v) : rawOfText text = .ok v := by
  obtain ⟨j, hj, hdistinct⟩ := h
  rw [ofText_of_rawOfText hj, settle_of_distinct j hdistinct] at hv
  cases hv
  exact hj

end Json

end MessageFormat
