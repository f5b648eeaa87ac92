import MessageFormat.Element.Node
import MessageFormat.Proofs.Json.Distinct
import MessageFormat.Proofs.Json.Inversion

/-!
# Elements of a text and of its value

Elements are read from the draft of a text or from the value that the draft is read as. Where the
draft can be read as a value, both ways agree: they fail together, or they give the same elements.
-/

namespace MessageFormat.Element

open Json (Draft Flaw Lexeme)

theorem readStyle_agree {depth : Nat} {d : Draft} {j : Json} (h : d.read depth = .ok j) :
    Agree (readStyle depth d) (styleOf j) := by
  rw [readStyle, h, styleOf, mapError_ok, ok_bind]
  cases ElementStyle.ofJson? j with
  | none => exact .error _ _
  | some style => exact .ok style

mutual

theorem read_agree (d : Draft) {depth : Nat} {j : Json} (h : d.read depth = .ok j) :
    Agree (read depth d) (ofJson j) := by
  cases Draft.holds_of_read h with
  | array hitems => exact readItems_agree _ hitems _ _ _
  | object hmembers => exact readMembers_agree _ hmembers _ _
  | _ => exact .error _ _
termination_by structural d

theorem readMembers_agree (members : List (Lexeme × Draft)) {depth : Nat} {flaw : Option Flaw}
    {js : List (String × Json)} (h : Draft.readMembers depth flaw members = .ok js)
    (seen : List Field) (e : Element) :
    Agree (readMembers depth flaw seen e members) (ofMembers seen e js) := by
  cases members with
  | nil =>
    obtain ⟨rfl, rfl⟩ := Draft.readEnd_ok h
    rw [readMembers, ofMembers, Json.readEnd, mapError_ok, ok_bind]
    by_cases htype : Field.type ∈ seen
    · rw [if_pos htype, if_pos htype]
      exact .ok e
    · rw [if_neg htype, if_neg htype]
      exact .error _ _
  | cons member members =>
    obtain ⟨key, value⟩ := member
    obtain ⟨k, j, js, hk, hj, hjs, rfl⟩ := Draft.readMembers_cons h
    rw [readMembers, ofMembers, hk, mapError_ok, ok_bind]
    cases Field.ofName? k with
    | none =>
      dsimp only
      rw [Draft.skip_of_read value hj, mapError_ok, ok_bind]
      exact readMembers_agree members hjs seen e
    | some f =>
      dsimp only
      by_cases hseen : f ∈ seen
      · rw [if_pos hseen, if_pos hseen]
        exact .error _ _
      · rw [if_neg hseen, if_neg hseen]
        exact (readField_agree value hj f e).bind fun e' =>
          readMembers_agree members hjs (f :: seen) e'
termination_by structural members

theorem readItems_agree (items : List Draft) {depth : Nat} {flaw : Option Flaw} {js : List Json}
    (h : Draft.readItems depth flaw items = .ok js) (count : Nat) (fields : List Field)
    (e : Element) : Agree (readItems depth flaw fields e items) (ofItems count fields e js) := by
  cases items with
  | nil =>
    obtain ⟨rfl, rfl⟩ := Draft.readEnd_ok h
    cases fields with
    | nil => exact .ok e
    | cons f fields => exact .error _ _
  | cons item items =>
    obtain ⟨j, js, hj, hjs, rfl⟩ := Draft.readItems_cons h
    cases fields with
    | nil => exact .error _ _
    | cons f fields =>
      exact (readField_agree item hj f e).bind fun e' => readItems_agree items hjs count fields e'
termination_by structural items

theorem readField_agree (d : Draft) {depth : Nat} {j : Json} (h : d.read depth = .ok j) (f : Field)
    (e : Element) : Agree (readField depth f e d) (withField f e j) := by
  cases f with
  | type =>
    rw [readField, withField]
    exact (Draft.readByte_agree h).bind fun _ => .ok _
  | value =>
    rw [readField, withField]
    exact (Draft.readOptional_agree h (Draft.readText_agree h)).bind fun _ => .ok _
  | style =>
    rw [readField, withField]
    exact (Draft.readOptional_agree h (readStyle_agree h)).bind fun _ => .ok _
  | offset =>
    rw [readField, withField]
    exact (Draft.readOptional_agree h (Draft.readWord_agree h)).bind fun _ => .ok _
  | pluralType =>
    rw [readField, withField]
    exact (Draft.readOptional_agree h (Draft.readText_agree h)).bind fun _ => .ok _
  | options =>
    cases Draft.holds_of_read h with
    | null => exact .ok _
    | object hmembers => exact (readBranches_agree _ hmembers []).bind fun _ => .ok _
    | _ => exact .error _ _
  | children =>
    cases Draft.holds_of_read h with
    | null => exact .ok _
    | array hitems => exact (readList_agree _ hitems).bind fun _ => .ok _
    | _ => exact .error _ _
termination_by structural d

theorem readBranches_agree (members : List (Lexeme × Draft)) {depth : Nat} {flaw : Option Flaw}
    {js : List (String × Json)} (h : Draft.readMembers depth flaw members = .ok js)
    (branches : Members (List Element)) :
    Agree (readBranches depth flaw branches members) (ofBranches branches js) := by
  cases members with
  | nil =>
    obtain ⟨rfl, rfl⟩ := Draft.readEnd_ok h
    exact .ok branches
  | cons member members =>
    obtain ⟨key, value⟩ := member
    obtain ⟨k, j, js, hk, hj, hjs, rfl⟩ := Draft.readMembers_cons h
    rw [readBranches, ofBranches, hk]
    exact (readBranch_agree value hj).bind fun _ => readBranches_agree members hjs _
termination_by structural members

theorem readBranch_agree (d : Draft) {depth : Nat} {j : Json} (h : d.read depth = .ok j) :
    Agree (readBranch depth d) (ofBranch j) := by
  cases Draft.holds_of_read h with
  | @array _ items flaw js hitems =>
    cases items with
    | nil =>
      obtain ⟨rfl, rfl⟩ := Draft.readEnd_ok hitems
      exact .error _ _
    | cons item items =>
      obtain ⟨j, js, hj, hjs, rfl⟩ := Draft.readItems_cons hitems
      rw [readBranch, ofBranch]
      refine (readBody_agree item hj).bind fun body => ?_
      cases items with
      | nil =>
        obtain ⟨rfl, rfl⟩ := Draft.readEnd_ok hjs
        exact .ok body
      | cons next items =>
        obtain ⟨j', js', -, -, rfl⟩ := Draft.readItems_cons hjs
        exact .error _ _
  | object hmembers => exact readBranchMembers_agree _ hmembers none
  | _ => exact .error _ _
termination_by structural d

theorem readBranchMembers_agree (members : List (Lexeme × Draft)) {depth : Nat}
    {flaw : Option Flaw} {js : List (String × Json)}
    (h : Draft.readMembers depth flaw members = .ok js) (body : Option (List Element)) :
    Agree (readBranchMembers depth flaw body members) (ofBranchMembers body js) := by
  cases members with
  | nil =>
    obtain ⟨rfl, rfl⟩ := Draft.readEnd_ok h
    cases body with
    | none => exact .error _ _
    | some body => exact .ok body
  | cons member members =>
    obtain ⟨key, value⟩ := member
    obtain ⟨k, j, js, hk, hj, hjs, rfl⟩ := Draft.readMembers_cons h
    rw [readBranchMembers.eq_def, ofBranchMembers.eq_def]
    dsimp only
    rw [hk, mapError_ok, ok_bind]
    by_cases hvalue : k = "value"
    · rw [if_pos hvalue, if_pos hvalue]
      cases body with
      | some body => exact .error _ _
      | none =>
        exact (readBody_agree value hj).bind fun body => readBranchMembers_agree members hjs body
    · rw [if_neg hvalue, if_neg hvalue, Draft.skip_of_read value hj, mapError_ok, ok_bind]
      exact readBranchMembers_agree members hjs body
termination_by structural members

theorem readBody_agree (d : Draft) {depth : Nat} {j : Json} (h : d.read depth = .ok j) :
    Agree (readBody depth d) (ofBody j) := by
  cases Draft.holds_of_read h with
  | array hitems => exact readList_agree _ hitems
  | _ => exact .error _ _
termination_by structural d

theorem readList_agree (items : List Draft) {depth : Nat} {flaw : Option Flaw} {js : List Json}
    (h : Draft.readItems depth flaw items = .ok js) :
    Agree (readList depth flaw items) (ofList js) := by
  cases items with
  | nil =>
    obtain ⟨rfl, rfl⟩ := Draft.readEnd_ok h
    exact .ok []
  | cons item items =>
    obtain ⟨j, js, hj, hjs, rfl⟩ := Draft.readItems_cons h
    exact (read_agree item hj).bind fun _ => (readList_agree items hjs).bind fun _ => .ok _
termination_by structural items

end

/-! ### Texts -/

theorem readBody_agree_of_rawOfText {text : String} {j : Json} (h : Json.rawOfText text = .ok j) :
    Agree (Json.readDocument (readBody Json.maxDepth) text) (ofBody j) := by
  obtain ⟨hread, hrest⟩ := Json.rawOfText_eq_ok.1 h
  rw [Json.readDocument_of_rest _ hrest]
  exact readBody_agree _ hread

end MessageFormat.Element
