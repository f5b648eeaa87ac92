import MessageFormat.Json.Draft.Read
import MessageFormat.Json.Typed
import MessageFormat.Proofs.Agree

/-!
# Drafts that can be read

What can be said of a draft that was read as a value: its strings and numerals are those of the
value, nothing in it is flawed, and whoever only passes over it finds no fault.
-/

namespace MessageFormat.Json.Draft

theorem readEnd_ok {α : Type} {flaw : Option Flaw} {a b : α}
    (h : (readEnd flaw).map (fun _ => a) = .ok b) : flaw = none ∧ b = a := by
  cases flaw with
  | none =>
    cases h
    exact ⟨rfl, rfl⟩
  | some flaw => cases h

/-- What a draft looks like that is read as a given value. -/
inductive Holds : Nat → Draft → Json → Prop where
  | null {depth : Nat} : Holds depth .null .null
  | bool {depth : Nat} (b : Bool) : Holds depth (.bool b) (.bool b)
  | numeral {depth : Nat} {n : Numeral} {v : Number} (h : n.read = .ok v) :
    Holds depth (.numeral n) (.number v)
  | string {depth : Nat} {s : Lexeme} {t : String} (h : s.read = .ok t) :
    Holds depth (.string s) (.string t)
  | array {depth : Nat} {items : List Draft} {flaw : Option Flaw} {js : List Json}
    (h : readItems depth flaw items = .ok js) : Holds (depth + 1) (.array items flaw) (.array js)
  | object {depth : Nat} {members : List (Lexeme × Draft)} {flaw : Option Flaw}
    {js : List (String × Json)} (h : readMembers depth flaw members = .ok js) :
    Holds (depth + 1) (.object members flaw) (.object js)

theorem holds_of_read {depth : Nat} {d : Draft} {j : Json} (h : d.read depth = .ok j) :
    Holds depth d j := by
  cases d with
  | null =>
    cases h
    exact .null
  | bool b =>
    cases h
    exact .bool b
  | numeral n =>
    obtain ⟨v, hv, rfl⟩ := map_eq_ok.1 h
    exact .numeral hv
  | string s =>
    obtain ⟨t, ht, rfl⟩ := map_eq_ok.1 h
    exact .string ht
  | array items flaw =>
    cases depth with
    | zero => cases h
    | succ depth =>
      obtain ⟨js, hjs, rfl⟩ := map_eq_ok.1 h
      exact .array hjs
  | object members flaw =>
    cases depth with
    | zero => cases h
    | succ depth =>
      obtain ⟨js, hjs, rfl⟩ := map_eq_ok.1 h
      exact .object hjs
  | broken flaw => cases h

theorem readItems_cons {depth : Nat} {flaw : Option Flaw} {item : Draft} {items : List Draft}
    {js : List Json} (h : readItems depth flaw (item :: items) = .ok js) :
    ∃ j js', item.read depth = .ok j ∧ readItems depth flaw items = .ok js' ∧ js = j :: js' := by
  obtain ⟨j, hj, h⟩ := bind_eq_ok.1 h
  obtain ⟨js', hjs', h⟩ := bind_eq_ok.1 h
  cases h
  exact ⟨j, js', hj, hjs', rfl⟩

theorem readMembers_cons {depth : Nat} {flaw : Option Flaw} {key : Lexeme} {value : Draft}
    {members : List (Lexeme × Draft)} {js : List (String × Json)}
    (h : readMembers depth flaw ((key, value) :: members) = .ok js) :
    ∃ k j js', key.read = .ok k ∧ value.read depth = .ok j ∧
      readMembers depth flaw members = .ok js' ∧ js = (k, j) :: js' := by
  obtain ⟨k, hk, h⟩ := bind_eq_ok.1 h
  obtain ⟨j, hj, h⟩ := bind_eq_ok.1 h
  obtain ⟨js', hjs', h⟩ := bind_eq_ok.1 h
  cases h
  exact ⟨k, j, js', hk, hj, hjs', rfl⟩

/-! ### Passing over what can be read -/

theorem flaw_eq_none_of_readPieces {flaw : Option Flaw} {pieces : List Piece} {t : List Char}
    (h : readPieces flaw pieces = .ok t) : flaw = none := by
  fun_induction readPieces flaw pieces generalizing t
  case case1 hflaw => exact hflaw
  case case3 ih | case6 ih | case9 ih | case11 ih | case13 ih =>
    obtain ⟨u, hu, -⟩ := map_eq_ok.1 h
    exact ih hu
  all_goals cases h

theorem skip_of_read_lexeme {s : Lexeme} {t : String} (h : s.read = .ok t) : s.skip = .ok () := by
  obtain ⟨u, hu, -⟩ := map_eq_ok.1 h
  rw [Lexeme.skip, flaw_eq_none_of_readPieces hu]

mutual

theorem skip_of_read (d : Draft) {depth : Nat} {j : Json} (h : d.read depth = .ok j) :
    d.skip = .ok () := by
  cases holds_of_read h with
  | null => rfl
  | bool b => rfl
  | numeral hn => rfl
  | string hs => exact skip_of_read_lexeme hs
  | array hitems => exact skipItems_of_read _ hitems
  | object hmembers => exact skipMembers_of_read _ hmembers
termination_by structural d

theorem skipItems_of_read (items : List Draft) {depth : Nat} {flaw : Option Flaw}
    {js : List Json} (h : readItems depth flaw items = .ok js) : skipItems flaw items = .ok () := by
  cases items with
  | nil =>
    obtain ⟨rfl, -⟩ := readEnd_ok h
    rfl
  | cons item items =>
    obtain ⟨j, js', hj, hjs', -⟩ := readItems_cons h
    rw [skipItems, skip_of_read item hj]
    exact skipItems_of_read items hjs'
termination_by structural items

theorem skipMembers_of_read (members : List (Lexeme × Draft)) {depth : Nat} {flaw : Option Flaw}
    {js : List (String × Json)} (h : readMembers depth flaw members = .ok js) :
    skipMembers flaw members = .ok () := by
  cases members with
  | nil =>
    obtain ⟨rfl, -⟩ := readEnd_ok h
    rfl
  | cons member members =>
    obtain ⟨key, value⟩ := member
    obtain ⟨k, j, js', hk, hj, hjs', -⟩ := readMembers_cons h
    rw [skipMembers, skip_of_read_lexeme hk, skip_of_read value hj]
    exact skipMembers_of_read members hjs'
termination_by structural members

end

/-! ### Values of a given type -/

theorem readText_agree {depth : Nat} {d : Draft} {j : Json} (h : d.read depth = .ok j) :
    Agree d.readText j.asText := by
  cases holds_of_read h with
  | string hs =>
    rw [readText, hs]
    exact .ok _
  | _ => exact .error _ _

theorem readNat_agree {depth : Nat} {d : Draft} {j : Json} (h : d.read depth = .ok j)
    (wanted : Wanted) (bound : Nat) : Agree (d.readNat wanted bound) (j.asNat wanted bound) := by
  cases holds_of_read h with
  | @numeral _ _ v hn =>
    simp only [readNat, asNat, hn]
    cases v with
    | int i hi =>
      dsimp only
      split
      · exact .ok _
      · exact .error _ _
    | float x => exact .error _ _
  | _ => exact .error _ _

theorem readByte_agree {depth : Nat} {d : Draft} {j : Json} (h : d.read depth = .ok j) :
    Agree d.readByte j.asByte :=
  (readNat_agree h _ _).map _

theorem readWord_agree {depth : Nat} {d : Draft} {j : Json} (h : d.read depth = .ok j) :
    Agree d.readWord j.asWord :=
  (readNat_agree h _ _).map _

theorem readOptional_agree {α : Type} {depth : Nat} {d : Draft} {j : Json}
    {read : Draft → Except ReadError α} {as : Json → Except DataFault α}
    (h : d.read depth = .ok j) (hread : Agree (read d) (as j)) :
    Agree (d.readOptional read) (j.asOptional as) := by
  cases holds_of_read h with
  | null => exact .ok none
  | _ => exact hread.map some

end MessageFormat.Json.Draft
