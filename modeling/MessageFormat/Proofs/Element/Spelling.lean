import MessageFormat.Proofs.Element.Schema
import MessageFormat.Proofs.Element.Styles

/-!
# Records as objects and as arrays

A record may be an object or an array of its fields in their order. The array is read exactly as the
object that has its items under the names of the fields, faults included, so what is said of the
members of an object holds of every record, and nothing else is read as one.
-/

namespace MessageFormat

theorem Keyed.keys_zip_sublist {κ α : Type} (names : List κ) (items : List α) :
    (keys (names.zip items)).Sublist names := by
  induction names generalizing items with
  | nil => exact .slnil
  | cons name names ih =>
    cases items with
    | nil => exact List.nil_sublist _
    | cons item items => exact (ih items).cons_cons name

namespace Schema

/-- The names of the fields of a record, in the order of one that is written as an array. -/
def Position.names : Position → List String
  | .element => Element.Field.all.map Element.Field.name
  | .wrapper => ["value"]
  | .skeleton => ["type", "tokens", "pattern"]
  | .token => ["stem", "options"]

/-- How many items a record may have that is written as an array. -/
def Position.sizes : Position → List Nat
  | .element => [7]
  | .wrapper => [1]
  | .skeleton => [3]
  | .token => [1, 2]

/-- A value is a record with the given members. -/
inductive Spells (position : Position) : Json → Members Json → Prop
  | object (members : Members Json) : Spells position (.object members) members
  | array {items : List Json} (h : items.length ∈ position.sizes) :
    Spells position (.array items) (position.names.zip items)

theorem Position.nodup_names (position : Position) : position.names.Nodup := by
  cases position <;> decide

namespace Spells

variable {position : Position} {j : Json} {members : Members Json} {name : String} {x : Json}

theorem nodup (h : Spells position j members) (hdistinct : j.Distinct) :
    (Keyed.keys members).Nodup := by
  cases h with
  | object members => exact hdistinct.nodup
  | array h => exact position.nodup_names.sublist (Keyed.keys_zip_sublist _ _)

theorem distinct_member (h : Spells position j members) (hdistinct : j.Distinct)
    (hx : (name, x) ∈ members) : x.Distinct := by
  cases h with
  | object members => exact hdistinct.member hx
  | array h => exact hdistinct.item (List.of_mem_zip hx).2

theorem distinct (h : Spells position j members) (hdistinct : j.Distinct) :
    (Json.object members).Distinct :=
  ⟨h.nodup hdistinct, Json.distinctMembers_iff.2 fun _ hm => h.distinct_member hdistinct hm⟩

theorem sizeOf_lt (h : Spells position j members) (hx : (name, x) ∈ members) :
    sizeOf x < sizeOf j := by
  cases h with
  | object members => exact sizeOf_lt_of_mem hx
  | array h => exact sizeOf_lt_of_mem_items (List.of_mem_zip hx).2

end Spells

end Schema

open Schema (Position Spells)

variable {j : Json} {members : Members Json}

/-! ### Records of a style -/

namespace ElementStyle

theorem field?_cons_self {α : Type} {name : String} {missing : Option α} {read : Json → Option α}
    {x : Json} (h : name ∉ Keyed.keys members) :
    field? name missing read ((name, x) :: members) = read x := by
  have hfilter : members.filter (fun m => m.1 = name) = [] := by
    rw [List.filter_eq_nil_iff]
    intro m hm heq
    exact h (List.mem_map.2 ⟨m, hm, of_decide_eq_true heq⟩)
  rw [field?, unique?, List.filter_cons_of_pos (by simp), hfilter]
  rfl

theorem field?_append_cons_of_ne {α : Type} {a b : Members Json} {key name : String}
    (missing : Option α) (read : Json → Option α) {x : Json} (h : key ≠ name) :
    field? name missing read (a ++ (key, x) :: b) = field? name missing read (a ++ b) := by
  have hunique : unique? name (a ++ (key, x) :: b) = unique? name (a ++ b) := by
    simp [unique?, h]
  rw [field?, hunique, field?]

theorem field?_cons_of_ne {α : Type} {key name : String} (missing : Option α)
    (read : Json → Option α) {x : Json} (h : key ≠ name) :
    field? name missing read ((key, x) :: members) = field? name missing read members :=
  field?_append_cons_of_ne (a := []) missing read h

theorem token?_spells (h : Spells .token j members) : token? j = token? (.object members) := by
  cases h with
  | object members => rfl
  | @array items h =>
    rcases items with _ | ⟨stem, _ | ⟨options, _ | ⟨extra, items⟩⟩⟩
    · simp [Position.sizes] at h
    · simp only [Position.names, List.zip_cons_cons, List.zip_nil_right, token?]
      rw [field?_cons_self (by decide), field?_cons_of_ne _ _ (by decide)]
      cases text? stem <;> rfl
    · simp only [Position.names, List.zip_cons_cons, List.zip_nil_right, token?]
      rw [field?_cons_self (by simp [Keyed.keys]), field?_cons_of_ne _ _ (by decide),
        field?_cons_self (by simp [Keyed.keys])]
    · simp [Position.sizes] at h

theorem ofJson?_spells (h : Spells .skeleton j members) :
    ofJson? j = ofJson? (.object members) := by
  cases h with
  | object members => rfl
  | @array items h =>
    rcases items with _ | ⟨type, _ | ⟨tokens, _ | ⟨pattern, _ | ⟨extra, items⟩⟩⟩⟩
    case cons.cons.cons.nil =>
      simp only [Position.names, List.zip_cons_cons, List.zip_nil_right, ofJson?]
      rw [field?_cons_self (by simp [Keyed.keys]), field?_cons_of_ne _ _ (by decide),
        field?_cons_self (by simp [Keyed.keys]), field?_cons_of_ne _ _ (by decide),
        field?_cons_of_ne _ _ (by decide), field?_cons_self (by simp [Keyed.keys])]
    all_goals simp [Position.sizes] at h

theorem exists_spells_of_token? {token : SkeletonToken} (h : token? j = some token) :
    ∃ members, Spells .token j members := by
  unfold token? at h
  split at h
  · exact ⟨_, .object _⟩
  · exact ⟨_, .array (by simp [Position.sizes])⟩
  · exact ⟨_, .array (by simp [Position.sizes])⟩
  · cases h

/-- A style is text or a record. -/
theorem exists_spells_of_ofJson? {style : ElementStyle} (h : ofJson? j = some style) :
    (∃ s, j = .string s) ∨ ∃ members, Spells .skeleton j members := by
  unfold ofJson? at h
  split at h
  · exact .inl ⟨_, rfl⟩
  · exact .inr ⟨_, .object _⟩
  · exact .inr ⟨_, .array (by simp [Position.sizes])⟩
  · cases h

end ElementStyle

/-! ### Elements and the records around bodies -/

namespace Element

theorem ofItems_eq_ofMembers {count : Nat} {fields seen : List Field} {e : Element}
    {items : List Json} (hlength : items.length = fields.length) (hnodup : fields.Nodup)
    (hseen : ∀ f ∈ fields, f ∉ seen) (htype : .type ∈ seen ∨ .type ∈ fields) :
    ofItems count fields e items = ofMembers seen e ((fields.map Field.name).zip items) := by
  induction items generalizing fields seen e with
  | nil =>
    obtain rfl := List.eq_nil_of_length_eq_zero hlength.symm
    rw [List.zip_nil_right, ofMembers, if_pos (htype.resolve_right (by simp))]
    rfl
  | cons item items ih =>
    obtain ⟨f, fields, rfl⟩ := List.exists_cons_of_length_eq_add_one hlength.symm
    obtain ⟨hf, hfields⟩ := List.nodup_cons.1 hnodup
    rw [List.map_cons, List.zip_cons_cons, ofItems, ofMembers, Field.ofName?_name]
    dsimp only
    rw [if_neg (hseen f List.mem_cons_self)]
    refine congrArg (withField f e item >>= ·) (funext fun e' => ?_)
    refine ih (Nat.succ.inj hlength) hfields ?_ ?_
    · intro g hg hmem
      rcases List.mem_cons.1 hmem with rfl | hmem
      · exact hf hg
      · exact hseen g (List.mem_cons_of_mem _ hg) hmem
    · rcases htype with htype | htype
      · exact .inl (List.mem_cons_of_mem _ htype)
      · rcases List.mem_cons.1 htype with rfl | htype
        · exact .inl List.mem_cons_self
        · exact .inr htype

theorem length_of_ofItems {count : Nat} {fields : List Field} {e t : Element} {items : List Json}
    (h : ofItems count fields e items = .ok t) : items.length = fields.length := by
  induction items generalizing fields e with
  | nil =>
    rw [ofItems] at h
    split at h
    · next hempty =>
      rw [List.isEmpty_iff.1 hempty]
      rfl
    · cases h
  | cons item items ih =>
    cases fields with
    | nil => cases h
    | cons f fields =>
      rw [ofItems] at h
      obtain ⟨e', -, h⟩ := bind_eq_ok.1 h
      rw [List.length_cons, List.length_cons, ih h]

theorem ofJson_spells (h : Spells .element j members) : ofJson j = ofJson (.object members) := by
  cases h with
  | object members => rfl
  | array h =>
    rw [ofJson, ofJson]
    exact ofItems_eq_ofMembers (List.mem_singleton.1 h) (by decide) (by simp) (.inr (by decide))

theorem exists_spells_of_ofJson {e : Element} (h : ofJson j = .ok e) :
    ∃ members, Spells .element j members := by
  cases j with
  | object members => exact ⟨members, .object members⟩
  | array items =>
    rw [ofJson] at h
    exact ⟨_, .array (List.mem_singleton.2 (length_of_ofItems h))⟩
  | _ => cases h

theorem ofBranch_spells (h : Spells .wrapper j members) :
    ofBranch j = ofBranch (.object members) := by
  cases h with
  | object members => rfl
  | @array items h =>
    obtain ⟨body, rfl⟩ := List.length_eq_one_iff.1 (List.mem_singleton.1 h)
    rw [ofBranch]
    rfl

theorem exists_spells_of_ofBranch {es : List Element} (h : ofBranch j = .ok es) :
    ∃ members, Spells .wrapper j members := by
  cases j with
  | object members => exact ⟨members, .object members⟩
  | array items =>
    rcases items with _ | ⟨body, _ | ⟨extra, items⟩⟩
    · cases h
    · exact ⟨_, .array (by simp [Position.sizes])⟩
    · rw [ofBranch] at h
      obtain ⟨body, -, h⟩ := bind_eq_ok.1 h
      cases h
  | _ => cases h

end Element

end MessageFormat
