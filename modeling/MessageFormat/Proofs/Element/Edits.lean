import Mathlib.Data.List.Perm.Basic
import Mathlib.Logic.Relation
import MessageFormat.Element.Node
import MessageFormat.Proofs.Element.Spelling

/-!
# Edits of a value that its message does not show

In any record of a value members with unknown names can be left out without a difference, and the
order of the members can be changed so that at most another fault is reported. An edit is made to
the members of one object; reading the same from that object is passed on from place to place, up
to the whole value. The branches of a block are no record, and their order does count.
-/

namespace MessageFormat

/-! ### Results that are alike -/

section

variable {ε α β : Type} {exact : Bool}

/-- Two results that agree and, if `exact` is asked for, have the same fault. -/
structure Alike (exact : Bool) (x y : Except ε α) : Prop where
  agree : Agree x y
  eq : exact = true → x = y

namespace Alike

variable {x y : Except ε α}

theorem of_eq (h : x = y) : Alike exact x y :=
  ⟨.of_eq h, fun _ => h⟩

theorem of_agree (h : Agree x y) : Alike false x y :=
  ⟨h, nofun⟩

theorem bind {f g : α → Except ε β} (h : Alike exact x y) (hf : ∀ a, Alike exact (f a) (g a)) :
    Alike exact (x >>= f) (y >>= g) :=
  ⟨h.agree.bind fun a => (hf a).agree, fun hexact => by
    rw [h.eq hexact, funext fun a => (hf a).eq hexact]⟩

theorem map (f : α → β) (h : Alike exact x y) : Alike exact (x.map f) (y.map f) :=
  h.bind fun a => of_eq (x := .ok (f a)) rfl

theorem mapError {δ : Type} (f : ε → δ) (h : Alike exact x y) :
    Alike exact (x.mapError f) (y.mapError f) :=
  ⟨(h.agree.mapError_left f).mapError_right f, fun hexact => by rw [h.eq hexact]⟩

end Alike

end

/-! ### Places and edits -/

namespace Schema

/-- What a reader of elements looks for in a value. -/
inductive Place where
  | elements
  | branches
  | tokens
  | record (position : Position)

/-- The fields in which further records are looked for. -/
inductive FieldPlace : Position → String → Place → Prop
  | style : FieldPlace .element "style" (.record .skeleton)
  | options : FieldPlace .element "options" .branches
  | children : FieldPlace .element "children" .elements
  | body : FieldPlace .wrapper "value" .elements
  | tokens : FieldPlace .skeleton "tokens" .tokens

/-- The members of one object at the position of a record are replaced by others, as `R` has it.
Records on the way to it may be objects or arrays, also arrays of a length that no record has: the
items that stand at the places of fields are read before the length is found wrong. -/
inductive Edit (R : Position → Members Json → Members Json → Prop) : Place → Json → Json → Prop
  | here {position : Position} {members others : Members Json} (h : R position members others) :
    Edit R (.record position) (.object members) (.object others)
  | field {position : Position} {name : String} {place : Place} {a b : Members Json}
    {j k x y : Json} (hj : Spells position j (a ++ (name, x) :: b))
    (hk : Spells position k (a ++ (name, y) :: b)) (hplace : FieldPlace position name place)
    (h : Edit R place x y) : Edit R (.record position) j k
  | item {position : Position} {name : String} {place : Place} {a b : List Json} {x y : Json}
    (hname : position.names[a.length]? = some name) (hplace : FieldPlace position name place)
    (h : Edit R place x y) :
    Edit R (.record position) (.array (a ++ x :: b)) (.array (a ++ y :: b))
  | element {a b : List Json} {x y : Json} (h : Edit R (.record .element) x y) :
    Edit R .elements (.array (a ++ x :: b)) (.array (a ++ y :: b))
  | branch {a b : Members Json} {key : String} {x y : Json}
    (h : Edit R (.record .wrapper) x y) :
    Edit R .branches (.object (a ++ (key, x) :: b)) (.object (a ++ (key, y) :: b))
  | token {a b : List Json} {x y : Json} (h : Edit R (.record .token) x y) :
    Edit R .tokens (.array (a ++ x :: b)) (.array (a ++ y :: b))

/-- A member with a name that is unknown at the position is left out. -/
inductive Forgets : Position → Members Json → Members Json → Prop
  | member {position : Position} {a b : Members Json} {name : String} {value : Json}
    (h : name ∉ position.names) : Forgets position (a ++ (name, value) :: b) (a ++ b)

/-- The members stand in another order. -/
def Permutes (_ : Position) (members others : Members Json) : Prop :=
  members.Perm others

theorem Spells.ne_null {position : Position} {j : Json} {members : Members Json}
    (h : Spells position j members) : j ≠ .null := by
  cases h <;> exact nofun

theorem Edit.ne_null {R : Position → Members Json → Members Json → Prop} {place : Place}
    {j k : Json} (h : Edit R place j k) : j ≠ .null ∧ k ≠ .null := by
  cases h with
  | field hj hk => exact ⟨hj.ne_null, hk.ne_null⟩
  | _ => exact ⟨nofun, nofun⟩

end Schema

open Schema

/-! ### Records of a style -/

namespace ElementStyle

variable {a b members others : Members Json} {name : String} {x y : Json}

theorem field?_append_cons_congr {α : Type} (missing : Option α) {read : Json → Option α}
    (h : read x = read y) : field? name missing read (a ++ (name, x) :: b) =
      field? name missing read (a ++ (name, y) :: b) := by
  have hfilter : ∀ z, (a ++ (name, z) :: b).filter (fun m => m.1 = name) =
      a.filter (fun m => m.1 = name) ++ (name, z) :: b.filter (fun m => m.1 = name) := by
    simp
  simp only [field?, unique?, hfilter]
  generalize a.filter (fun m => decide (m.1 = name)) = s
  generalize b.filter (fun m => decide (m.1 = name)) = t
  rcases s with _ | ⟨m, _ | ⟨n, s⟩⟩
  · rcases t with _ | ⟨m, t⟩
    · exact h
    · rfl
  · rfl
  · rfl

/-- A name stands once or not at all in any order of the members. -/
theorem unique?_perm (h : members.Perm others) : unique? name members = unique? name others := by
  have hfilter := h.filter fun m => m.1 = name
  rw [unique?, unique?]
  generalize members.filter (fun m => m.1 = name) = s at hfilter
  generalize others.filter (fun m => m.1 = name) = t at hfilter
  rcases s with _ | ⟨m, _ | ⟨n, s⟩⟩
  · rw [List.nil_perm.1 hfilter]
  · rw [List.singleton_perm.1 hfilter]
  · have hlength := hfilter.length_eq
    rcases t with _ | ⟨m', _ | ⟨n', t⟩⟩
    · cases hlength
    · cases hlength
    · rfl

theorem field?_perm {α : Type} (missing : Option α) (read : Json → Option α)
    (h : members.Perm others) :
    field? name missing read members = field? name missing read others := by
  rw [field?, unique?_perm h, field?]

theorem token?_forgets (h : Forgets .token members others) :
    token? (.object members) = token? (.object others) := by
  obtain ⟨h⟩ := h
  simp only [Position.names, List.mem_cons, List.not_mem_nil, or_false, not_or] at h
  rw [token?, token?, field?_append_cons_of_ne _ _ h.1, field?_append_cons_of_ne _ _ h.2]

theorem ofJson?_forgets (h : Forgets .skeleton members others) :
    ofJson? (.object members) = ofJson? (.object others) := by
  obtain ⟨h⟩ := h
  simp only [Position.names, List.mem_cons, List.not_mem_nil, or_false, not_or] at h
  rw [ofJson?, ofJson?, field?_append_cons_of_ne _ _ h.1, field?_append_cons_of_ne _ _ h.2.1,
    field?_append_cons_of_ne _ _ h.2.2]

theorem token?_perm (h : members.Perm others) :
    token? (.object members) = token? (.object others) := by
  simp only [token?, field?_perm _ _ h]

theorem ofJson?_perm (h : members.Perm others) :
    ofJson? (.object members) = ofJson? (.object others) := by
  simp only [ofJson?, field?_perm _ _ h]

theorem tokens?_append_cons_congr {a b : List Json} (h : token? x = token? y) :
    tokens? (.array (a ++ x :: b)) = tokens? (.array (a ++ y :: b)) := by
  simp only [tokens?, List.mapM_append, List.mapM_cons, h]

theorem ofJson?_tokens_congr (h : tokens? x = tokens? y) :
    ofJson? (.object (a ++ ("tokens", x) :: b)) = ofJson? (.object (a ++ ("tokens", y) :: b)) := by
  have hother : ∀ {α : Type} {name : String} (missing : Option α) (read : Json → Option α),
      "tokens" ≠ name → field? name missing read (a ++ ("tokens", x) :: b) =
        field? name missing read (a ++ ("tokens", y) :: b) := by
    intro α name missing read hne
    rw [field?_append_cons_of_ne _ _ hne, field?_append_cons_of_ne _ _ hne]
  rw [ofJson?, ofJson?, hother none _ (by decide), hother (some none) _ (by decide),
    field?_append_cons_congr _ h]

/-- Only an array of three items is a skeleton, with its tokens as the second one. -/
theorem ofJson?_array_congr {a b : List Json}
    (hname : Position.skeleton.names[a.length]? = some "tokens") (h : tokens? x = tokens? y) :
    ofJson? (.array (a ++ x :: b)) = ofJson? (.array (a ++ y :: b)) := by
  obtain ⟨type, rfl⟩ : ∃ type, a = [type] := by
    rcases a with _ | ⟨type, _ | ⟨tokens, _ | ⟨pattern, a⟩⟩⟩
    · simp [Position.names] at hname
    · exact ⟨type, rfl⟩
    · simp [Position.names] at hname
    · simp [Position.names] at hname
  rcases b with _ | ⟨pattern, _ | ⟨extra, b⟩⟩
  · rfl
  · simp only [List.cons_append, List.nil_append, ofJson?, h]
  · rfl

end ElementStyle

namespace Element

variable {exact : Bool} {members others a b : Members Json} {x y : Json}

/-! ### Members of an element -/

theorem ofMembers_append_alike (a : Members Json)
    (h : ∀ seen e, Alike exact (ofMembers seen e members) (ofMembers seen e others))
    (seen : List Field) (e : Element) :
    Alike exact (ofMembers seen e (a ++ members)) (ofMembers seen e (a ++ others)) := by
  induction a generalizing seen e with
  | nil => exact h seen e
  | cons m a ih =>
    obtain ⟨key, value⟩ := m
    rw [List.cons_append, List.cons_append, ofMembers, ofMembers]
    cases Field.ofName? key with
    | none => exact ih seen e
    | some f =>
      dsimp only
      split
      · exact .of_eq rfl
      · exact (Alike.of_eq rfl).bind fun e' => ih _ e'

theorem ofMembers_cons_alike {f : Field}
    (h : Alike exact (readContent f x) (readContent f y)) (seen : List Field) (e : Element) :
    Alike exact (ofMembers seen e ((f.name, x) :: b)) (ofMembers seen e ((f.name, y) :: b)) := by
  by_cases hseen : f ∈ seen
  · rw [ofMembers_cons_seen hseen, ofMembers_cons_seen hseen]
    exact .of_eq rfl
  · rw [ofMembers_cons_known hseen, ofMembers_cons_known hseen]
    exact h.bind fun _ => .of_eq rfl

/-- A member with an unknown name is passed over wherever it stands. -/
theorem ofMembers_skip (a b : Members Json) {key : String} (h : Field.ofName? key = none) (x : Json)
    (seen : List Field) (e : Element) :
    ofMembers seen e (a ++ (key, x) :: b) = ofMembers seen e (a ++ b) :=
  (ofMembers_append_alike a (fun _ _ => .of_eq (ofMembers_cons_unknown h x)) seen e).eq rfl

theorem ofMembers_forgets (h : Forgets .element members others) (seen : List Field)
    (e : Element) : ofMembers seen e members = ofMembers seen e others := by
  obtain @⟨a, b, name, value, h⟩ := h
  refine ofMembers_skip a b ?_ value seen e
  cases hfield : Field.ofName? name with
  | none => rfl
  | some f =>
    rw [← Field.name_of_ofName? hfield] at h
    exact absurd (List.mem_map.2 ⟨f, by cases f <;> decide, rfl⟩) h

theorem ofMembers_congr_seen {seen seen' : List Field} (h : ∀ f, f ∈ seen ↔ f ∈ seen')
    (e : Element) : ofMembers seen e members = ofMembers seen' e members := by
  induction members generalizing seen seen' e with
  | nil => rw [ofMembers, ofMembers, if_congr (h .type) rfl rfl]
  | cons m members ih =>
    obtain ⟨key, value⟩ := m
    rw [ofMembers, ofMembers]
    cases Field.ofName? key with
    | none => exact ih h e
    | some f =>
      have hcons : ∀ g, g ∈ f :: seen ↔ g ∈ f :: seen' := by simp [h]
      simp only [h f, ih hcons]

/-- A field that is read twice is a fault, whichever of the two comes first. -/
theorem ofMembers_repeated {f g : Field} {seen : List Field} (h : f = g ∨ f ∈ seen ∨ g ∈ seen)
    (e : Element) (x y : Json) :
    (ofMembers seen e ((f.name, x) :: (g.name, y) :: members)).toOption = none := by
  by_cases hf : f ∈ seen
  · rw [ofMembers_cons_seen hf]
    rfl
  · have hg : g ∈ f :: seen := by
      rcases h with rfl | h | h
      · exact List.mem_cons_self
      · exact absurd h hf
      · exact List.mem_cons_of_mem _ h
    rw [ofMembers_cons_known hf]
    cases readContent f x with
    | error _ => rfl
    | ok c =>
      rw [ok_bind, ofMembers_cons_seen hg]
      rfl

theorem ofMembers_swap_known {f g : Field} (seen : List Field) (e : Element) (x y : Json) :
    Agree (ofMembers seen e ((f.name, x) :: (g.name, y) :: members))
      (ofMembers seen e ((g.name, y) :: (f.name, x) :: members)) := by
  by_cases h : f = g ∨ f ∈ seen ∨ g ∈ seen
  · rw [Agree, ofMembers_repeated h, ofMembers_repeated (h.imp Eq.symm Or.symm)]
  · obtain ⟨hne, hf, hg⟩ : f ≠ g ∧ f ∉ seen ∧ g ∉ seen := by simpa only [not_or] using h
    have hfirst : f ∉ g :: seen := List.not_mem_cons_of_ne_of_not_mem hne hf
    have hsecond : g ∉ f :: seen := List.not_mem_cons_of_ne_of_not_mem hne.symm hg
    simp only [ofMembers_cons_known hf, ofMembers_cons_known hg, ofMembers_cons_known hfirst,
      ofMembers_cons_known hsecond]
    cases readContent f x with
    | error _ =>
      cases readContent g y with
      | error _ => exact .error _ _
      | ok d => exact .error _ _
    | ok c =>
      cases readContent g y with
      | error _ => exact .error _ _
      | ok d =>
        simp only [ok_bind, put_comm e hne]
        have hseen : ∀ k, k ∈ g :: f :: seen ↔ k ∈ f :: g :: seen := by
          simp only [List.mem_cons, or_left_comm, implies_true]
        rw [ofMembers_congr_seen hseen, Agree]

theorem ofMembers_swap (m n : String × Json) (seen : List Field) (e : Element) :
    Agree (ofMembers seen e (m :: n :: members)) (ofMembers seen e (n :: m :: members)) := by
  obtain ⟨key, x⟩ := m
  obtain ⟨key', y⟩ := n
  -- an unknown name is passed over on both sides, so the order counts between two fields only
  cases hfirst : Field.ofName? key with
  | none =>
    exact Agree.of_eq ((ofMembers_skip [] _ hfirst x seen e).trans
      (ofMembers_skip [(key', y)] members hfirst x seen e).symm)
  | some f =>
    cases hsecond : Field.ofName? key' with
    | none =>
      exact Agree.of_eq ((ofMembers_skip [(key, x)] members hsecond y seen e).trans
        (ofMembers_skip [] _ hsecond y seen e).symm)
    | some g =>
      rw [← Field.name_of_ofName? hfirst, ← Field.name_of_ofName? hsecond]
      exact ofMembers_swap_known seen e x y

theorem ofMembers_perm (h : members.Perm others) (seen : List Field) (e : Element) :
    Agree (ofMembers seen e members) (ofMembers seen e others) := by
  induction h generalizing seen e with
  | nil => rfl
  | cons m _ ih =>
    exact (ofMembers_append_alike [m] (fun seen e => .of_agree (ih seen e)) seen e).agree
  | swap m n => exact ofMembers_swap n m seen e
  | trans _ _ ih ih' => exact (ih seen e).trans (ih' seen e)

/-! ### Members of the record around a body -/

/-- Reads the body, which must not have been read before. -/
def firstBody (body : Option (List Element)) (j : Json) : Except Json.DataFault (List Element) :=
  match body with
  | some _ => .error (.duplicateField "value")
  | none => ofBody j

theorem ofBranchMembers_cons (body : Option (List Element)) (key : String) (value : Json) :
    ofBranchMembers body ((key, value) :: members) =
      if key = "value" then do
        let body ← firstBody body value
        ofBranchMembers (some body) members
      else ofBranchMembers body members := by
  cases body <;> rfl

theorem ofBranchMembers_append_alike (a : Members Json)
    (h : ∀ body, Alike exact (ofBranchMembers body members) (ofBranchMembers body others))
    (body : Option (List Element)) :
    Alike exact (ofBranchMembers body (a ++ members)) (ofBranchMembers body (a ++ others)) := by
  induction a generalizing body with
  | nil => exact h body
  | cons m a ih =>
    obtain ⟨key, value⟩ := m
    rw [List.cons_append, List.cons_append, ofBranchMembers_cons, ofBranchMembers_cons]
    split
    · exact (Alike.of_eq rfl).bind fun _ => ih _
    · exact ih body

theorem ofBranchMembers_cons_alike (h : Alike exact (ofBody x) (ofBody y))
    (body : Option (List Element)) : Alike exact (ofBranchMembers body (("value", x) :: b))
      (ofBranchMembers body (("value", y) :: b)) := by
  rw [ofBranchMembers_cons, ofBranchMembers_cons, if_pos rfl, if_pos rfl]
  cases body with
  | some body => exact .of_eq rfl
  | none => exact h.bind fun _ => .of_eq rfl

theorem ofBranchMembers_skip (a b : Members Json) {key : String} (h : key ≠ "value") (x : Json)
    (body : Option (List Element)) :
    ofBranchMembers body (a ++ (key, x) :: b) = ofBranchMembers body (a ++ b) := by
  refine (ofBranchMembers_append_alike a (fun body => .of_eq ?_) body).eq rfl
  rw [ofBranchMembers_cons, if_neg h]

theorem ofBranchMembers_forgets (h : Forgets .wrapper members others)
    (body : Option (List Element)) :
    ofBranchMembers body members = ofBranchMembers body others := by
  obtain @⟨a, b, name, value, h⟩ := h
  exact ofBranchMembers_skip a b (fun heq => h (List.mem_singleton.2 heq)) value body

theorem ofBranchMembers_repeated (body : Option (List Element)) (x y : Json) :
    (ofBranchMembers body (("value", x) :: ("value", y) :: members)).toOption = none := by
  rw [ofBranchMembers_cons, if_pos rfl]
  cases firstBody body x <;> rfl

theorem ofBranchMembers_swap (m n : String × Json) (body : Option (List Element)) :
    Agree (ofBranchMembers body (m :: n :: members))
      (ofBranchMembers body (n :: m :: members)) := by
  obtain ⟨key, x⟩ := m
  obtain ⟨key', y⟩ := n
  by_cases hfirst : key = "value"
  · by_cases hsecond : key' = "value"
    · rw [hfirst, hsecond, Agree, ofBranchMembers_repeated, ofBranchMembers_repeated]
    · exact Agree.of_eq ((ofBranchMembers_skip [(key, x)] members hsecond y body).trans
        (ofBranchMembers_skip [] _ hsecond y body).symm)
  · exact Agree.of_eq ((ofBranchMembers_skip [] _ hfirst x body).trans
      (ofBranchMembers_skip [(key', y)] members hfirst x body).symm)

theorem ofBranchMembers_perm (h : members.Perm others) (body : Option (List Element)) :
    Agree (ofBranchMembers body members) (ofBranchMembers body others) := by
  induction h generalizing body with
  | nil => rfl
  | cons m _ ih =>
    exact (ofBranchMembers_append_alike [m] (fun body => .of_agree (ih body)) body).agree
  | swap m n => exact ofBranchMembers_swap n m body
  | trans _ _ ih ih' => exact (ih body).trans (ih' body)

/-! ### Lists and branches -/

theorem ofList_append_cons_alike (a b : List Json) (h : Alike exact (ofJson x) (ofJson y)) :
    Alike exact (ofList (a ++ x :: b)) (ofList (a ++ y :: b)) := by
  induction a with
  | nil =>
    rw [List.nil_append, List.nil_append, ofList, ofList]
    exact h.bind fun _ => .of_eq rfl
  | cons item a ih =>
    rw [List.cons_append, List.cons_append, ofList, ofList]
    exact (Alike.of_eq rfl).bind fun _ => ih.bind fun _ => .of_eq rfl

theorem ofItems_append_cons_alike (count : Nat) {fields : List Field} {f : Field}
    {a : List Json} (b : List Json) (hf : fields[a.length]? = some f)
    (h : Alike exact (readContent f x) (readContent f y)) (e : Element) :
    Alike exact (ofItems count fields e (a ++ x :: b)) (ofItems count fields e (a ++ y :: b)) := by
  induction a generalizing fields e with
  | nil =>
    cases fields with
    | nil => cases hf
    | cons g fields =>
      obtain rfl : g = f := Option.some.inj hf
      rw [List.nil_append, List.nil_append, ofItems, ofItems, withField_eq, withField_eq]
      exact (h.map _).bind fun _ => .of_eq rfl
  | cons item a ih =>
    cases fields with
    | nil => cases hf
    | cons g fields =>
      rw [List.cons_append, List.cons_append, ofItems, ofItems]
      exact (Alike.of_eq rfl).bind fun e' => ih hf e'

theorem ofBranches_append_cons_alike (a b : Members Json) (key : String)
    (h : Alike exact (ofBranch x) (ofBranch y)) (added : Members (List Element)) :
    Alike exact (ofBranches added (a ++ (key, x) :: b))
      (ofBranches added (a ++ (key, y) :: b)) := by
  induction a generalizing added with
  | nil =>
    rw [List.nil_append, List.nil_append, ofBranches, ofBranches]
    exact h.bind fun _ => .of_eq rfl
  | cons m a ih =>
    rw [List.cons_append, List.cons_append, ofBranches, ofBranches]
    exact (Alike.of_eq rfl).bind fun _ => ih _

/-! ### Edited values -/

/-- What a reader at the place makes of two values is alike. -/
def ReadsAlike (exact : Bool) : Place → Json → Json → Prop
  | .elements, j, k => Alike exact (ofBody j) (ofBody k)
  | .branches, j, k => Alike exact (branchesOf j) (branchesOf k)
  | .tokens, j, k => ElementStyle.tokens? j = ElementStyle.tokens? k
  | .record .element, j, k => Alike exact (ofJson j) (ofJson k)
  | .record .wrapper, j, k => Alike exact (ofBranch j) (ofBranch k)
  | .record .skeleton, j, k => ElementStyle.ofJson? j = ElementStyle.ofJson? k
  | .record .token, j, k => ElementStyle.token? j = ElementStyle.token? k

theorem asOptional_alike {α : Type} {as : Json → Except Json.DataFault α}
    (hnull : x ≠ .null ∧ y ≠ .null) (h : Alike exact (as x) (as y)) :
    Alike exact (x.asOptional as) (y.asOptional as) := by
  have hsome : ∀ {j : Json}, j ≠ .null → j.asOptional as = (as j).map some := by
    intro j hj
    cases j with
    | null => exact absurd rfl hj
    | _ => rfl
  rw [hsome hnull.1, hsome hnull.2]
  exact h.map some

theorem readContent_alike_of_fieldPlace {f : Field} {place : Place}
    (hplace : FieldPlace .element f.name place) (hnull : x ≠ .null ∧ y ≠ .null)
    (h : ReadsAlike exact place x y) : Alike exact (readContent f x) (readContent f y) := by
  generalize hname : f.name = name at hplace
  cases hplace with
  | style =>
    obtain rfl := Field.name_injective (g := .style) hname
    have hstyle : styleOf x = styleOf y := by
      rw [styleOf, styleOf, show ElementStyle.ofJson? x = ElementStyle.ofJson? y from h]
    exact asOptional_alike hnull (.of_eq hstyle)
  | options =>
    obtain rfl := Field.name_injective (g := .options) hname
    exact asOptional_alike hnull h
  | children =>
    obtain rfl := Field.name_injective (g := .children) hname
    exact asOptional_alike hnull h

theorem exists_field_of_fieldPlace {name : String} {place : Place}
    (hplace : FieldPlace .element name place) : ∃ f : Field, f.name = name := by
  cases hplace with
  | style => exact ⟨.style, rfl⟩
  | options => exact ⟨.options, rfl⟩
  | children => exact ⟨.children, rfl⟩

/-- Reading alike in a field is reading alike in the record around it. -/
theorem readsAlike_field {position : Position} {name : String} {place : Place} {j k : Json}
    (hj : Spells position j (a ++ (name, x) :: b)) (hk : Spells position k (a ++ (name, y) :: b))
    (hplace : FieldPlace position name place) (hnull : x ≠ .null ∧ y ≠ .null)
    (h : ReadsAlike exact place x y) : ReadsAlike exact (.record position) j k := by
  cases position with
  | element =>
    obtain ⟨f, rfl⟩ := exists_field_of_fieldPlace hplace
    have hread := readContent_alike_of_fieldPlace hplace hnull h
    show Alike exact (ofJson j) (ofJson k)
    rw [ofJson_spells hj, ofJson_spells hk, ofJson, ofJson]
    exact ofMembers_append_alike a (ofMembers_cons_alike hread) [] blank
  | wrapper =>
    cases hplace with
    | body =>
      show Alike exact (ofBranch j) (ofBranch k)
      rw [ofBranch_spells hj, ofBranch_spells hk, ofBranch, ofBranch]
      exact ofBranchMembers_append_alike a (ofBranchMembers_cons_alike h) none
  | skeleton =>
    cases hplace with
    | tokens =>
      show ElementStyle.ofJson? j = ElementStyle.ofJson? k
      rw [ElementStyle.ofJson?_spells hj, ElementStyle.ofJson?_spells hk]
      exact ElementStyle.ofJson?_tokens_congr h
  | token => cases hplace

/-- In an array the field is told by its place, whatever the length. -/
theorem readsAlike_item {position : Position} {name : String} {place : Place} {a b : List Json}
    (hname : position.names[a.length]? = some name) (hplace : FieldPlace position name place)
    (hnull : x ≠ .null ∧ y ≠ .null) (h : ReadsAlike exact place x y) :
    ReadsAlike exact (.record position) (.array (a ++ x :: b)) (.array (a ++ y :: b)) := by
  cases position with
  | element =>
    rw [Position.names, List.getElem?_map, Option.map_eq_some_iff] at hname
    obtain ⟨f, hf, rfl⟩ := hname
    have hread := readContent_alike_of_fieldPlace hplace hnull h
    have hlength : (a ++ y :: b).length = (a ++ x :: b).length := by simp
    show Alike exact (ofJson _) (ofJson _)
    rw [ofJson, ofJson, hlength]
    exact ofItems_append_cons_alike _ b hf hread blank
  | wrapper =>
    cases hplace with
    | body =>
      obtain rfl : a = [] := by
        cases a with
        | nil => rfl
        | cons item a => cases hname
      show Alike exact (ofBranch _) (ofBranch _)
      rw [List.nil_append, List.nil_append, ofBranch, ofBranch]
      exact Alike.bind h fun _ => .of_eq rfl
  | skeleton =>
    cases hplace with
    | tokens => exact ElementStyle.ofJson?_array_congr hname h
  | token => cases hplace

/-- If the edited object is read alike, so is the whole value. -/
theorem readsAlike_of_edit {R : Position → Members Json → Members Json → Prop}
    (hR : ∀ {position members others}, R position members others →
      ReadsAlike exact (.record position) (.object members) (.object others))
    {place : Place} {j k : Json} (h : Edit R place j k) : ReadsAlike exact place j k := by
  induction h with
  | here h => exact hR h
  | field hj hk hplace h ih => exact readsAlike_field hj hk hplace h.ne_null ih
  | item hname hplace h ih => exact readsAlike_item hname hplace h.ne_null ih
  | @element a b x y h ih =>
    show Alike exact (ofBody _) (ofBody _)
    rw [ofBody, ofBody]
    exact ofList_append_cons_alike a b ih
  | @branch a b key x y h ih => exact ofBranches_append_cons_alike a b key ih []
  | token h ih => exact ElementStyle.tokens?_append_cons_congr ih

theorem readsAlike_forgets {position : Position} (h : Forgets position members others) :
    ReadsAlike true (.record position) (.object members) (.object others) := by
  cases position with
  | element =>
    show Alike true (ofJson _) (ofJson _)
    rw [ofJson, ofJson]
    exact .of_eq (ofMembers_forgets h [] blank)
  | wrapper =>
    show Alike true (ofBranch _) (ofBranch _)
    rw [ofBranch, ofBranch]
    exact .of_eq (ofBranchMembers_forgets h none)
  | skeleton => exact ElementStyle.ofJson?_forgets h
  | token => exact ElementStyle.token?_forgets h

theorem readsAlike_permutes {position : Position} (h : Permutes position members others) :
    ReadsAlike false (.record position) (.object members) (.object others) := by
  cases position with
  | element =>
    show Alike false (ofJson _) (ofJson _)
    rw [ofJson, ofJson]
    exact .of_agree (ofMembers_perm h [] blank)
  | wrapper =>
    show Alike false (ofBranch _) (ofBranch _)
    rw [ofBranch, ofBranch]
    exact .of_agree (ofBranchMembers_perm h none)
  | skeleton => exact ElementStyle.ofJson?_perm h
  | token => exact ElementStyle.token?_perm h

end Element

namespace Message

theorem ofJson_alike {exact : Bool} {v w : Json}
    (h : Alike exact (Element.ofBody v) (Element.ofBody w)) :
    Alike exact (ofJson v) (ofJson w) :=
  (h.mapError _).bind fun _ => .of_eq rfl

/-- Leaving out members with unknown names makes no difference to what a value is read as, fault or
not, and the order of the members makes none but in the fault. -/
theorem ofJson_edits :
    (∀ v w, Relation.ReflTransGen (Edit Forgets .elements) v w → ofJson v = ofJson w) ∧
      ∀ v w, Relation.ReflTransGen (Edit Permutes .elements) v w →
        Agree (ofJson v) (ofJson w) := by
  constructor
  · intro v w h
    induction h with
    | refl => rfl
    | tail _ hedit ih =>
      have hread := Element.readsAlike_of_edit Element.readsAlike_forgets hedit
      exact ih.trans ((ofJson_alike hread).eq rfl)
  · intro v w h
    induction h with
    | refl => rfl
    | tail _ hedit ih =>
      have hread := Element.readsAlike_of_edit Element.readsAlike_permutes hedit
      exact ih.trans (ofJson_alike hread).agree

namespace EditSample

/-- A select whose only branch has the given members around its body. -/
def select (wrapper : Members Json) : Json :=
  .array [.object [("type", .number (.ofUInt8 5)), ("value", .string "g"),
    ("options", .object [("other", .object wrapper)])]]

/-- A body with a number whose style has one token with the given members. -/
def body (token : Members Json) : Json :=
  .array [.object [("type", .number (.ofUInt8 2)), ("value", .string "n"),
    ("style", .object [("tokens", .array [.object token]), ("type", .number (.ofUInt8 0))])]]

def stem : String × Json :=
  ("stem", .string "currency")

def unknown : String × Json :=
  ("location", .object [])

theorem edit_select {R : Position → Members Json → Members Json → Prop}
    {wrapper others : Members Json}
    (h : Edit R (.record .wrapper) (.object wrapper) (.object others)) :
    Edit R .elements (select wrapper) (select others) :=
  .element (a := []) (b := []) (.field (a := [_, _]) (b := []) (.object _) (.object _) .options
    (.branch (a := []) (b := []) h))

theorem edit_body {R : Position → Members Json → Members Json → Prop}
    {token others : Members Json} (h : R .token token others) :
    Edit R .elements (body token) (body others) :=
  .element (a := []) (b := []) (.field (a := [_, _]) (b := []) (.object _) (.object _) .style
    (.field (a := []) (b := [_]) (.object _) (.object _) .tokens
      (.token (a := []) (b := []) (.here h))))

end EditSample

open EditSample Relation in
/-- Leaving out a name around a body and one in a token inside of it, and changing the order of
both records instead. -/
theorem ofJson_edits_nested :
    ReflTransGen (Edit Forgets .elements) (select [unknown, ("value", body [stem, unknown])])
        (select [("value", body [stem])]) ∧
      ofJson (select [unknown, ("value", body [stem, unknown])]) =
        .ok [.select "g" [("other",
          [.formatted .number "n" (some (.number [⟨"currency", []⟩]))])]] ∧
      ReflTransGen (Edit Permutes .elements)
        (select [unknown, ("value", body [stem, unknown])])
        (select [("value", body [unknown, stem]), unknown]) ∧
      Agree (ofJson (select [unknown, ("value", body [stem, unknown])]))
        (ofJson (select [("value", body [unknown, stem]), unknown])) := by
  have hforgets : ReflTransGen (Edit Forgets .elements)
      (select [unknown, ("value", body [stem, unknown])]) (select [("value", body [stem])]) :=
    .tail (.single (edit_select (.here (.member (a := []) (by decide)))))
      (edit_select (.field (a := []) (b := []) (.object _) (.object _) .body
        (edit_body (.member (a := [stem]) (b := []) (by decide)))))
  have hpermutes : ReflTransGen (Edit Permutes .elements)
      (select [unknown, ("value", body [stem, unknown])])
      (select [("value", body [unknown, stem]), unknown]) :=
    .tail (.single (edit_select (.here (.swap _ _ []))))
      (edit_select (.field (a := []) (b := [_]) (.object _) (.object _) .body
        (edit_body (.swap _ _ []))))
  exact ⟨hforgets, (ofJson_edits.1 _ _ hforgets).trans rfl, hpermutes,
    ofJson_edits.2 _ _ hpermutes⟩

end Message

end MessageFormat
