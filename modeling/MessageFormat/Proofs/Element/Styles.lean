import MessageFormat.Element.Node
import MessageFormat.Proofs.Element.Fields
import MessageFormat.Proofs.Json.Distinct

/-!
# Which values are styles

A value is read as a style exactly if it has the shape of one, provided that its records are
objects, and the style is one of an argument exactly if it is usable.
-/

namespace MessageFormat.ElementStyle

open Schema

variable {members : Members Json} {j : Json}

theorem mapM_isSome_iff {α β : Type} {f : α → Option β} {as : List α} :
    (∃ bs, as.mapM f = some bs) ↔ ∀ a ∈ as, ∃ b, f a = some b := by
  induction as with
  | nil => simp
  | cons a as ih =>
    rw [List.forall_mem_cons, ← ih]
    simp only [List.mapM_cons, Option.bind_eq_bind, Option.bind_eq_some_iff, Option.pure_def,
      Option.some.injEq]
    constructor
    · rintro ⟨_, b, hb, bs, hbs, -⟩
      exact ⟨⟨b, hb⟩, bs, hbs⟩
    · rintro ⟨⟨b, hb⟩, bs, hbs⟩
      exact ⟨_, b, hb, bs, hbs, rfl⟩

/-- A field is what its member is read as, or what stands for a member that is missing. -/
theorem field?_eq_some {α : Type} {name : String} {missing : Option α} {read : Json → Option α}
    (hnodup : (Keyed.keys members).Nodup) {a : α} :
    field? name missing read members = some a ↔
      Has name (fun j => read j = some a) members ∨
        name ∉ Keyed.keys members ∧ missing = some a := by
  rw [has_iff]
  by_cases hkey : name ∈ Keyed.keys members
  · obtain ⟨⟨key, j⟩, hj, rfl⟩ := List.mem_map.1 hkey
    rw [field?_of_mem missing read hnodup hj, or_iff_left fun h => h.1 hkey]
    constructor
    · intro h
      exact ⟨j, hj, h⟩
    · rintro ⟨i, hi, h⟩
      rw [← field?_of_mem missing read hnodup hi, field?_of_mem missing read hnodup hj] at h
      exact h
  · rw [field?_of_not_mem missing read hkey, or_iff_right, and_iff_right hkey]
    rintro ⟨i, hi, -⟩
    exact hkey (List.mem_map.2 ⟨_, hi, rfl⟩)

theorem required_isSome_iff {α : Type} {name : String} {read : Json → Option α}
    (hnodup : (Keyed.keys members).Nodup) :
    (∃ a, field? name none read members = some a) ↔
      Has name (fun j => ∃ a, read j = some a) members := by
  simp only [field?_eq_some hnodup, has_iff]
  constructor
  · rintro ⟨a, ⟨j, hj, ha⟩ | ⟨-, hnone⟩⟩
    · exact ⟨j, hj, a, ha⟩
    · cases hnone
  · rintro ⟨j, hj, a, ha⟩
    exact ⟨a, .inl ⟨j, hj, ha⟩⟩

theorem optional_isSome_iff {α : Type} {name : String} {missing : α} {read : Json → Option α}
    (hnodup : (Keyed.keys members).Nodup) :
    (∃ a, field? name (some missing) read members = some a) ↔
      MayHave name (fun j => ∃ a, read j = some a) members := by
  constructor
  · rintro ⟨a, ha⟩ j hj
    rw [field?_of_mem _ read hnodup hj] at ha
    exact ⟨a, ha⟩
  · intro h
    by_cases hkey : name ∈ Keyed.keys members
    · obtain ⟨⟨key, j⟩, hj, rfl⟩ := List.mem_map.1 hkey
      obtain ⟨a, ha⟩ := h j hj
      exact ⟨a, field?_eq_some hnodup |>.2 (.inl (has_iff.2 ⟨j, hj, ha⟩))⟩
    · exact ⟨missing, field?_of_not_mem _ read hkey⟩

theorem text?_eq_some {s : String} : text? j = some s ↔ j = .string s := by
  rw [text?, toOption_eq_some, Json.asText_eq_ok]

theorem texts?_isSome_iff : (∃ ss, texts? j = some ss) ↔ ArrayOf IsText j := by
  constructor
  · rintro ⟨ss, h⟩
    unfold texts? at h
    split at h
    · next items =>
      refine .array fun item hitem => ?_
      obtain ⟨s, hs⟩ := mapM_isSome_iff.1 ⟨ss, h⟩ item hitem
      exact ⟨s, text?_eq_some.1 hs⟩
    · cases h
  · rintro ⟨h⟩
    refine mapM_isSome_iff.2 fun item hitem => ?_
    obtain ⟨s, hs⟩ := h item hitem
    exact ⟨s, text?_eq_some.2 hs⟩

theorem pattern?_eq_some {o : Option String} :
    pattern? j = some o ↔ j = .null ∧ o = none ∨ ∃ s, j = .string s ∧ o = some s := by
  rw [pattern?, toOption_eq_some, Json.asOptional_eq_ok fun a h => by cases h]
  simp only [Json.asText_eq_ok]

theorem pattern?_isSome_iff : (∃ o, pattern? j = some o) ↔ OrNull IsText j := by
  simp only [pattern?_eq_some]
  constructor
  · rintro ⟨o, ⟨rfl, -⟩ | ⟨s, rfl, -⟩⟩
    · exact .null
    · exact .value ⟨s, rfl⟩
  · rintro (_ | ⟨s, rfl⟩)
    · exact ⟨none, .inl ⟨rfl, rfl⟩⟩
    · exact ⟨some s, .inr ⟨s, rfl, rfl⟩⟩

theorem token?_isSome_iff (hrecord : ∀ items, j ≠ .array items) (hdistinct : j.Distinct) :
    (∃ t, token? j = some t) ↔ TokenShape j := by
  cases j with
  | array items => exact absurd rfl (hrecord items)
  | object members =>
    have hstem : (∃ s, field? "stem" none text? members = some s) ↔ Has "stem" IsText members := by
      rw [required_isSome_iff hdistinct.nodup]
      simp only [text?_eq_some]
      rfl
    have hoptions : (∃ ss, field? "options" (some []) texts? members = some ss) ↔
        MayHave "options" (ArrayOf IsText) members := by
      rw [optional_isSome_iff hdistinct.nodup]
      simp only [texts?_isSome_iff]
    simp only [token?, Option.bind_eq_bind, Option.bind_eq_some_iff, Option.pure_def,
      Option.some.injEq]
    constructor
    · rintro ⟨t, s, hs, ss, hss, -⟩
      exact .object (hstem.1 ⟨s, hs⟩) (hoptions.1 ⟨ss, hss⟩)
    · rintro ⟨h, h'⟩
      obtain ⟨s, hs⟩ := hstem.2 h
      obtain ⟨ss, hss⟩ := hoptions.2 h'
      exact ⟨_, s, hs, ss, hss, rfl⟩
  | _ =>
    constructor
    · rintro ⟨t, ht⟩
      cases ht
    · intro h
      cases h

theorem tokens?_isSome_iff {p : Json → Prop}
    (htoken : ∀ items, j = .array items → ∀ item ∈ items,
      ((∃ t, token? item = some t) ↔ p item)) :
    (∃ ts, tokens? j = some ts) ↔ ArrayOf p j := by
  cases j with
  | array items =>
    rw [tokens?, mapM_isSome_iff]
    constructor
    · intro h
      exact .array fun item hitem => (htoken items rfl item hitem).1 (h item hitem)
    · rintro ⟨h⟩ item hitem
      exact (htoken items rfl item hitem).2 (h item hitem)
  | _ =>
    constructor
    · rintro ⟨ts, hts⟩
      cases hts
    · intro h
      cases h

/-- A style written as an object is a skeleton with what its members hold. -/
theorem ofJson?_object {style : ElementStyle} :
    ofJson? (.object members) = some style ↔ ∃ type tokens pattern,
      field? "type" none (·.asByte.toOption) members = some type ∧
      field? "tokens" (some []) tokens? members = some tokens ∧
      field? "pattern" (some none) pattern? members = some pattern ∧
      style = .skeleton type tokens pattern := by
  simp only [ofJson?, Option.bind_eq_bind, Option.bind_eq_some_iff, Option.pure_def,
    Option.some.injEq]
  constructor
  · rintro ⟨type, htype, tokens, htokens, pattern, hpattern, rfl⟩
    exact ⟨type, tokens, pattern, htype, htokens, hpattern, rfl⟩
  · rintro ⟨type, tokens, pattern, htype, htokens, hpattern, rfl⟩
    exact ⟨type, htype, tokens, htokens, pattern, hpattern, rfl⟩

theorem ofJson?_object_isSome_iff {p : Json → Prop} (hnodup : (Keyed.keys members).Nodup)
    (htokens : ∀ j, ("tokens", j) ∈ members →
      ((∃ ts, tokens? j = some ts) ↔ ArrayOf p j)) :
    (∃ style, ofJson? (.object members) = some style) ↔ Has "type" IsByte members ∧
      MayHave "tokens" (ArrayOf p) members ∧ MayHave "pattern" (OrNull IsText) members := by
  have htype : (∃ n, field? "type" none (·.asByte.toOption) members = some n) ↔
      Has "type" IsByte members := by
    rw [required_isSome_iff hnodup]
    simp only [toOption_eq_some, Json.asByte_eq_ok]
    rfl
  have htokens' : (∃ ts, field? "tokens" (some []) tokens? members = some ts) ↔
      MayHave "tokens" (ArrayOf p) members := by
    rw [optional_isSome_iff hnodup]
    exact forall₂_congr htokens
  have hpattern : (∃ o, field? "pattern" (some none) pattern? members = some o) ↔
      MayHave "pattern" (OrNull IsText) members := by
    rw [optional_isSome_iff hnodup]
    simp only [pattern?_isSome_iff]
  rw [← htype, ← htokens', ← hpattern]
  constructor
  · rintro ⟨style, hstyle⟩
    obtain ⟨n, ts, o, hn, hts, ho, -⟩ := ofJson?_object.1 hstyle
    exact ⟨⟨n, hn⟩, ⟨ts, hts⟩, o, ho⟩
  · rintro ⟨⟨n, hn⟩, ⟨ts, hts⟩, o, ho⟩
    exact ⟨_, ofJson?_object.2 ⟨n, ts, o, hn, hts, ho, rfl⟩⟩

theorem ofJson?_isSome_iff (hrecord : ∀ items, j ≠ .array items) (hdistinct : j.Distinct)
    (htokens : ∀ members items item, j = .object members → ("tokens", .array items) ∈ members →
      item ∈ items → ∀ is, item ≠ .array is) :
    (∃ style, ofJson? j = some style) ↔ StyleShape j := by
  cases j with
  | array items => exact absurd rfl (hrecord items)
  | string s => exact ⟨fun _ => .text s, fun _ => ⟨.text s, rfl⟩⟩
  | object members =>
    have hfields := ofJson?_object_isSome_iff hdistinct.nodup fun j hj =>
      tokens?_isSome_iff fun items heq item hitem => by
        subst heq
        exact token?_isSome_iff (htokens members items item rfl hj hitem)
          ((hdistinct.member hj).item hitem)
    constructor
    · intro h
      obtain ⟨type, tokens, pattern⟩ := hfields.1 h
      exact .skeleton type tokens pattern
    · rintro (_ | ⟨type, tokens, pattern⟩)
      exact hfields.2 ⟨type, tokens, pattern⟩
  | _ =>
    constructor
    · rintro ⟨style, hstyle⟩
      cases hstyle
    · intro h
      cases h

/-! ### Styles of arguments -/

theorem toArgStyle_skeleton_isOk_iff {type : UInt8} {tokens : List SkeletonToken}
    {pattern : Option String} :
    (∃ style, (ElementStyle.skeleton type tokens pattern).toArgStyle = .ok style) ↔
      type = 0 ∨ type = 1 ∧ ∃ s, pattern = some s := by
  by_cases h0 : type = 0
  · subst h0
    exact ⟨fun _ => .inl rfl, fun _ => ⟨.number tokens, rfl⟩⟩
  · by_cases h1 : type = 1
    · subst h1
      cases pattern with
      | none => simp [toArgStyle]
      | some s => exact ⟨fun _ => .inr ⟨rfl, s, rfl⟩, fun _ => ⟨.dateTime s, rfl⟩⟩
    · have herror : (ElementStyle.skeleton type tokens pattern).toArgStyle =
          .error (.unknownSkeletonType type) := by
        simp [toArgStyle, h1]
      simp [herror, h0, h1]

theorem has_isType_iff (hnodup : (Keyed.keys members).Nodup) {n : UInt8}
    (hn : field? "type" none (·.asByte.toOption) members = some n) {types : List UInt8} :
    Has "type" (IsType types) members ↔ n ∈ types := by
  constructor
  · intro h
    obtain ⟨j, hj, m, hm, rfl⟩ := has_iff.1 h
    rw [field?_of_mem _ _ hnodup hj, Json.asByte_ofUInt8] at hn
    cases hn
    exact hm
  · intro hmem
    rcases (field?_eq_some hnodup).1 hn with h | ⟨-, hnone⟩
    · exact h.mono fun j hj hread => ⟨n, hmem, Json.asByte_eq_ok.1 (toOption_eq_some.1 hread)⟩
    · cases hnone

theorem has_pattern_iff (hnodup : (Keyed.keys members).Nodup) {o : Option String}
    (ho : field? "pattern" (some none) pattern? members = some o) :
    Has "pattern" IsText members ↔ ∃ s, o = some s := by
  constructor
  · intro h
    obtain ⟨j, hj, s, rfl⟩ := has_iff.1 h
    rw [field?_of_mem _ _ hnodup hj] at ho
    cases ho
    exact ⟨s, rfl⟩
  · rintro ⟨s, rfl⟩
    rcases (field?_eq_some hnodup).1 ho with h | ⟨-, hnone⟩
    · refine h.mono fun j hj hread => ?_
      rcases pattern?_eq_some.1 hread with ⟨-, hnone⟩ | ⟨s', hs', -⟩
      · cases hnone
      · exact ⟨s', hs'⟩
    · cases hnone

theorem toArgStyle_isOk_iff {style : ElementStyle} (hstyle : ofJson? j = some style)
    (hrecord : ∀ items, j ≠ .array items) (hdistinct : j.Distinct) :
    (∃ s, style.toArgStyle = .ok s) ↔ UsableStyle j := by
  cases j with
  | array items => exact absurd rfl (hrecord items)
  | string s =>
    cases hstyle
    exact ⟨fun _ => nofun, fun _ => ⟨.text s, rfl⟩⟩
  | object members =>
    obtain ⟨n, ts, o, hn, -, ho, rfl⟩ := ofJson?_object.1 hstyle
    have husable : UsableStyle (.object members) ↔ Has "type" (IsType [0]) members ∨
        Has "type" (IsType [1]) members ∧ Has "pattern" IsText members := by
      constructor
      · intro h
        exact h members rfl
      · rintro h _ ⟨⟩
        exact h
    rw [toArgStyle_skeleton_isOk_iff, husable, has_isType_iff hdistinct.nodup hn,
      has_isType_iff hdistinct.nodup hn, has_pattern_iff hdistinct.nodup ho,
      List.mem_singleton, List.mem_singleton]
  | _ => cases hstyle

end MessageFormat.ElementStyle
