import MessageFormat.Proofs.Json.RoundTrip

/-!
# What follows a value

A value that is scanned without a flaw is scanned to the same draft whatever is put after its text,
as long as that does not go on with a numeral. More steps than were needed change nothing either.
-/

namespace MessageFormat.Json

/-! ### Drafts without a flaw -/

theorem Lexeme.flaw_eq_none_of_skip {s : Lexeme} (h : s.skip = .ok ()) : s.flaw = none := by
  cases hflaw : s.flaw with
  | none => rfl
  | some flaw =>
    rw [skip, hflaw] at h
    cases h

namespace Draft

theorem flaw_eq_none_of_skipItems {flaw : Option Flaw} {items : List Draft}
    (h : skipItems flaw items = .ok ()) : flaw = none := by
  induction items with
  | nil =>
    cases flaw with
    | none => rfl
    | some flaw => cases h
  | cons item items ih =>
    obtain ⟨_, -, h⟩ := bind_eq_ok.1 h
    exact ih h

theorem flaw_eq_none_of_skipMembers {flaw : Option Flaw} {members : List (Lexeme × Draft)}
    (h : skipMembers flaw members = .ok ()) : flaw = none := by
  induction members with
  | nil =>
    cases flaw with
    | none => rfl
    | some flaw => cases h
  | cons member members ih =>
    obtain ⟨_, -, h⟩ := bind_eq_ok.1 h
    obtain ⟨_, -, h⟩ := bind_eq_ok.1 h
    exact ih h

theorem skipItems_cons {flaw : Option Flaw} {item : Draft} {items : List Draft}
    (h : skipItems flaw (item :: items) = .ok ()) :
    item.skip = .ok () ∧ skipItems flaw items = .ok () := by
  obtain ⟨_, hitem, hitems⟩ := bind_eq_ok.1 h
  exact ⟨hitem, hitems⟩

theorem skipMembers_cons {flaw : Option Flaw} {key : Lexeme} {value : Draft}
    {members : List (Lexeme × Draft)} (h : skipMembers flaw ((key, value) :: members) = .ok ()) :
    key.flaw = none ∧ value.skip = .ok () ∧ skipMembers flaw members = .ok () := by
  obtain ⟨_, hkey, h⟩ := bind_eq_ok.1 h
  obtain ⟨_, hvalue, hmembers⟩ := bind_eq_ok.1 h
  exact ⟨Lexeme.flaw_eq_none_of_skip hkey, hvalue, hmembers⟩

end Draft

/-! ### Space, words and strings -/

theorem skipSpace_append_right {t v : List Char} {c : Char} (h : skipSpace t = c :: v)
    (u : List Char) : skipSpace (t ++ u) = c :: (v ++ u) := by
  unfold skipSpace at h ⊢
  rw [List.dropWhile_append, h]
  rfl

theorem isSpace_of_skipSpace {t v : List Char} {c : Char} (h : skipSpace t = c :: v) :
    isSpace c = false := by
  have hhead := List.head?_dropWhile_not isSpace t
  unfold skipSpace at h
  rw [h] at hhead
  simpa using hhead

theorem scanWord_append_right {value d : Draft} {w t r : List Char}
    (h : scanWord value w t = (d, r)) (hd : d.skip = .ok ()) (u : List Char) :
    scanWord value w (t ++ u) = (d, r ++ u) := by
  induction w generalizing t with
  | nil =>
    cases h
    rfl
  | cons c w ih =>
    cases t with
    | nil =>
      cases h
      cases hd
    | cons b t =>
      rw [scanWord] at h
      rw [List.cons_append, scanWord]
      by_cases hb : b = c
      · rw [if_pos hb] at h ⊢
        exact ih h
      · rw [if_neg hb] at h
        cases h
        cases hd

theorem scanString_short {c e : Char} (hunit : c ≠ 'u') (hshort : shortEscape? c = some e)
    (t : List Char) :
    scanString ('\\' :: c :: t) = Lexeme.after (.char e) (scanString t) := by
  rw [scanString]
  · rw [hshort]
  · rintro a b c' d t' rfl
    exact absurd rfl hunit
  · exact hunit

theorem scanString_append_right {t : List Char} (h : (scanString t).1.flaw = none)
    (u : List Char) : scanString (t ++ u) = ((scanString t).1, (scanString t).2 ++ u) := by
  fun_induction scanString t
  case case2 t => rfl
  case case3 a b c d t unit hunit ih =>
    simp only [List.cons_append, scanString, hunit]
    rw [ih h]
    rfl
  case case6 c t hne hunit e hshort ih =>
    rw [List.cons_append, List.cons_append, scanString_short hunit hshort, ih h]
    rfl
  case case10 c t hquote _ _ hcons hnil hcontrol ih =>
    have hbackslash : c ≠ '\\' := by
      intro hc
      cases t with
      | nil => exact hnil hc rfl
      | cons d t => exact hcons d t hc rfl
    rw [List.cons_append, scanString_plain hquote hbackslash hcontrol, ih h]
    rfl
  all_goals cases h

theorem scanString_of_flawless {t r : List Char} {s : Lexeme} (h : scanString t = (s, r))
    (hs : s.flaw = none) (u : List Char) : scanString (t ++ u) = (s, r ++ u) := by
  have hflaw : (scanString t).1.flaw = none := by rw [h, hs]
  rw [scanString_append_right hflaw, h]

/-! ### Numerals -/

theorem cons_append_ne_cons {c d : Char} {t : List Char} (h : ∀ v, c :: t ≠ d :: v)
    (u v : List Char) : c :: (t ++ u) ≠ d :: v := by
  intro heq
  exact h t (by rw [(List.cons.inj heq).1])

theorem digits_append_right (t : List Char) {u : List Char} (hu : EndsNumeral u) :
    (t ++ u).takeWhile Char.isDigit = t.takeWhile Char.isDigit ∧
      (t ++ u).dropWhile Char.isDigit = t.dropWhile Char.isDigit ++ u := by
  induction t with
  | nil =>
    cases u with
    | nil => exact ⟨rfl, rfl⟩
    | cons c u =>
      have hc : c.isDigit = false := (hu c rfl).1
      simp [hc]
  | cons c t ih =>
    cases hc : c.isDigit with
    | true => simp [hc, ih.1, ih.2]
    | false => simp [hc]

theorem scanDigits_append_right {t digits r u : List Char} (h : scanDigits t = .ok (digits, r))
    (hu : EndsNumeral u) : scanDigits (t ++ u) = .ok (digits, r ++ u) := by
  obtain ⟨htake, hdrop⟩ := digits_append_right t hu
  unfold scanDigits at h ⊢
  rw [htake, hdrop]
  split at h
  · cases h
  · cases h
    rfl

theorem scanWhole_append_right {t digits r u : List Char} (h : scanWhole t = .ok (digits, r))
    (hu : EndsNumeral u) : scanWhole (t ++ u) = .ok (digits, r ++ u) := by
  unfold scanWhole at h
  split at h
  · next t =>
    split at h
    · cases h
    · next hhead =>
      cases h
      have hnext : ¬ (((r ++ u).head?.map Char.isDigit).getD false = true) := by
        cases r with
        | cons c r => exact hhead
        | nil =>
          cases u with
          | nil => exact hhead
          | cons c u => simp [(hu c rfl).1]
      rw [List.cons_append, scanWhole, if_neg hnext]
  · next hzero =>
    cases t with
    | nil => cases h
    | cons c t =>
      rw [← scanDigits_append_right h hu, List.cons_append, scanWhole]
      exact cons_append_ne_cons hzero u

theorem scanFraction_append_right {t digits r u : List Char}
    (h : scanFraction t = .ok (digits, r)) (hu : EndsNumeral u) :
    scanFraction (t ++ u) = .ok (digits, r ++ u) := by
  unfold scanFraction at h
  split at h
  · exact scanDigits_append_right h hu
  · next hpoint =>
    cases h
    cases t with
    | nil => exact scanFraction_of_endsNumeral hu
    | cons c t =>
      rw [List.cons_append, scanFraction]
      exact cons_append_ne_cons hpoint u

theorem scanPower_append_right {t r u : List Char} {p : Bool × List Char}
    (h : scanPower t = .ok (p, r)) (hu : EndsNumeral u) : scanPower (t ++ u) = .ok (p, r ++ u) := by
  unfold scanPower at h
  split at h
  all_goals
    obtain ⟨⟨digits, v⟩, hdigits, heq⟩ := map_eq_ok.1 h
    cases heq
    have hdigits' := scanDigits_append_right hdigits hu
  · rw [List.cons_append, scanPower, hdigits']
    rfl
  · rw [List.cons_append, scanPower, hdigits']
    rfl
  · next hminus hplus =>
    cases t with
    | nil => cases hdigits
    | cons c t =>
      rw [List.cons_append] at hdigits' ⊢
      rw [scanPower, hdigits']
      · rfl
      · exact cons_append_ne_cons hminus u
      · exact cons_append_ne_cons hplus u

theorem scanExponent_append_right {t r u : List Char} {p : Option (Bool × List Char)}
    (h : scanExponent t = .ok (p, r)) (hu : EndsNumeral u) :
    scanExponent (t ++ u) = .ok (p, r ++ u) := by
  unfold scanExponent at h
  split at h
  · obtain ⟨⟨power, v⟩, hpower, heq⟩ := map_eq_ok.1 h
    cases heq
    rw [List.cons_append, scanExponent, scanPower_append_right hpower hu]
    rfl
  · obtain ⟨⟨power, v⟩, hpower, heq⟩ := map_eq_ok.1 h
    cases heq
    rw [List.cons_append, scanExponent, scanPower_append_right hpower hu]
    rfl
  · next hlower hupper =>
    cases h
    cases t with
    | nil => exact scanExponent_of_endsNumeral hu
    | cons c t =>
      rw [List.cons_append, scanExponent]
      · exact cons_append_ne_cons hlower u
      · exact cons_append_ne_cons hupper u

theorem scanUnsigned_append_right {negative : Bool} {t r u : List Char} {n : Numeral}
    (h : scanUnsigned negative t = .ok (n, r)) (hu : EndsNumeral u) :
    scanUnsigned negative (t ++ u) = .ok (n, r ++ u) := by
  obtain ⟨⟨whole, v⟩, hwhole, h⟩ := bind_eq_ok.1 h
  obtain ⟨⟨fraction, w⟩, hfraction, h⟩ := bind_eq_ok.1 h
  obtain ⟨⟨power, x⟩, hpower, h⟩ := bind_eq_ok.1 h
  cases h
  rw [scanUnsigned, scanWhole_append_right hwhole hu, ok_bind]
  dsimp only
  rw [scanFraction_append_right hfraction hu, ok_bind]
  dsimp only
  rw [scanExponent_append_right hpower hu, ok_bind]
  rfl

theorem scanNumeral_append_right {t r u : List Char} {n : Numeral}
    (h : scanNumeral t = .ok (n, r)) (hu : EndsNumeral u) :
    scanNumeral (t ++ u) = .ok (n, r ++ u) := by
  unfold scanNumeral at h
  split at h
  · exact scanUnsigned_append_right h hu
  · next hminus =>
    cases t with
    | nil => cases h
    | cons c t =>
      rw [← scanUnsigned_append_right h hu, List.cons_append, scanNumeral]
      exact cons_append_ne_cons hminus u

/-! ### Values -/

/-- What a value without a flaw is scanned to in so many steps stays the same with more of them and
with a text after it. -/
def ValueStable (fuel : Nat) : Prop :=
  ∀ ⦃fuel' : Nat⦄ ⦃t r u : List Char⦄ ⦃d : Draft⦄, fuel ≤ fuel' → EndsNumeral u →
    scanValue fuel t = (d, r) → d.skip = .ok () → scanValue fuel' (t ++ u) = (d, r ++ u)

def ItemsStable (fuel : Nat) : Prop :=
  ∀ ⦃fuel' : Nat⦄ ⦃t r u : List Char⦄ ⦃items : List Draft⦄ ⦃flaw : Option Flaw⦄, fuel ≤ fuel' →
    EndsNumeral u → scanItems fuel t = (items, flaw, r) → Draft.skipItems flaw items = .ok () →
    scanItems fuel' (t ++ u) = (items, flaw, r ++ u)

def MembersStable (fuel : Nat) : Prop :=
  ∀ ⦃fuel' : Nat⦄ ⦃t r u : List Char⦄ ⦃members : List (Lexeme × Draft)⦄ ⦃flaw : Option Flaw⦄,
    fuel ≤ fuel' → EndsNumeral u → scanMembers fuel t = (members, flaw, r) →
    Draft.skipMembers flaw members = .ok () →
    scanMembers fuel' (t ++ u) = (members, flaw, r ++ u)

theorem scanItems_nil (fuel : Nat) :
    Draft.skipItems (scanItems fuel []).2.1 (scanItems fuel []).1 ≠ .ok () := by
  intro h
  rcases fuel with _ | _ | fuel
  · cases h
  · cases h
  · cases h

theorem itemsStable_succ {fuel : Nat} (hvalue : ValueStable fuel) (hitems : ItemsStable fuel) :
    ItemsStable (fuel + 1) := by
  intro fuel' t r u items flaw hfuel hu h hskip
  obtain rfl := Draft.flaw_eq_none_of_skipItems hskip
  obtain ⟨fuel', rfl⟩ := Nat.exists_eq_succ_of_ne_zero (by omega : fuel' ≠ 0)
  have hle : fuel ≤ fuel' := Nat.le_of_succ_le_succ hfuel
  obtain ⟨item, v, hitem⟩ : ∃ item v, scanValue fuel t = (item, v) := ⟨_, _, rfl⟩
  simp only [scanItems, hitem] at h
  split at h
  case h_1 => cases h
  case h_4 => cases h
  case h_2 w hv =>
    cases h
    have hfirst := hvalue hle hu hitem (Draft.skipItems_cons hskip).1
    exact scanItems_last hfirst (skipSpace_append_right hv u)
  case h_3 w hv =>
    split at h
    · cases h
    · next hbracket =>
      obtain ⟨items', flaw, r', hrest⟩ :
        ∃ items' flaw r', scanItems fuel (skipSpace w) = (items', flaw, r') := ⟨_, _, _, rfl⟩
      rw [hrest] at h
      cases h
      obtain ⟨hskipItem, hskip⟩ := Draft.skipItems_cons hskip
      have hfirst := hvalue hle hu hitem hskipItem
      cases hw : skipSpace w with
      | nil =>
        rw [hw] at hrest
        have hnil := scanItems_nil fuel
        rw [hrest] at hnil
        exact absurd hskip hnil
      | cons c x =>
        have hc : c ≠ ']' := by
          rintro rfl
          exact hbracket x hw
        rw [hw] at hrest
        exact scanItems_comma hfirst (skipSpace_append_right hv u) (skipSpace_append_right hw u) hc
          (hitems hle hu hrest hskip)

theorem membersStable_succ {fuel : Nat} (hvalue : ValueStable fuel)
    (hmembers : MembersStable fuel) : MembersStable (fuel + 1) := by
  intro fuel' t r u members flaw hfuel hu h hskip
  obtain rfl := Draft.flaw_eq_none_of_skipMembers hskip
  obtain ⟨fuel', rfl⟩ := Nat.exists_eq_succ_of_ne_zero (by omega : fuel' ≠ 0)
  have hle : fuel ≤ fuel' := Nat.le_of_succ_le_succ hfuel
  obtain ⟨key, v, hkey⟩ : ∃ key v, scanString t = (key, v) := ⟨_, _, rfl⟩
  simp only [scanMembers, hkey] at h
  split at h
  case h_1 => cases h
  case h_3 => cases h
  case h_2 w hv =>
    obtain ⟨value, x, hscan⟩ : ∃ value x, scanValue fuel w = (value, x) := ⟨_, _, rfl⟩
    rw [hscan] at h
    dsimp only at h
    split at h
    case h_1 => cases h
    case h_4 => cases h
    case h_2 y hx =>
      cases h
      obtain ⟨hskipKey, hskipValue, -⟩ := Draft.skipMembers_cons hskip
      have hname := scanString_of_flawless hkey hskipKey u
      exact scanMembers_last hname (skipSpace_append_right hv u) (hvalue hle hu hscan hskipValue)
        (skipSpace_append_right hx u)
    case h_3 y hx =>
      split at h
      case h_1 => cases h
      case h_2 => cases h
      case h_4 => cases h
      case h_3 z hy =>
        obtain ⟨members', flaw, r', hrest⟩ :
          ∃ members' flaw r', scanMembers fuel z = (members', flaw, r') := ⟨_, _, _, rfl⟩
        rw [hrest] at h
        cases h
        obtain ⟨hskipKey, hskipValue, hskip⟩ := Draft.skipMembers_cons hskip
        have hname := scanString_of_flawless hkey hskipKey u
        exact scanMembers_comma hname (skipSpace_append_right hv u)
          (hvalue hle hu hscan hskipValue) (skipSpace_append_right hx u)
          (skipSpace_append_right hy u) (hmembers hle hu hrest hskip)

theorem scanValue_array_append_right {fuel fuel' : Nat} (hitems : ItemsStable fuel)
    (hle : fuel ≤ fuel') {t r u : List Char} {d : Draft} (hu : EndsNumeral u)
    (h : scanValue (fuel + 1) ('[' :: t) = (d, r)) (hd : d.skip = .ok ()) :
    scanValue (fuel' + 1) ('[' :: (t ++ u)) = (d, r ++ u) := by
  have hspace : isSpace '[' = false := rfl
  simp only [scanValue, skipSpace_cons hspace] at h
  split at h
  case h_1 =>
    cases h
    cases hd
  case h_2 v hv =>
    cases h
    simp only [scanValue, skipSpace_cons hspace, skipSpace_append_right hv u]
  case h_3 hnil hbracket =>
    obtain ⟨items, flaw, r', hscan⟩ :
      ∃ items flaw r', scanItems fuel (skipSpace t) = (items, flaw, r') := ⟨_, _, _, rfl⟩
    rw [hscan] at h
    cases h
    obtain rfl := Draft.flaw_eq_none_of_skipItems hd
    cases hv : skipSpace t with
    | nil => exact absurd hv hnil
    | cons c v =>
      have hc : c ≠ ']' := by
        rintro rfl
        exact hbracket v hv
      rw [hv] at hscan
      exact scanValue_array (skipSpace_append_right hv u) hc (hitems hle hu hscan hd)

theorem scanValue_object_append_right {fuel fuel' : Nat} (hmembers : MembersStable fuel)
    (hle : fuel ≤ fuel') {t r u : List Char} {d : Draft} (hu : EndsNumeral u)
    (h : scanValue (fuel + 1) ('\x7b' :: t) = (d, r)) (hd : d.skip = .ok ()) :
    scanValue (fuel' + 1) ('\x7b' :: (t ++ u)) = (d, r ++ u) := by
  have hspace : isSpace '\x7b' = false := rfl
  simp only [scanValue, skipSpace_cons hspace] at h
  split at h
  case h_1 | h_4 =>
    cases h
    cases hd
  case h_2 v hv =>
    cases h
    simp only [scanValue, skipSpace_cons hspace, skipSpace_append_right hv u]
  case h_3 v hv =>
    obtain ⟨members, flaw, r', hscan⟩ :
      ∃ members flaw r', scanMembers fuel v = (members, flaw, r') := ⟨_, _, _, rfl⟩
    rw [hscan] at h
    cases h
    obtain rfl := Draft.flaw_eq_none_of_skipMembers hd
    exact scanValue_object (skipSpace_append_right hv u) (hmembers hle hu hscan hd)

/-- A value from its first character on. -/
theorem scanValue_cons_append_right {fuel fuel' : Nat} (hitems : ItemsStable fuel)
    (hmembers : MembersStable fuel) (hle : fuel ≤ fuel') {c : Char} (hspace : isSpace c = false)
    {t r u : List Char} {d : Draft} (hu : EndsNumeral u)
    (h : scanValue (fuel + 1) (c :: t) = (d, r)) (hd : d.skip = .ok ()) :
    scanValue (fuel' + 1) (c :: (t ++ u)) = (d, r ++ u) := by
  have hscan := h
  rw [scanValue, skipSpace_cons hspace] at hscan
  split at hscan
  case h_1 heq => cases heq
  case h_2 heq | h_3 heq | h_4 heq =>
    cases heq
    rw [scanValue, skipSpace_cons hspace]
    exact scanWord_append_right hscan hd u
  case h_5 heq =>
    cases heq
    obtain ⟨s, v, hs⟩ : ∃ s v, scanString t = (s, v) := ⟨_, _, rfl⟩
    rw [hs] at hscan
    cases hscan
    have hstring := scanString_of_flawless hs (Lexeme.flaw_eq_none_of_skip hd) u
    simp only [scanValue, skipSpace_cons hspace, hstring]
  case h_6 heq =>
    cases heq
    exact scanValue_array_append_right hitems hle hu h hd
  case h_7 heq =>
    cases heq
    exact scanValue_object_append_right hmembers hle hu h hd
  case h_8 heq =>
    cases heq
    split at hscan
    · next hc =>
      split at hscan
      · next n v hn =>
        cases hscan
        exact scanValue_numeral hspace hc (scanNumeral_append_right hn hu)
      · cases hscan
        cases hd
    · cases hscan
      cases hd

theorem valueStable_succ {fuel : Nat} (hitems : ItemsStable fuel) (hmembers : MembersStable fuel) :
    ValueStable (fuel + 1) := by
  intro fuel' t r u d hfuel hu h hd
  obtain ⟨fuel', rfl⟩ := Nat.exists_eq_succ_of_ne_zero (by omega : fuel' ≠ 0)
  have hle : fuel ≤ fuel' := Nat.le_of_succ_le_succ hfuel
  cases ht : skipSpace t with
  | nil =>
    rw [scanValue, ht] at h
    cases h
    cases hd
  | cons c v =>
    rw [← scanValue_skipSpace, ht] at h
    rw [← scanValue_skipSpace, skipSpace_append_right ht]
    exact scanValue_cons_append_right hitems hmembers hle (isSpace_of_skipSpace ht) hu h hd

theorem scan_stable (fuel : Nat) : ValueStable fuel ∧ ItemsStable fuel ∧ MembersStable fuel := by
  -- Values, items and members call each other, always with one step less.
  induction fuel with
  | zero =>
    refine ⟨?_, ?_, ?_⟩
    · intro fuel' t r u d hfuel hu h hd
      cases h
      cases hd
    · intro fuel' t r u items flaw hfuel hu h hskip
      cases h
      cases hskip
    · intro fuel' t r u members flaw hfuel hu h hskip
      cases h
      cases hskip
  | succ fuel ih =>
    obtain ⟨hvalue, hitems, hmembers⟩ := ih
    exact ⟨valueStable_succ hitems hmembers, itemsStable_succ hvalue hitems,
      membersStable_succ hvalue hmembers⟩

end MessageFormat.Json
