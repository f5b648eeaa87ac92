import MessageFormat.Proofs.Json.Distinct
import MessageFormat.Proofs.Json.Scalar

/-!
# Written values are read back

A value whose numbers are integers is scanned to the end of its text in either layout. The draft
that comes of it is read as the value, provided that no more containers lie around each other in it
than a reader allows.
-/

namespace MessageFormat.Json

/-- The numeral that a number is written as. -/
def Number.numeral : Number → Numeral
  | .int n _ => intNumeral n
  | .float x =>
    match scanNumeral (doubleChars x) with
    | .ok (n, _) => n
    | .error _ => ⟨x.negative, [], [], none⟩

mutual

/-- The draft of the text of a value. -/
def draft : Json → Draft
  | .null => .null
  | .bool b => .bool b
  | .number n => .numeral n.numeral
  | .string s => .string (lexemeOf s)
  | .array items => .array (draftItems items) none
  | .object members => .object (draftMembers members) none
termination_by structural j => j

def draftItems : List Json → List Draft
  | [] => []
  | item :: items => item.draft :: draftItems items
termination_by structural items => items

def draftMembers : List (String × Json) → List (Lexeme × Draft)
  | [] => []
  | (key, value) :: members => (lexemeOf key, value.draft) :: draftMembers members
termination_by structural members => members

end

def Number.IsInt : Number → Prop
  | .int _ _ => True
  | .float _ => False

mutual

/-- Every number in a value is an integer. -/
def Integral : Json → Prop
  | .number n => n.IsInt
  | .array items => IntegralItems items
  | .object members => IntegralMembers members
  | _ => True
termination_by structural j => j

def IntegralItems : List Json → Prop
  | [] => True
  | item :: items => item.Integral ∧ IntegralItems items
termination_by structural items => items

def IntegralMembers : List (String × Json) → Prop
  | [] => True
  | (_, value) :: members => value.Integral ∧ IntegralMembers members
termination_by structural members => members

end

theorem integralItems_iff {items : List Json} :
    IntegralItems items ↔ ∀ item ∈ items, item.Integral := by
  induction items with
  | nil => simp [IntegralItems]
  | cons item items ih => simp [IntegralItems, ih]

theorem integralMembers_iff {members : List (String × Json)} :
    IntegralMembers members ↔ ∀ member ∈ members, member.2.Integral := by
  induction members with
  | nil => simp [IntegralMembers]
  | cons member members ih => simp [IntegralMembers, ih]

/-! ### Space between the parts -/

theorem skipSpace_cons {c : Char} (h : isSpace c = false) (t : List Char) :
    skipSpace (c :: t) = c :: t := by
  simp [skipSpace, h]

theorem skipSpace_lineStart (layout : Layout) (level : Nat) (t : List Char) :
    skipSpace (layout.lineStart level ++ t) = skipSpace t := by
  cases layout with
  | compact => rfl
  | pretty =>
    refine List.dropWhile_append_of_pos fun c hc => ?_
    rcases List.mem_cons.1 hc with rfl | hc
    · rfl
    · rw [List.eq_of_mem_replicate hc]
      rfl

theorem skipSpace_skipSpace (t : List Char) : skipSpace (skipSpace t) = skipSpace t := by
  induction t with
  | nil => rfl
  | cons c t ih =>
    cases hc : isSpace c with
    | true => simpa [skipSpace, hc] using ih
    | false => rw [skipSpace_cons hc, skipSpace_cons hc]

theorem scanValue_skipSpace (fuel : Nat) (t : List Char) :
    scanValue fuel (skipSpace t) = scanValue fuel t := by
  cases fuel with
  | zero => rfl
  | succ fuel => simp only [scanValue, skipSpace_skipSpace]

/-! ### Values -/

/-- The text of a value begins with a character that a list can go on with. -/
theorem exists_head_chars {j : Json} (h : j.Integral) (layout : Layout) (level : Nat) :
    ∃ c u, chars layout level j = c :: u ∧ isSpace c = false ∧ c ≠ ']' := by
  cases j with
  | null => exact ⟨_, _, rfl, rfl, by decide⟩
  | bool b => cases b <;> exact ⟨_, _, rfl, rfl, by decide⟩
  | number n =>
    cases n with
    | float x => cases h
    | int n hn =>
      obtain ⟨c, u, hcons, hspace, -, hne⟩ := intChars_head n
      exact ⟨c, u, hcons, hspace, hne _ (by decide) (by decide)⟩
  | string s => exact ⟨_, _, rfl, rfl, by decide⟩
  | array items => cases items <;> exact ⟨_, _, rfl, rfl, by decide⟩
  | object members =>
    rcases members with _ | ⟨⟨key, value⟩, members⟩ <;> exact ⟨_, _, rfl, rfl, by decide⟩

theorem scanValue_numeral {fuel : Nat} {c : Char} {t r : List Char} {n : Numeral}
    (hspace : isSpace c = false) (hc : (c = '-' || c.isDigit) = true)
    (h : scanNumeral (c :: t) = .ok (n, r)) : scanValue (fuel + 1) (c :: t) = (.numeral n, r) := by
  rw [scanValue, skipSpace_cons hspace]
  split
  case h_1 heq => cases heq
  case h_2 heq | h_3 heq | h_4 heq | h_5 heq | h_6 heq | h_7 heq =>
    cases heq
    cases hc
  case h_8 heq =>
    cases heq
    rw [if_pos hc, h]

theorem scanValue_int (n : Int) {fuel : Nat} {rest : List Char} (hrest : EndsNumeral rest) :
    scanValue (fuel + 1) (intChars n ++ rest) = (.numeral (intNumeral n), rest) := by
  have hscan := scanNumeral_intChars n hrest
  obtain ⟨c, u, hcons, hspace, hc, -⟩ := intChars_head n
  have hnumeral : (c = '-' || c.isDigit) = true := by simpa using hc
  rw [hcons, List.cons_append] at hscan ⊢
  exact scanValue_numeral hspace hnumeral hscan

/-- The text of a value is scanned to its end and no further. -/
def Scans (layout : Layout) (level : Nat) (j : Json) : Prop :=
  ∀ ⦃fuel : Nat⦄ ⦃rest : List Char⦄, 2 * (chars layout level j).length ≤ fuel →
    EndsNumeral rest → scanValue fuel (chars layout level j ++ rest) = (j.draft, rest)

theorem Scans.spaced {layout : Layout} {level : Nat} {j : Json} (h : Scans layout level j)
    {fuel : Nat} {space rest : List Char} (hspace : ∀ t, skipSpace (space ++ t) = skipSpace t)
    (hfuel : 2 * (chars layout level j).length ≤ fuel) (hrest : EndsNumeral rest) :
    scanValue fuel (space ++ (chars layout level j ++ rest)) = (j.draft, rest) := by
  rw [← scanValue_skipSpace, hspace, scanValue_skipSpace, h hfuel hrest]

theorem endsNumeral_cons {c : Char} (hc : c.isDigit = false ∧ c ∉ ['.', 'e', 'E']) (t : List Char) :
    EndsNumeral (c :: t) := by
  intro d hd
  cases hd
  exact hc

theorem endsNumeral_lineStart (layout : Layout) (level : Nat) {t : List Char}
    (h : EndsNumeral t) : EndsNumeral (layout.lineStart level ++ t) := by
  cases layout with
  | compact => exact h
  | pretty => exact endsNumeral_cons (by decide) _

/-! ### Items -/

theorem endsNumeral_itemsChars (layout : Layout) (level : Nat) (items : List Json)
    (rest : List Char) : EndsNumeral (itemsChars layout level items ++ rest) := by
  cases items with
  | nil =>
    rw [itemsChars, List.append_assoc]
    exact endsNumeral_lineStart layout level (endsNumeral_cons (by decide) _)
  | cons item items => exact endsNumeral_cons (by decide) _

/-- Items are scanned to the closing bracket, given that the first one is. -/
def ScansItems (layout : Layout) (level : Nat) (items : List Json) : Prop :=
  ∀ ⦃item : Json⦄ ⦃fuel : Nat⦄ (rest : List Char), Scans layout (level + 1) item →
    2 * (chars layout (level + 1) item ++ itemsChars layout level items).length ≤ fuel →
    scanItems fuel (chars layout (level + 1) item ++ (itemsChars layout level items ++ rest)) =
      (item.draft :: draftItems items, none, rest)

theorem scanItems_last {fuel : Nat} {t u rest : List Char} {item : Draft}
    (hitem : scanValue fuel t = (item, u)) (hu : skipSpace u = ']' :: rest) :
    scanItems (fuel + 1) t = ([item], none, rest) := by
  simp only [scanItems, hitem, hu]

theorem scanItems_comma {fuel : Nat} {t u v w rest : List Char} {c : Char} {item : Draft}
    {items : List Draft} (hitem : scanValue fuel t = (item, u)) (hu : skipSpace u = ',' :: v)
    (hv : skipSpace v = c :: w) (hc : c ≠ ']')
    (hitems : scanItems fuel (c :: w) = (items, none, rest)) :
    scanItems (fuel + 1) t = (item :: items, none, rest) := by
  simp only [scanItems, hitem, hu, hv]
  split
  · next heq => exact absurd (List.cons.inj heq).1 hc
  · rw [hitems]

theorem ScansItems.nil (layout : Layout) (level : Nat) : ScansItems layout level [] := by
  intro item fuel rest hitem hfuel
  simp only [List.length_append, itemsChars, List.length_singleton] at hfuel
  obtain ⟨fuel, rfl⟩ := Nat.exists_eq_succ_of_ne_zero (by omega : fuel ≠ 0)
  refine scanItems_last (hitem (by omega) (endsNumeral_itemsChars layout level [] rest)) ?_
  rw [itemsChars, List.append_assoc, skipSpace_lineStart]
  rfl

theorem ScansItems.cons {layout : Layout} {level : Nat} {next : Json} {items : List Json}
    (hnext : next.Integral) (hscan : Scans layout (level + 1) next)
    (hitems : ScansItems layout level items) : ScansItems layout level (next :: items) := by
  intro item fuel rest hitem hfuel
  simp only [List.length_append, itemsChars, List.length_cons] at hfuel
  obtain ⟨fuel, rfl⟩ := Nat.exists_eq_succ_of_ne_zero (by omega : fuel ≠ 0)
  obtain ⟨c, u, hcons, hspace, hc⟩ := exists_head_chars hnext layout (level + 1)
  have hrest := hitems rest hscan (by rw [List.length_append]; omega : _ ≤ fuel)
  rw [hcons, List.cons_append] at hrest
  have hcomma : itemsChars layout level (next :: items) ++ rest = ',' ::
      (layout.lineStart (level + 1) ++ (c :: u ++ (itemsChars layout level items ++ rest))) := by
    simp [itemsChars, hcons]
  have hu := endsNumeral_itemsChars layout level (next :: items) rest
  rw [hcomma] at hu ⊢
  refine scanItems_comma (hitem (by omega) hu) (skipSpace_cons rfl _) ?_ hc hrest
  rw [skipSpace_lineStart, List.cons_append, skipSpace_cons hspace]

/-! ### Members -/

theorem endsNumeral_membersChars (layout : Layout) (level : Nat) (members : List (String × Json))
    (rest : List Char) : EndsNumeral (membersChars layout level members ++ rest) := by
  rcases members with _ | ⟨⟨key, value⟩, members⟩
  · rw [membersChars, List.append_assoc]
    exact endsNumeral_lineStart layout level (endsNumeral_cons (by decide) _)
  · exact endsNumeral_cons (by decide) _

/-- A name after its opening quote, the colon and a value. -/
def memberChars (layout : Layout) (level : Nat) (key : String) (value : Json) : List Char :=
  key.toList.flatMap escapeChar ++ '"' :: (layout.colon ++ chars layout level value)

/-- Members are scanned to the closing brace, given that the value of the first one is. -/
def ScansMembers (layout : Layout) (level : Nat) (members : List (String × Json)) : Prop :=
  ∀ (key : String) ⦃value : Json⦄ ⦃fuel : Nat⦄ (rest : List Char),
    Scans layout (level + 1) value →
    2 * (memberChars layout (level + 1) key value).length +
      2 * (membersChars layout level members).length ≤ fuel →
    scanMembers fuel (memberChars layout (level + 1) key value ++
        (membersChars layout level members ++ rest)) =
      ((lexemeOf key, value.draft) :: draftMembers members, none, rest)

/-- The name, the colon and the value of a member, one after the other. -/
theorem scan_memberChars {layout : Layout} {level fuel : Nat} {value : Json}
    (h : Scans layout level value) (key : String) {rest : List Char}
    (hfuel : 2 * (memberChars layout level key value).length ≤ fuel) (hrest : EndsNumeral rest) :
    ∃ t u, scanString (memberChars layout level key value ++ rest) = (lexemeOf key, t) ∧
      skipSpace t = ':' :: u ∧ scanValue fuel u = (value.draft, rest) := by
  simp only [memberChars, List.length_append, List.length_cons] at hfuel
  obtain ⟨space, hcolon, hspace⟩ : ∃ space, layout.colon = ':' :: space ∧
      ∀ t, skipSpace (space ++ t) = skipSpace t := by
    cases layout with
    | compact => exact ⟨[], rfl, fun t => rfl⟩
    | pretty => exact ⟨[' '], rfl, fun t => rfl⟩
  refine ⟨layout.colon ++ (chars layout level value ++ rest),
    space ++ (chars layout level value ++ rest), ?_, ?_, h.spaced hspace (by omega) hrest⟩
  · rw [memberChars, List.append_assoc, List.cons_append, scanString_escape, List.append_assoc]
    rfl
  · rw [hcolon, List.cons_append, skipSpace_cons rfl]

theorem scanMembers_last {fuel : Nat} {s t u v rest : List Char} {key : Lexeme} {value : Draft}
    (hkey : scanString s = (key, t)) (ht : skipSpace t = ':' :: u)
    (hvalue : scanValue fuel u = (value, v)) (hv : skipSpace v = '\x7d' :: rest) :
    scanMembers (fuel + 1) s = ([(key, value)], none, rest) := by
  simp only [scanMembers, hkey, ht, hvalue, hv]

theorem scanMembers_comma {fuel : Nat} {s t u v w x rest : List Char} {key : Lexeme}
    {value : Draft} {members : List (Lexeme × Draft)} (hkey : scanString s = (key, t))
    (ht : skipSpace t = ':' :: u) (hvalue : scanValue fuel u = (value, v))
    (hv : skipSpace v = ',' :: w) (hw : skipSpace w = '"' :: x)
    (hmembers : scanMembers fuel x = (members, none, rest)) :
    scanMembers (fuel + 1) s = ((key, value) :: members, none, rest) := by
  simp only [scanMembers, hkey, ht, hvalue, hv, hw, hmembers]

theorem ScansMembers.nil (layout : Layout) (level : Nat) : ScansMembers layout level [] := by
  intro key value fuel rest hvalue hfuel
  obtain ⟨fuel, rfl⟩ : ∃ f, fuel = f + 1 := by
    simp only [membersChars, List.length_append, List.length_singleton] at hfuel
    exact Nat.exists_eq_succ_of_ne_zero (by omega)
  have hlength : 0 < (membersChars layout level []).length := by
    simp [membersChars]
  obtain ⟨t, u, hkey, ht, hu⟩ := scan_memberChars hvalue key (by omega : _ ≤ fuel)
    (endsNumeral_membersChars layout level [] rest)
  refine scanMembers_last hkey ht hu ?_
  rw [membersChars, List.append_assoc, skipSpace_lineStart]
  rfl

theorem ScansMembers.cons {layout : Layout} {level : Nat} {next : String} {after : Json}
    {members : List (String × Json)} (hscan : Scans layout (level + 1) after)
    (hmembers : ScansMembers layout level members) :
    ScansMembers layout level ((next, after) :: members) := by
  intro key value fuel rest hvalue hfuel
  have hends := endsNumeral_membersChars layout level ((next, after) :: members) rest
  have hcomma : membersChars layout level ((next, after) :: members) ++ rest = ',' ::
      (layout.lineStart (level + 1) ++ '"' :: (memberChars layout (level + 1) next after ++
        (membersChars layout level members ++ rest))) := by
    simp [membersChars, memberChars, stringChars]
  have hlength := congrArg List.length hcomma
  simp only [List.length_append, List.length_cons] at hlength
  obtain ⟨fuel, rfl⟩ := Nat.exists_eq_succ_of_ne_zero (by omega : fuel ≠ 0)
  have hrest := hmembers next rest hscan (by omega : _ ≤ fuel)
  obtain ⟨t, u, hkey, ht, hu⟩ := scan_memberChars hvalue key (by omega : _ ≤ fuel) hends
  rw [hcomma] at hkey hu ⊢
  refine scanMembers_comma hkey ht hu (skipSpace_cons rfl _) ?_ hrest
  rw [skipSpace_lineStart, skipSpace_cons rfl]

/-! ### Whole values -/

theorem scanValue_string (s : String) (fuel : Nat) (rest : List Char) :
    scanValue (fuel + 1) (stringChars s ++ rest) = (.string (lexemeOf s), rest) := by
  have hscan := scanString_escape s.toList rest
  simp only [stringChars, List.cons_append, List.append_assoc, List.nil_append, scanValue,
    skipSpace_cons (by decide : isSpace '"' = false), hscan]
  rfl

theorem scanValue_array {fuel : Nat} {t u rest : List Char} {c : Char} {items : List Draft}
    (ht : skipSpace t = c :: u) (hc : c ≠ ']')
    (hitems : scanItems fuel (c :: u) = (items, none, rest)) :
    scanValue (fuel + 1) ('[' :: t) = (.array items none, rest) := by
  simp only [scanValue, skipSpace_cons (by decide : isSpace '[' = false), ht]
  split
  · next heq => cases heq
  · next heq => exact absurd (List.cons.inj heq).1 hc
  · rw [hitems]

theorem scanValue_object {fuel : Nat} {t u rest : List Char} {members : List (Lexeme × Draft)}
    (ht : skipSpace t = '"' :: u) (hmembers : scanMembers fuel u = (members, none, rest)) :
    scanValue (fuel + 1) ('\x7b' :: t) = (.object members none, rest) := by
  simp only [scanValue, skipSpace_cons (by decide : isSpace '\x7b' = false), ht, hmembers]

mutual

theorem scans (j : Json) (h : j.Integral) (layout : Layout) (level : Nat) :
    Scans layout level j := by
  intro fuel rest hfuel hrest
  have hpos : 0 < (chars layout level j).length := by
    obtain ⟨c, u, hcons, -⟩ := exists_head_chars h layout level
    simp [hcons]
  obtain ⟨fuel, rfl⟩ := Nat.exists_eq_succ_of_ne_zero (by omega : fuel ≠ 0)
  cases j with
  | null => rfl
  | bool b => cases b <;> rfl
  | number n =>
    cases n with
    | int n hn => exact scanValue_int n hrest
    | float x => cases h
  | string s => exact scanValue_string s fuel rest
  | array items =>
    cases items with
    | nil => rfl
    | cons item items =>
      obtain ⟨c, u, hcons, hspace, hc⟩ := exists_head_chars h.1 layout (level + 1)
      simp only [chars, List.length_append, List.length_cons] at hfuel
      have hitems : scanItems fuel _ = _ := scansItems items h.2 layout level rest
        (scans item h.1 layout (level + 1)) (by rw [List.length_append]; omega)
      rw [hcons, List.cons_append] at hitems
      have hskip : skipSpace (layout.lineStart (level + 1) ++
          (chars layout (level + 1) item ++ (itemsChars layout level items ++ rest))) =
          c :: (u ++ (itemsChars layout level items ++ rest)) := by
        rw [skipSpace_lineStart, hcons, List.cons_append, skipSpace_cons hspace]
      simpa [chars, draft, draftItems] using scanValue_array hskip hc hitems
  | object members =>
    rcases members with _ | ⟨⟨key, value⟩, members⟩
    · rfl
    · have hchars : chars layout level (.object ((key, value) :: members)) ++ rest = '\x7b' ::
          (layout.lineStart (level + 1) ++ '"' :: (memberChars layout (level + 1) key value ++
            (membersChars layout level members ++ rest))) := by
        simp [chars, memberChars, stringChars]
      have hlength := congrArg List.length hchars
      simp only [List.length_append, List.length_cons] at hlength
      have hmembers : scanMembers fuel _ = _ := scansMembers members h.2 layout level key rest
        (scans value h.1 layout (level + 1)) (by omega)
      rw [hchars]
      refine scanValue_object ?_ hmembers
      rw [skipSpace_lineStart, skipSpace_cons rfl]
termination_by structural j

theorem scansItems (items : List Json) (h : IntegralItems items) (layout : Layout) (level : Nat) :
    ScansItems layout level items := by
  cases items with
  | nil => exact .nil layout level
  | cons item items =>
    exact (scansItems items h.2 layout level).cons h.1 (scans item h.1 layout (level + 1))
termination_by structural items

theorem scansMembers (members : List (String × Json)) (h : IntegralMembers members)
    (layout : Layout) (level : Nat) : ScansMembers layout level members := by
  cases members with
  | nil => exact .nil layout level
  | cons member members =>
    exact (scansMembers members h.2 layout level).cons (scans member.2 h.1 layout (level + 1))
termination_by structural members

end

/-! ### Reading the draft -/

mutual

/-- The draft of a value is read as the value as far as its containers are allowed. -/
theorem read_draft (j : Json) (h : j.Integral) {depth : Nat} (hdepth : j.depth ≤ depth) :
    j.draft.read depth = .ok j := by
  cases j with
  | null => rfl
  | bool b => rfl
  | number n =>
    cases n with
    | float x => cases h
    | int n hn =>
      rw [draft, Draft.read, Number.numeral, read_intNumeral hn]
      rfl
  | string s =>
    rw [draft, Draft.read, read_lexemeOf]
    rfl
  | array items =>
    rw [Json.depth] at hdepth
    obtain ⟨depth, rfl⟩ := Nat.exists_eq_succ_of_ne_zero (by omega : depth ≠ 0)
    rw [draft, Draft.read, readItems_draft items h (by omega)]
    rfl
  | object members =>
    rw [Json.depth] at hdepth
    obtain ⟨depth, rfl⟩ := Nat.exists_eq_succ_of_ne_zero (by omega : depth ≠ 0)
    rw [draft, Draft.read, readMembers_draft members h (by omega)]
    rfl
termination_by structural j

theorem readItems_draft (items : List Json) (h : IntegralItems items) {depth : Nat}
    (hdepth : itemsDepth items ≤ depth) :
    Draft.readItems depth none (draftItems items) = .ok items := by
  cases items with
  | nil => rfl
  | cons item items =>
    rw [itemsDepth] at hdepth
    rw [draftItems, Draft.readItems, read_draft item h.1 (by omega), ok_bind,
      readItems_draft items h.2 (by omega), ok_bind]
    rfl
termination_by structural items

theorem readMembers_draft (members : List (String × Json)) (h : IntegralMembers members)
    {depth : Nat} (hdepth : membersDepth members ≤ depth) :
    Draft.readMembers depth none (draftMembers members) = .ok members := by
  cases members with
  | nil => rfl
  | cons member members =>
    obtain ⟨key, value⟩ := member
    rw [membersDepth] at hdepth
    rw [draftMembers, Draft.readMembers, read_lexemeOf, ok_bind, read_draft value h.1 (by omega),
      ok_bind, readMembers_draft members h.2 (by omega), ok_bind]
    rfl
termination_by structural members

end

/-! ### Texts -/

theorem scan_text {j : Json} (h : j.Integral) {layout : Layout} {text : String} {rest : List Char}
    (htext : text.toList = chars layout 0 j ++ rest) (hrest : EndsNumeral rest) :
    Document.scan text = ⟨j.draft, rest⟩ := by
  have hscan : scanValue (2 * text.toList.length + 2) text.toList = (j.draft, rest) := by
    rw [htext]
    refine scans j h layout 0 ?_ hrest
    rw [List.length_append]
    omega
  rw [Document.scan, hscan]

/-- A written value is read back, whichever the layout. -/
theorem rawOfText_render {j : Json} (h : j.Integral) (hdepth : j.depth ≤ maxDepth)
    (layout : Layout) : rawOfText (j.render layout) = .ok j := by
  have htext : (j.render layout).toList = chars layout 0 j ++ [] := by
    rw [render, String.toList_ofList, List.append_nil]
  have hrest : EndsNumeral [] := fun c hc => by cases hc
  rw [rawOfText_eq_ok, scan_text h htext hrest]
  exact ⟨read_draft j h hdepth, rfl⟩

end MessageFormat.Json
