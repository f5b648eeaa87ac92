import MessageFormat.Json.Draft.Object
import MessageFormat.Proofs.Json.Stable

/-!
# Texts put together from texts

The text of an object can be put together from the texts of its values as they stand, blanks and
all. Its draft holds the drafts that the values have on their own, and as long as a draft is not too
deep, it is read in the same way wherever it is.
-/

namespace MessageFormat.Json

instance {ε : Type} (x : Except ε Unit) : Decidable (x = .ok ()) :=
  match x with
  | .ok () => isTrue rfl
  | .error _ => isFalse nofun

/-- A text is one value by the grammar of JSON: nothing in it is flawed and nothing comes after
it. -/
structure IsValue (text : String) : Prop where
  flawless : (Document.scan text).root.skip = .ok ()
  complete : skipSpace (Document.scan text).rest = []

instance (text : String) : Decidable (IsValue text) :=
  decidable_of_iff
    ((Document.scan text).root.skip = .ok () ∧ skipSpace (Document.scan text).rest = [])
    ⟨fun h => ⟨h.1, h.2⟩, fun h => ⟨h.flawless, h.complete⟩⟩

/-- A name and the text of a value. -/
def memberText (m : String × String) : List Char :=
  stringChars m.1 ++ ':' :: m.2.toList

/-- The text of an object, given those of its values. -/
def objectText : List (String × String) → String
  | [] => "\x7b\x7d"
  | m :: ms =>
    String.ofList ('\x7b' :: memberText m ++ (ms.flatMap fun n => ',' :: memberText n) ++ ['\x7d'])

/-- The draft of a member that a text is put together from. -/
def memberDraft (m : String × String) : Lexeme × Draft :=
  (lexemeOf m.1, (Document.scan m.2).root)

/-! ### Scanning -/

theorem skipSpace_append_of_nil {space : List Char} (h : skipSpace space = []) (u : List Char) :
    skipSpace (space ++ u) = skipSpace u := by
  unfold skipSpace at h ⊢
  rw [List.dropWhile_append, h]
  rfl

/-- The text of a value is scanned like the document it is, wherever it stands. -/
theorem IsValue.scanValue_append {text : String} (h : IsValue text) {fuel : Nat} {u : List Char}
    (hfuel : 2 * text.toList.length + 2 ≤ fuel) (hu : EndsNumeral u) :
    ∃ v, scanValue fuel (text.toList ++ u) = ((Document.scan text).root, v) ∧
      skipSpace v = skipSpace u := by
  have hscan : scanValue (2 * text.toList.length + 2) text.toList =
      ((Document.scan text).root, (Document.scan text).rest) := rfl
  have hstable := (scan_stable (2 * text.toList.length + 2)).1 hfuel hu hscan h.flawless
  exact ⟨_, hstable, skipSpace_append_of_nil h.complete u⟩

/-- The name of a member after its opening quote, the colon and the value, in front of what comes
after a member. -/
theorem scan_memberText {m : String × String} (h : IsValue m.2) {fuel : Nat} {s u : List Char}
    (hs : '"' :: s = memberText m ++ u) (hfuel : 2 * (memberText m).length ≤ fuel + 1)
    (hu : EndsNumeral u) :
    ∃ t v w, scanString s = (lexemeOf m.1, t) ∧ skipSpace t = ':' :: v ∧
      scanValue fuel v = ((Document.scan m.2).root, w) ∧ skipSpace w = skipSpace u := by
  have hlength : m.2.toList.length + 3 ≤ (memberText m).length := by
    simp only [memberText, stringChars, List.length_append, List.length_cons]
    omega
  have htext : s = m.1.toList.flatMap escapeChar ++ '"' :: ':' :: (m.2.toList ++ u) := by
    simpa [memberText, stringChars] using hs
  obtain ⟨w, hvalue, hw⟩ := h.scanValue_append (by omega : _ ≤ fuel) hu
  refine ⟨':' :: (m.2.toList ++ u), m.2.toList ++ u, w, ?_, skipSpace_cons rfl _, hvalue, hw⟩
  rw [htext, scanString_escape]
  rfl

theorem scanMembers_memberTexts {m : String × String} {ms : List (String × String)}
    (h : ∀ n ∈ m :: ms, IsValue n.2) {fuel : Nat} {s u : List Char}
    (hs : '"' :: s = memberText m ++ ((ms.flatMap fun n => ',' :: memberText n) ++ '\x7d' :: u))
    (hfuel : 2 * s.length ≤ fuel) :
    scanMembers fuel s = ((m :: ms).map memberDraft, none, u) := by
  have hm : IsValue m.2 := h m List.mem_cons_self
  have hlength := congrArg List.length hs
  have hpos : 0 < (memberText m).length := List.length_pos_of_mem List.mem_cons_self
  induction ms generalizing m fuel s with
  | nil =>
    simp only [List.length_append, List.length_cons, List.flatMap_nil, List.nil_append] at hlength
    obtain ⟨fuel, rfl⟩ := Nat.exists_eq_succ_of_ne_zero (by omega : fuel ≠ 0)
    obtain ⟨t, v, w, hname, ht, hvalue, hw⟩ := scan_memberText hm hs (by omega : _ ≤ fuel + 1)
      (endsNumeral_cons (by decide) u)
    exact scanMembers_last hname ht hvalue (hw.trans (skipSpace_cons rfl u))
  | cons n ms ih =>
    obtain ⟨x, hx⟩ : ∃ x, memberText n ++ ((ms.flatMap fun n => ',' :: memberText n) ++
        '\x7d' :: u) = '"' :: x := ⟨_, rfl⟩
    have hmore : ((n :: ms).flatMap fun n => ',' :: memberText n) ++ '\x7d' :: u =
        ',' :: '"' :: x := by
      rw [← hx, List.flatMap_cons, List.append_assoc, List.cons_append]
    rw [hmore] at hs hlength
    simp only [List.length_append, List.length_cons] at hlength
    obtain ⟨fuel, rfl⟩ := Nat.exists_eq_succ_of_ne_zero (by omega : fuel ≠ 0)
    obtain ⟨t, v, w, hname, ht, hvalue, hw⟩ := scan_memberText hm hs (by omega : _ ≤ fuel + 1)
      (endsNumeral_cons (by decide) _)
    have hrest : scanMembers fuel x = ((n :: ms).map memberDraft, none, u) := by
      have hn := fun k hk => h k (List.mem_cons_of_mem m hk)
      exact ih hn hx.symm (by omega) (hn n List.mem_cons_self) (congrArg List.length hx.symm)
        (List.length_pos_of_mem List.mem_cons_self)
    exact scanMembers_comma hname ht hvalue (hw.trans (skipSpace_cons rfl _)) (skipSpace_cons rfl x)
      hrest

/-- The draft of an object that is put together from texts of values. -/
theorem scan_objectText {members : List (String × String)} (h : ∀ m ∈ members, IsValue m.2) :
    Document.scan (objectText members) = ⟨.object (members.map memberDraft) none, []⟩ := by
  cases members with
  | nil => rfl
  | cons m ms =>
    obtain ⟨s, hs⟩ : ∃ s, memberText m ++ ((ms.flatMap fun n => ',' :: memberText n) ++
        ['\x7d']) = '"' :: s := ⟨_, rfl⟩
    have htext : (objectText (m :: ms)).toList = '\x7b' :: '"' :: s := by
      rw [← hs, objectText, String.toList_ofList, List.cons_append, List.cons_append,
        List.append_assoc]
    have hfuel : 2 * (objectText (m :: ms)).toList.length + 2 = (2 * s.length + 5) + 1 := by
      rw [htext, List.length_cons, List.length_cons]
      omega
    have hmembers : scanMembers (2 * s.length + 5) s = ((m :: ms).map memberDraft, none, []) :=
      scanMembers_memberTexts h hs.symm (by omega)
    rw [Document.scan, hfuel, htext, scanValue_object (skipSpace_cons rfl s) hmembers]

/-- An object that is put together from values is a value itself. -/
theorem isValue_objectText {members : List (String × String)} (h : ∀ m ∈ members, IsValue m.2) :
    IsValue (objectText members) := by
  have hmembers : ∀ ms : List (String × String), (∀ m ∈ ms, IsValue m.2) →
      Draft.skipMembers none (ms.map memberDraft) = .ok () := by
    intro ms hms
    induction ms with
    | nil => rfl
    | cons m ms ih =>
      have hm := (hms m List.mem_cons_self).flawless
      rw [List.map_cons, memberDraft, Draft.skipMembers, hm]
      exact ih fun n hn => hms n (List.mem_cons_of_mem m hn)
  constructor
  · rw [scan_objectText h]
    exact hmembers members h
  · rw [scan_objectText h]
    rfl

theorem readObject_objectText {α β : Type} (start : β) (put : β → String → α → β)
    (readOne : Nat → Draft → Except ReadError α) {members : List (String × String)}
    (h : ∀ m ∈ members, IsValue m.2) :
    readObject start put readOne (objectText members) =
      readNamed put readOne (maxDepth - 1) none start (members.map memberDraft) := by
  have hscan := scan_objectText h
  have hrest : skipSpace (Document.scan (objectText members)).rest = [] := by
    rw [hscan]
    rfl
  rw [readObject, readDocument_of_rest _ hrest, hscan]

/-! ### Depth -/

namespace Draft

mutual

/-- How many containers lie around each other in a draft at most. -/
def depth : Draft → Nat
  | .array items _ => itemsDepth items + 1
  | .object members _ => membersDepth members + 1
  | _ => 0
termination_by structural d => d

def itemsDepth : List Draft → Nat
  | [] => 0
  | item :: items => max item.depth (itemsDepth items)
termination_by structural items => items

def membersDepth : List (Lexeme × Draft) → Nat
  | [] => 0
  | (_, value) :: members => max value.depth (membersDepth members)
termination_by structural members => members

end

mutual

/-- A draft is read in the same way wherever it is not too deep. -/
theorem read_eq_read (d : Draft) {m n : Nat} (hm : d.depth ≤ m) (hn : d.depth ≤ n) :
    d.read m = d.read n := by
  cases d with
  | array items flaw =>
    rw [depth] at hm hn
    obtain ⟨m, rfl⟩ := Nat.exists_eq_succ_of_ne_zero (by omega : m ≠ 0)
    obtain ⟨n, rfl⟩ := Nat.exists_eq_succ_of_ne_zero (by omega : n ≠ 0)
    rw [read, read, readItems_eq_readItems items flaw (by omega : _ ≤ m) (by omega : _ ≤ n)]
  | object members flaw =>
    rw [depth] at hm hn
    obtain ⟨m, rfl⟩ := Nat.exists_eq_succ_of_ne_zero (by omega : m ≠ 0)
    obtain ⟨n, rfl⟩ := Nat.exists_eq_succ_of_ne_zero (by omega : n ≠ 0)
    rw [read, read, readMembers_eq_readMembers members flaw (by omega : _ ≤ m) (by omega : _ ≤ n)]
  | _ => rfl
termination_by structural d

theorem readItems_eq_readItems (items : List Draft) (flaw : Option Flaw) {m n : Nat}
    (hm : itemsDepth items ≤ m) (hn : itemsDepth items ≤ n) :
    readItems m flaw items = readItems n flaw items := by
  cases items with
  | nil => rfl
  | cons item items =>
    rw [itemsDepth] at hm hn
    rw [readItems, readItems, read_eq_read item (by omega : _ ≤ m) (by omega : _ ≤ n),
      readItems_eq_readItems items flaw (by omega : _ ≤ m) (by omega : _ ≤ n)]
termination_by structural items

theorem readMembers_eq_readMembers (members : List (Lexeme × Draft)) (flaw : Option Flaw)
    {m n : Nat} (hm : membersDepth members ≤ m) (hn : membersDepth members ≤ n) :
    readMembers m flaw members = readMembers n flaw members := by
  cases members with
  | nil => rfl
  | cons member members =>
    obtain ⟨key, value⟩ := member
    rw [membersDepth] at hm hn
    rw [readMembers, readMembers, read_eq_read value (by omega : _ ≤ m) (by omega : _ ≤ n),
      readMembers_eq_readMembers members flaw (by omega : _ ≤ m) (by omega : _ ≤ n)]
termination_by structural members

end

end Draft

end MessageFormat.Json
