import MessageFormat.Proofs.Message.Balance

/-!
# Tags make no difference to what is printed between them

Taking the tag marks out of the text of a message gives the text of the message whose tags are
replaced by what is in them. So the children of a tag are quoted and indented exactly as they are
without it, at whatever depth, and no blank at an end is kept or lost but those that trimming takes
off.
-/

namespace MessageFormat

namespace Text

/-- What is left of a text, from inside or outside of a tag mark on, without every piece from a `<`
up to the next `>`. -/
def unmarked : Bool → List Char → List Char
  | _, [] => []
  | true, c :: s => unmarked (c ≠ '>') s
  | false, c :: s => if c = '<' then unmarked true s else c :: unmarked false s

/-- What is left of a text without its tag marks and without blanks at its ends. -/
def withoutMarks (s : String) : String :=
  String.ofList (trim (unmarked false s.toList))

end Text

/-! ### Messages without tags -/

mutual

/-- The node itself or, if it is a tag, what is in it, and no tags inside of it. -/
def Node.withoutTags : Node → List Node
  | .plural name kind offset branches => [.plural name kind offset (Branches.withoutTags branches)]
  | .select name branches => [.select name (Branches.withoutTags branches)]
  | .tag _ children => Message.withoutTags children
  | .literal t => [.literal t]
  | .argument name => [.argument name]
  | .formatted format name style => [.formatted format name style]
  | .pound => [.pound]
termination_by structural node => node

/-- The message with every tag at any depth replaced by what is in it. -/
def Message.withoutTags : List Node → List Node
  | [] => []
  | node :: nodes => node.withoutTags ++ Message.withoutTags nodes
termination_by structural nodes => nodes

def Branches.withoutTags : List (String × List Node) → List (String × List Node)
  | [] => []
  | (key, body) :: branches => (key, Message.withoutTags body) :: Branches.withoutTags branches
termination_by structural branches => branches

end

/-- The texts of a style. -/
def ArgStyle.texts : ArgStyle → List String
  | .text t => [t]
  | .number tokens => tokens.flatMap fun token => token.stem :: token.options
  | .dateTime pattern => [pattern]

/-- The texts that a node has itself: its name or literal, its style and the keys of its
branches. -/
def Node.texts : Node → List String
  | .literal t => [t]
  | .argument name | .tag name _ => [name]
  | .formatted _ name style => name :: style.toList.flatMap ArgStyle.texts
  | .pound => []
  | .plural name _ _ branches | .select name branches => name :: branches.map Prod.fst

/-- Neither half of a tag mark stands in a text of the node. -/
def Node.Markless (node : Node) : Prop :=
  ∀ s ∈ node.texts, '<' ∉ s.toList ∧ '>' ∉ s.toList

instance (node : Node) : Decidable node.Markless :=
  inferInstanceAs (Decidable (∀ _ ∈ _, _))

namespace Text

/-! ### Marks in a text -/

/-- The text `t` is left of `s`, whatever comes after it. -/
def Leaves (s t : List Char) : Prop :=
  ∀ rest, unmarked false (s ++ rest) = t ++ unmarked false rest

namespace Leaves

variable {s t u v : List Char}

theorem nil : Leaves [] [] := fun _ => rfl

theorem append (hs : Leaves s t) (hu : Leaves u v) : Leaves (s ++ u) (t ++ v) := by
  intro rest
  rw [List.append_assoc, hs, hu, List.append_assoc]

theorem of_not_mem (h : '<' ∉ s) : Leaves s s := by
  induction s with
  | nil => exact nil
  | cons c s ih =>
    rw [List.mem_cons, not_or] at h
    intro rest
    rw [List.cons_append, unmarked, if_neg (Ne.symm h.1), ih h.2, List.cons_append]

/-- Nothing is left of a tag mark. -/
theorem mark (h : '>' ∉ s) : Leaves ('<' :: s ++ ['>']) [] := by
  intro rest
  have hinside : ∀ u, '>' ∉ u → unmarked true (u ++ '>' :: rest) = unmarked false rest := by
    intro u hu
    induction u with
    | nil => simp [unmarked]
    | cons c u ih =>
      rw [List.mem_cons, not_or] at hu
      simpa [unmarked, Ne.symm hu.1] using ih hu.2
  rw [List.cons_append, List.cons_append, unmarked, if_pos rfl, List.append_assoc]
  exact hinside s h

end Leaves

theorem unmarked_subset (marked : Bool) (s : List Char) : unmarked marked s ⊆ s := by
  intro c hc
  fun_induction unmarked marked s with
  | case1 => exact hc
  | case2 d s ih => exact List.mem_cons_of_mem _ (ih hc)
  | case3 s ih => exact List.mem_cons_of_mem _ (ih hc)
  | case4 d s hd ih =>
    rcases List.mem_cons.1 hc with rfl | hc
    · exact List.mem_cons_self
    · exact List.mem_cons_of_mem _ (ih hc)

/-- The text before another one keeps what is left of it and decides how that one is read. -/
theorem exists_unmarked_append (marked : Bool) (s t : List Char) :
    ∃ marked', unmarked marked (s ++ t) = unmarked marked s ++ unmarked marked' t := by
  induction s generalizing marked with
  | nil => exact ⟨marked, rfl⟩
  | cons c s ih =>
    cases marked with
    | true =>
      rw [List.cons_append, unmarked, unmarked]
      exact ih _
    | false =>
      rw [List.cons_append, unmarked, unmarked]
      split
      · exact ih true
      · obtain ⟨marked', h⟩ := ih false
        exact ⟨marked', by rw [h, List.cons_append]⟩

theorem not_mem_of_blank {s : List Char} (h : ∀ c ∈ s, isBlank c = true) : '<' ∉ s := by
  intro hmem
  have hblank := h '<' hmem
  cases hblank

/-- It does not matter whether blanks at the ends are taken off before. -/
theorem trim_unmarked_trim (s : List Char) :
    trim (unmarked false (trim s)) = trim (unmarked false s) := by
  obtain ⟨u, v, hsplit, hu, hv⟩ := exists_trim s
  obtain ⟨marked, hend⟩ := exists_unmarked_append false (trim s) v
  have hwhole : unmarked false s = u ++ unmarked false (trim s) ++ unmarked marked v := by
    have hstart := Leaves.of_not_mem (not_mem_of_blank hu) (trim s ++ v)
    rw [← List.append_assoc, ← hsplit, hend, ← List.append_assoc] at hstart
    exact hstart
  rw [hwhole, trim_append_blank hu fun c hc => hv c (unmarked_subset marked v hc)]

end Text

/-! ### Texts of nodes -/

theorem Quoting.mem_escape {inPlural : Bool} {t : List Char} {c : Char}
    (h : c ∈ escape inPlural t) : c = '\'' ∨ c ∈ t := by
  have hbraces : c ∈ quoteBraces t → c = '\'' ∨ c ∈ t := by
    intro hc
    rcases free_or_spans t with hfree | ⟨before, span, after, hspans⟩
    · rw [quoteBraces_of_no_brace hfree] at hc
      exact .inr hc
    · rw [hspans.quoteBraces_eq] at hc
      rw [hspans.split]
      simp only [List.mem_append, List.mem_cons] at hc ⊢
      grind
  cases inPlural with
  | false => exact hbraces h
  | true =>
    obtain ⟨d, hd, hc⟩ := List.mem_flatMap.1 h
    split at hc
    · next hpound =>
      subst hpound
      simp only [List.mem_cons, List.not_mem_nil, or_false] at hc
      rcases hc with rfl | rfl | rfl
      · exact .inl rfl
      · exact hbraces hd
      · exact .inl rfl
    · obtain rfl := List.mem_singleton.1 hc
      exact hbraces hd

theorem Quoting.not_mem_escape {inPlural : Bool} {t : List Char} (h : '<' ∉ t) :
    '<' ∉ escape inPlural t :=
  fun hmem => (mem_escape hmem).elim (by decide) h

theorem not_mem_offsetChars (offset : Option UInt32) : '<' ∉ offsetChars offset := by
  cases offset with
  | none => exact List.not_mem_nil
  | some n =>
    rw [offsetChars]
    split
    · exact List.not_mem_nil
    · rw [List.mem_append, not_or]
      refine ⟨by decide, fun hmem => ?_⟩
      have hdigit := Nat.isDigit_of_mem_toDigits (by decide) (by decide) hmem
      cases hdigit

theorem ArgStyle.not_mem_chars {style : ArgStyle} (h : ∀ s ∈ style.texts, '<' ∉ s.toList) :
    '<' ∉ style.chars := by
  have hskeleton : ∀ {s : List Char}, '<' ∉ s → '<' ∉ ':' :: ':' :: s := by
    intro s hs
    simpa using hs
  cases style with
  | text t => exact Quoting.not_mem_escape (h t List.mem_cons_self)
  | number tokens =>
    have hwords : ∀ token ∈ tokens, ∀ s ∈ token.stem :: token.options, ∀ c ∈ s.toList, c ≠ '<' := by
      rintro token htoken s hs _ hc rfl
      exact h s (List.mem_flatMap.2 ⟨token, htoken, hs⟩) hc
    have hchars : ∀ c ∈ List.intercalate [' '] (tokens.map SkeletonToken.chars), c ≠ '<' :=
      SkeletonToken.forall_mem_intercalate (by decide) fun token htoken =>
        token.forall_mem_chars (by decide) (hwords token htoken)
    exact hskeleton fun hmem => hchars _ hmem rfl
  | dateTime pattern => exact hskeleton (h pattern List.mem_cons_self)

namespace Text.Leaves

theorem formattedChars (format : ArgFormat) {name : String} {style : Option ArgStyle}
    (hname : '<' ∉ name.toList) (hstyle : ∀ s ∈ style, '<' ∉ s.chars) :
    Leaves (formattedChars format name style) (formattedChars format name style) := by
  have hkeyword : '<' ∉ format.keyword.toList := by cases format <;> decide
  apply of_not_mem
  cases style with
  | none => simp [MessageFormat.formattedChars, hname, hkeyword]
  | some style => simp [MessageFormat.formattedChars, hname, hkeyword, hstyle style rfl]

theorem blockChars {opening name keyword : String} {s t : List Char}
    (hopening : '<' ∉ opening.toList) (hname : '<' ∉ name.toList)
    (hkeyword : '<' ∉ keyword.toList) (h : Leaves s t)
    (hseparator : headerSeparator t = headerSeparator s) :
    Leaves (blockChars opening name keyword s) (blockChars opening name keyword t) := by
  have hnot : '<' ∉ headerSeparator s := by
    unfold headerSeparator
    split <;> decide
  have hhead : Leaves (opening.toList ++ name.toList ++ [',', ' '] ++ keyword.toList ++
      headerSeparator s) _ := of_not_mem (by simp [hopening, hname, hkeyword, hnot])
  unfold MessageFormat.blockChars
  rw [hseparator]
  exact (hhead.append h).append (of_not_mem (by decide))

end Text.Leaves

theorem Message.chars_singleton (scope : Scope) (node : Node) :
    Message.chars scope [node] = node.chars scope :=
  List.append_nil _

theorem Branches.isEmpty_withoutTags (branches : Branches) :
    (Branches.withoutTags branches).isEmpty = branches.isEmpty := by
  cases branches <;> rfl

/-- What blocks without marks have in common. -/
theorem not_mem_of_block {name : String} {branches : Branches}
    (h : ∀ s ∈ name :: branches.map Prod.fst, '<' ∉ s.toList ∧ '>' ∉ s.toList) :
    '<' ∉ name.toList ∧ ∀ branch ∈ branches, '<' ∉ branch.1.toList := by
  rw [List.forall_mem_cons] at h
  exact ⟨h.1.1, fun branch hbranch => (h.2 branch.1 (List.mem_map.2 ⟨branch, hbranch, rfl⟩)).1⟩

mutual

theorem Node.leaves_chars (scope : Scope) (node : Node) (h : node.Markless)
    (hinner : ∀ n ∈ node.inner, n.Markless) :
    Text.Leaves (node.chars scope) (Message.chars scope node.withoutTags) := by
  cases node with
  | literal t =>
    have htext : '<' ∉ t.toList := (h t List.mem_cons_self).1
    rw [Node.withoutTags, Message.chars_singleton]
    exact .of_not_mem (Quoting.not_mem_escape htext)
  | argument name =>
    have hname : '<' ∉ name.toList := (h name List.mem_cons_self).1
    rw [Node.withoutTags, Message.chars_singleton]
    exact .of_not_mem (by simp [Node.chars, hname])
  | formatted format name style =>
    have hname : '<' ∉ name.toList := (h name List.mem_cons_self).1
    have hstyle : ∀ s ∈ style, '<' ∉ s.chars := by
      rintro s rfl
      exact ArgStyle.not_mem_chars fun t ht => (h t (by simpa [Node.texts] using .inr ht)).1
    rw [Node.withoutTags, Message.chars_singleton]
    exact .formattedChars format hname hstyle
  | pound =>
    rw [Node.withoutTags, Message.chars_singleton]
    exact .of_not_mem (by rw [Node.chars]; decide)
  | plural name kind offset branches =>
    obtain ⟨hname, hkeys⟩ := not_mem_of_block h
    have hkeyword : '<' ∉ kind.keyword.toList := by cases kind <;> decide
    have hindent : '<' ∉ scope.indent .pluralBody := by cases scope <;> decide
    have hbranches := Branches.leaves_chars .pluralBody hindent branches hkeys hinner
    have htail := (Text.Leaves.of_not_mem (not_mem_offsetChars offset)).append hbranches
    rw [Node.withoutTags, Message.chars_singleton]
    exact .blockChars (by decide) hname hkeyword htail
      (headerSeparator_congr _ (Branches.isEmpty_withoutTags branches))
  | select name branches =>
    obtain ⟨hname, hkeys⟩ := not_mem_of_block h
    have hindent : '<' ∉ scope.indent .selectBody := by cases scope <;> decide
    have hbranches := Branches.leaves_chars .selectBody hindent branches hkeys hinner
    rw [Node.withoutTags, Message.chars_singleton]
    exact .blockChars (by decide) hname (by decide) hbranches
      (headerSeparator_congr [] (Branches.isEmpty_withoutTags branches))
  | tag name children =>
    have hname : '>' ∉ name.toList := (h name List.mem_cons_self).2
    have hopen : Text.Leaves ('<' :: name.toList ++ ['>']) [] := .mark hname
    have hclose : Text.Leaves ('<' :: ('/' :: name.toList) ++ ['>']) [] :=
      .mark (by simpa using hname)
    have hchildren := Message.leaves_chars scope children hinner
    have htag := (hopen.append hchildren).append hclose
    simpa [Node.chars, Node.withoutTags] using htag
termination_by structural node

theorem Message.leaves_chars (scope : Scope) (m : List Node)
    (h : ∀ node ∈ Message.nodes m, node.Markless) :
    Text.Leaves (Message.chars scope m) (Message.chars scope (Message.withoutTags m)) := by
  cases m with
  | nil => exact .nil
  | cons node nodes =>
    rw [Message.nodes] at h
    have hnode := Node.leaves_chars scope node (h node (by simp)) fun n hn => h n (by simp [hn])
    have hnodes := Message.leaves_chars scope nodes fun n hn => h n (by simp [hn])
    rw [Message.chars, Message.withoutTags, Message.chars_append]
    exact hnode.append hnodes
termination_by structural m

theorem Branches.leaves_chars (scope : Scope) {indent : List Char} (hindent : '<' ∉ indent)
    (branches : List (String × List Node)) (hkeys : ∀ branch ∈ branches, '<' ∉ branch.1.toList)
    (h : ∀ node ∈ Branches.nodes branches, node.Markless) :
    Text.Leaves (Branches.chars scope indent branches)
      (Branches.chars scope indent (Branches.withoutTags branches)) := by
  cases branches with
  | nil => exact .nil
  | cons branch branches =>
    obtain ⟨key, body⟩ := branch
    rw [Branches.nodes] at h
    have hkey : '<' ∉ key.toList := hkeys _ List.mem_cons_self
    have hbody := Message.leaves_chars scope body fun n hn => h n (by simp [hn])
    have hrest := Branches.leaves_chars scope hindent branches
      (fun b hb => hkeys b (List.mem_cons_of_mem _ hb)) fun n hn => h n (by simp [hn])
    have hstart : Text.Leaves (['\n', ' '] ++ indent ++ key.toList ++ [' ', '\x7b']) _ :=
      .of_not_mem (by simp [hindent, hkey])
    have hclose : Text.Leaves ['\x7d'] _ := .of_not_mem (by decide)
    exact ((hstart.append hbody).append hclose).append hrest
termination_by structural branches

end

/-- Without its tag marks the text of a message is that of the message without its tags. -/
theorem Message.print_withoutTags {m : Message} (h : ∀ node ∈ Message.nodes m, node.Markless) :
    Text.withoutMarks m.print = Message.print (Message.withoutTags m) := by
  have hleaves := Message.leaves_chars .message m h []
  rw [List.append_nil, Text.unmarked, List.append_nil] at hleaves
  rw [Text.withoutMarks, Message.print, String.toList_ofList, Text.trim_unmarked_trim, hleaves,
    Message.print]

/-- Tags around text, around blocks and in their branches, and one with nothing in it. -/
def Message.nestedTags : Message :=
  [.tag "b" [.literal " a#", .select "g" [("x", [.tag "i" [
    .plural "n" .cardinal none [("other", [.tag "u" [.literal "#\x7b", .pound]])]]])],
    .tag "e" []]]

theorem Message.print_withoutTags_nestedTags :
    (∀ node ∈ nodes nestedTags, node.Markless) ∧
      Text.withoutMarks nestedTags.print = print (withoutTags nestedTags) ∧
      print (withoutTags nestedTags) =
        "a#\n \x7bg, select,\n x \x7b\n  \x7bn, plural,\n   other \x7b'#''\x7b'#\x7d\x7d\x7d\x7d" := by
  have h : ∀ node ∈ nodes nestedTags, node.Markless := by decide +kernel
  exact ⟨h, print_withoutTags h, by decide +kernel⟩

end MessageFormat
