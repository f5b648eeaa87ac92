import MessageFormat.Proofs.Message.Reader

/-!
# Printed messages are unambiguous

The reader gets every well-formed message back from its text, up to plurals whose offset is zero,
which is not written. So two well-formed messages have the same text only if they are the same
message up to such offsets.
-/

namespace MessageFormat

/-! ### Offsets of zero -/

mutual

/-- The node with no offset wherever an offset is zero. -/
def Node.dropZeroOffsets : Node → Node
  | .plural name kind offset branches =>
    .plural name kind (offset.filter (· ≠ 0)) (Branches.dropZeroOffsets branches)
  | .select name branches => .select name (Branches.dropZeroOffsets branches)
  | .tag name children => .tag name (Message.dropZeroOffsets children)
  | node => node
termination_by structural node => node

def Message.dropZeroOffsets : List Node → List Node
  | [] => []
  | node :: nodes => node.dropZeroOffsets :: Message.dropZeroOffsets nodes
termination_by structural nodes => nodes

def Branches.dropZeroOffsets : List (String × List Node) → List (String × List Node)
  | [] => []
  | (key, body) :: branches =>
    (key, Message.dropZeroOffsets body) :: Branches.dropZeroOffsets branches
termination_by structural branches => branches

end

theorem offsetChars_filter (offset : Option UInt32) :
    offsetChars (offset.filter (· ≠ 0)) = offsetChars offset := by
  cases offset with
  | none => rfl
  | some n => by_cases h : n = 0 <;> simp [offsetChars, Option.filter, h]

mutual

theorem Node.chars_dropZeroOffsets (scope : Scope) (node : Node) :
    node.dropZeroOffsets.chars scope = node.chars scope := by
  cases node with
  | literal t | argument name | formatted format name style | pound => rfl
  | plural name kind offset branches =>
    simp only [Node.dropZeroOffsets, Node.chars, offsetChars_filter,
      Branches.chars_dropZeroOffsets _ _ branches]
  | select name branches =>
    simp only [Node.dropZeroOffsets, Node.chars, Branches.chars_dropZeroOffsets _ _ branches]
  | tag name children =>
    simp only [Node.dropZeroOffsets, Node.chars, Message.chars_dropZeroOffsets scope children]
termination_by structural node

theorem Message.chars_dropZeroOffsets (scope : Scope) (m : List Node) :
    Message.chars scope (Message.dropZeroOffsets m) = Message.chars scope m := by
  cases m with
  | nil => rfl
  | cons node nodes =>
    simp only [Message.dropZeroOffsets, Message.chars, Node.chars_dropZeroOffsets scope node,
      Message.chars_dropZeroOffsets scope nodes]
termination_by structural m

theorem Branches.chars_dropZeroOffsets (scope : Scope) (indent : List Char)
    (branches : List (String × List Node)) :
    Branches.chars scope indent (Branches.dropZeroOffsets branches) =
      Branches.chars scope indent branches := by
  cases branches with
  | nil => rfl
  | cons branch branches =>
    simp only [Branches.dropZeroOffsets, Branches.chars, Message.chars_dropZeroOffsets _ branch.2,
      Branches.chars_dropZeroOffsets scope indent branches]
termination_by structural branches

end

theorem Message.print_dropZeroOffsets (m : Message) : print (dropZeroOffsets m) = m.print := by
  rw [print, print, chars_dropZeroOffsets]

/-! ### Reading one node -/

namespace Reader

variable (branches : Scope → List Char → Option (Branches × List Char))

theorem readArgument_name {name : String} (h : IsName name) (rest : List Char) :
    readArgument branches (name.toList ++ '\x7d' :: rest) = some (.argument name, rest) := by
  have hname : readWord [',', '\x7d'] (name.toList ++ '\x7d' :: rest) = (name, '\x7d' :: rest) :=
    readWord_name h (by decide) (by decide) rest
  simp only [readArgument, hname]

theorem readArgument_kind {name keyword : String} {kind : Kind} (h : IsName name)
    (hkind : Kind.ofKeyword keyword = some kind) {rest : List Char}
    (hrest : ∃ c ∈ rest.head?, c ∈ [',', '\x7d']) :
    readArgument branches (name.toList ++ [',', ' '] ++ keyword.toList ++ rest) =
      readKind branches name kind rest := by
  obtain ⟨c, hhead, hc⟩ := hrest
  obtain ⟨rest, rfl⟩ := List.head?_eq_some_iff.1 hhead
  have hname : readWord [',', '\x7d'] (name.toList ++ ',' :: ' ' :: (keyword.toList ++ c :: rest)) =
      (name, ',' :: ' ' :: (keyword.toList ++ c :: rest)) :=
    readWord_name h (by decide) (by decide) _
  simp only [readArgument, List.append_assoc, List.cons_append, List.nil_append, hname,
    readWord_append (Kind.not_mem_keyword hkind) hc, String.ofList_toList, hkind,
    Option.bind_eq_bind, Option.bind_some]

theorem readArgument_formatted {format : ArgFormat} {name : String} {style : Option ArgStyle}
    (hname : IsName name) (hstyle : ∀ s ∈ style, s.WellFormed format) (rest : List Char) :
    ∃ s, formattedChars format name style ++ rest = '\x7b' :: s ∧
      readArgument branches s = some (.formatted format name style, rest) := by
  refine ⟨_, rfl, ?_⟩
  cases style with
  | none =>
    have hkind := readArgument_kind branches hname (ofKeyword_format format)
      ⟨'\x7d', (rfl : ('\x7d' :: rest).head? = _), by decide⟩
    rw [readKind, readFormatted] at hkind
    simpa using hkind
  | some style =>
    have hkind := readArgument_kind branches hname (ofKeyword_format format)
      ⟨',', (rfl : (',' :: ' ' :: (style.chars ++ '\x7d' :: rest)).head? = _), by decide⟩
    rw [readKind, readFormatted, readStyle_chars (hstyle style rfl)] at hkind
    simpa using hkind

theorem head?_headerSeparator (tail rest : List Char) :
    ∃ c ∈ (headerSeparator tail ++ rest).head?, c ∈ [',', '\x7d'] := by
  unfold headerSeparator
  split
  · exact ⟨',', rfl, by decide⟩
  · exact ⟨',', rfl, by decide⟩

/-- A block is read when what follows its keyword is. -/
theorem readArgument_block {name keyword : String} {kind : Kind} {tail rest : List Char}
    {node : Node} (h : IsName name) (hkind : Kind.ofKeyword keyword = some kind)
    (hread : readKind branches name kind (headerSeparator tail ++ tail ++ '\x7d' :: rest) =
      some (node, rest)) :
    ∃ s, blockChars "\x7b" name keyword tail ++ rest = '\x7b' :: s ∧
      readArgument branches s = some (node, rest) := by
  refine ⟨_, rfl, ?_⟩
  have harg := readArgument_kind branches h hkind
    (head?_headerSeparator tail (tail ++ '\x7d' :: rest))
  rw [List.append_assoc] at hread
  rw [hread] at harg
  simpa using harg

theorem readKind_plural {name : String} {kind : PluralKind} {offset : Option UInt32}
    {indent rest : List Char} {bs bs' : Branches}
    (h : branches .pluralBody (Branches.chars .pluralBody indent bs ++ '\x7d' :: rest) =
      some (bs', rest)) :
    readKind branches name (.plural kind)
        (headerSeparator (offsetChars offset ++ Branches.chars .pluralBody indent bs) ++
          (offsetChars offset ++ Branches.chars .pluralBody indent bs) ++ '\x7d' :: rest) =
      some (.plural name kind (offset.filter (· ≠ 0)) bs', rest) := by
  have hoffset : readOffset (offsetChars offset ++
      (Branches.chars .pluralBody indent bs ++ '\x7d' :: rest)) =
      (offset.filter (· ≠ 0), Branches.chars .pluralBody indent bs ++ '\x7d' :: rest) := by
    rcases bs with _ | ⟨⟨key, body⟩, bs⟩
    · exact readOffset_chars offset (by decide) (by decide)
    · exact readOffset_chars offset (by decide) (by decide)
  simp only [readKind, readSeparator_header]
  rw [List.append_assoc, hoffset]
  simp only [h]
  rfl

theorem readKind_select {name : String} {indent rest : List Char} {bs bs' : Branches}
    (h : branches .selectBody (Branches.chars .selectBody indent bs ++ '\x7d' :: rest) =
      some (bs', rest)) :
    readKind branches name .select
        (headerSeparator (Branches.chars .selectBody indent bs) ++
          Branches.chars .selectBody indent bs ++ '\x7d' :: rest) =
      some (.select name bs', rest) := by
  simp only [readKind, readSeparator_header, h]
  rfl

/-! ### Where text ends -/

theorem readText_of_endsBody {scope : Scope} {rest : List Char} (h : endsBody rest = true) :
    readText (isLive scope) false rest = ([], rest) := by
  unfold endsBody at h
  split at h
  · rfl
  · exact readText_live rfl (by decide) _
  · exact readText_live rfl (by decide) _
  · cases h

/-- A node other than a literal ends the text in front of it, and is not the end of a body. -/
theorem readText_core {scope : Scope} {node : Node} (h : node.WellFormed scope)
    (hliteral : node.isLiteral = false) (rest : List Char) :
    readText (isLive scope) false (node.core scope ++ rest) = ([], node.core scope ++ rest) ∧
      endsBody (node.core scope ++ rest) = false := by
  cases node with
  | literal t => cases hliteral
  | argument name | formatted format name style => exact ⟨readText_live rfl (by decide) _, rfl⟩
  | pound =>
    have hscope : scope = .pluralBody := h
    subst hscope
    exact ⟨readText_live rfl (by decide) _, rfl⟩
  | plural name kind offset branches | select name branches =>
    exact ⟨readText_live rfl (by decide) _, rfl⟩
  | tag name children =>
    refine ⟨readText_live rfl (by decide) _, ?_⟩
    obtain ⟨c, u, hname, -, hc⟩ := h.1.exists_cons
    have hslash : c ≠ '/' := by
      rintro rfl
      exact hc (by decide)
    simp [Node.core, Node.chars, hname, endsBody, hslash]

theorem readNodes_end {fuel : Nat} {scope : Scope} {x s rest : List Char}
    (hx : Reads (isLive scope) x s) (hrest : endsBody rest = true) (hfuel : 0 < fuel) :
    readNodes fuel scope (x ++ rest) = some (Message.literal s, rest) := by
  obtain ⟨fuel, rfl⟩ := Nat.exists_eq_succ_of_ne_zero (Nat.ne_of_gt hfuel)
  simp only [readNodes, hx rest, readText_of_endsBody hrest, List.append_nil, hrest, if_true]

theorem readNodes_node {fuel : Nat} {scope : Scope} {node read : Node} {nodes : Message}
    {x s rest rest' : List Char} (hx : Reads (isLive scope) x s) (h : node.WellFormed scope)
    (hliteral : node.isLiteral = false)
    (hnode : readNode fuel scope (node.core scope ++ rest) = some (read, rest))
    (hnodes : readNodes fuel scope rest = some (nodes, rest')) :
    readNodes (fuel + 1) scope (x ++ (node.core scope ++ rest)) =
      some (Message.literal (s.rdrop read.layout.length) ++ read :: nodes, rest') := by
  obtain ⟨htext, hend⟩ := readText_core h hliteral rest
  have hread : readText (isLive scope) false (x ++ (node.core scope ++ rest)) =
      (s, node.core scope ++ rest) := by
    rw [hx, htext, List.append_nil]
  simp only [readNodes, hread, hend, Bool.false_eq_true, if_false, hnode, hnodes,
    Option.bind_eq_bind, Option.bind_some]

theorem reads_leadingLayout (scope : Scope) (m : Message) :
    Reads (isLive scope) m.leadingLayout m.leadingLayout := by
  refine Reads.plain fun c hc => ?_
  rcases m with _ | ⟨node, nodes⟩
  · cases hc
  · have hne : ∀ d, Text.isBlank d = false → c ≠ d := by
      rintro d hd rfl
      exact Node.not_mem_layout hd hc
    refine ⟨hne _ (by decide), ?_⟩
    simp [isLive, Node.not_isBrace_of_mem_layout hc, hne '<' (by decide), hne '#' (by decide)]

/-- The text of a well-formed literal is read as that literal, together with layout after it. -/
theorem reads_literal {scope : Scope} {t : String} (h : IsLiteral scope t) (m : Message) :
    Reads (isLive scope) (Quoting.escape scope.inPlural t.toList ++ m.leadingLayout)
      (t.toList ++ m.leadingLayout) := by
  obtain ⟨-, hquote, htag, hpound⟩ := h
  refine Reads.append ?_ (reads_leadingLayout scope m)
  refine Reads.escape hquote ?_ ?_
  · intro c hc hlive
    have hne : c ≠ '<' := fun heq => htag (heq ▸ hc)
    simpa [isLive, hne] using hlive
  · intro hplural
    exact hpound (by simpa [Scope.inPlural] using hplural)

/-! ### Reading a whole message -/

theorem layout_dropZeroOffsets (node : Node) : node.dropZeroOffsets.layout = node.layout := by
  cases node <;> rfl

theorem rdrop_append_length (s t : List Char) : (s ++ t).rdrop t.length = s := by
  simp [List.rdrop]

theorem literal_rdrop_length (t : List Char) : Message.literal (t.rdrop t.length) = [] := by
  simp [List.rdrop, Message.literal]

theorem startsWithLiteral_of_leadingLayout {m : Message} (h : m.leadingLayout ≠ []) :
    m.startsWithLiteral = false := by
  rcases m with _ | ⟨node, nodes⟩
  · rfl
  · cases node with
    | literal t => exact absurd rfl h
    | _ => rfl

theorem length_core_pos (scope : Scope) {node : Node} (h : node.isLiteral = false) :
    0 < (node.core scope).length := by
  cases node with
  | literal t => cases h
  | _ => exact Nat.succ_pos _

theorem eq_blank_of_mem_indent {outer inner : Scope} {c : Char} (h : c ∈ outer.indent inner) :
    c = ' ' := by
  cases outer <;> cases inner <;> simp [Scope.indent] at h <;> exact h

theorem readNode_brace (fuel : Nat) (scope : Scope) (s : List Char) :
    readNode (fuel + 1) scope ('\x7b' :: s) = readArgument (readBranches fuel) s := by
  rw [readNode]

theorem readNode_tag {fuel : Nat} {scope : Scope} {name : String} {s rest : List Char}
    {children : Message} (h : IsName name)
    (hread : readNodes fuel scope (s ++ (['<', '/'] ++ name.toList ++ ['>'] ++ rest)) =
      some (children, ['<', '/'] ++ name.toList ++ ['>'] ++ rest)) :
    readNode (fuel + 1) scope ('<' :: (name.toList ++ '>' ::
      (s ++ (['<', '/'] ++ name.toList ++ ['>'] ++ rest)))) = some (.tag name children, rest) := by
  have hname : readWord ['>'] (name.toList ++ '>' ::
      (s ++ (['<', '/'] ++ name.toList ++ ['>'] ++ rest))) = (name, '>' ::
      (s ++ (['<', '/'] ++ name.toList ++ ['>'] ++ rest))) :=
    readWord_name h (by decide) (by decide) _
  have hopen : ∀ u : List Char, ('>' :: u).dropPrefix? ['>'] = some u := dropPrefix?_append ['>']
  rw [readNode]
  simp only [hname, hopen, hread, dropPrefix?_append, Option.bind_eq_bind, Option.bind_some]

theorem readBranches_cons {fuel : Nat} {scope : Scope} {key : String}
    {indent s rest rest' : List Char} {body : Message} {branches : Branches} (h : IsName key)
    (hindent : ∀ c ∈ indent, c = ' ')
    (hbody : readNodes fuel scope (s ++ '\x7d' :: rest) = some (body, '\x7d' :: rest))
    (hbranches : readBranches fuel scope rest = some (branches, rest')) :
    readBranches (fuel + 1) scope
        ('\n' :: ' ' :: (indent ++ (key.toList ++ ' ' :: '\x7b' :: (s ++ '\x7d' :: rest)))) =
      some ((key, body) :: branches, rest') := by
  obtain ⟨c, u, hcons, hblank, -⟩ := h.exists_cons
  have hc : c ≠ ' ' := by
    rintro rfl
    exact absurd hblank (by decide)
  have hspaces : ∀ d ∈ ' ' :: indent, decide (d = ' ') = true := by simpa using hindent
  have hskip : (' ' :: (indent ++ (key.toList ++ ' ' :: '\x7b' :: (s ++ '\x7d' :: rest)))).dropWhile
      (· = ' ') = key.toList ++ ' ' :: '\x7b' :: (s ++ '\x7d' :: rest) := by
    rw [← List.cons_append, List.dropWhile_append_of_pos hspaces, hcons]
    simp [hc]
  have hkey : readWord [' '] (key.toList ++ ' ' :: '\x7b' :: (s ++ '\x7d' :: rest)) =
      (key, ' ' :: '\x7b' :: (s ++ '\x7d' :: rest)) :=
    readWord_name h (by decide) (by decide) _
  have hopen : ∀ u : List Char, (' ' :: '\x7b' :: u).dropPrefix? [' ', '\x7b'] = some u :=
    dropPrefix?_append [' ', '\x7b']
  have hclose : ∀ u : List Char, ('\x7d' :: u).dropPrefix? ['\x7d'] = some u :=
    dropPrefix?_append ['\x7d']
  rw [readBranches]
  simp only [hskip, hkey, hopen, hbody, hclose, hbranches, Option.bind_eq_bind, Option.bind_some]

/-- The text of a message is read to its end. Text in front of the message goes to a literal of its
own, less the layout of the first node; it must not stand before another literal. -/
def ReadsBack (scope : Scope) (m : Message) : Prop :=
  ∀ ⦃x s rest : List Char⦄ ⦃fuel : Nat⦄, Reads (isLive scope) x s →
    (s ≠ [] → m.startsWithLiteral = false) → endsBody rest = true →
    2 * (x ++ m.core scope).length < fuel →
    readNodes fuel scope (x ++ (m.core scope ++ rest)) =
      some (Message.literal (s.rdrop m.leadingLayout.length) ++ Message.dropZeroOffsets m, rest)

theorem ReadsBack.readNodes_chars {scope : Scope} {m : Message} (h : ReadsBack scope m)
    {rest : List Char} (hrest : endsBody rest = true) {fuel : Nat}
    (hfuel : 2 * (Message.chars scope m).length < fuel) :
    readNodes fuel scope (Message.chars scope m ++ rest) =
      some (Message.dropZeroOffsets m, rest) := by
  rw [Message.chars_eq_leadingLayout_append_core] at hfuel ⊢
  have hread := h (reads_leadingLayout scope m) startsWithLiteral_of_leadingLayout hrest hfuel
  rw [literal_rdrop_length, List.nil_append] at hread
  rw [List.append_assoc, hread]

/-- A literal is read together with the layout behind it, which is taken off again. -/
theorem ReadsBack.literal {scope : Scope} {t : String} {nodes : Message}
    (h : Message.WellFormedIn scope (.literal t :: nodes)) (hnodes : ReadsBack scope nodes) :
    ReadsBack scope (.literal t :: nodes) := by
  intro x s rest fuel hx hs hrest hfuel
  obtain ⟨ht, hnext, -⟩ := h
  have hnil : s = [] := by
    by_contra hne
    exact absurd (hs hne) (by simp [Message.startsWithLiteral, Node.isLiteral])
  subst hnil
  have hne := ht.toList_ne_nil
  have hcore : Message.core scope (.literal t :: nodes) =
      Quoting.escape scope.inPlural t.toList ++ nodes.leadingLayout ++ nodes.core scope := by
    rw [List.append_assoc, ← Message.chars_eq_leadingLayout_append_core]
    rfl
  rw [hcore] at hfuel ⊢
  have hread := hnodes (hx.append (reads_literal ht nodes)) (fun _ => hnext rfl) hrest
    (by simpa only [List.append_assoc] using hfuel)
  rw [List.nil_append, rdrop_append_length] at hread
  simpa [Message.literal, hne, Message.dropZeroOffsets, Node.dropZeroOffsets,
    Message.leadingLayout, Node.layout] using hread

mutual

theorem readNode_core {scope : Scope} (node : Node) (h : node.WellFormed scope)
    (hliteral : node.isLiteral = false) {fuel : Nat} (hfuel : 2 * (node.core scope).length ≤ fuel)
    (rest : List Char) :
    readNode fuel scope (node.core scope ++ rest) = some (node.dropZeroOffsets, rest) := by
  have hpos := length_core_pos scope hliteral
  obtain ⟨fuel, rfl⟩ := Nat.exists_eq_succ_of_ne_zero (by omega : fuel ≠ 0)
  cases node with
  | literal t => cases hliteral
  | argument name =>
    have hread := readArgument_name (readBranches fuel) h rest
    rw [← readNode_brace fuel scope] at hread
    simpa [Node.core, Node.chars, Node.dropZeroOffsets] using hread
  | formatted format name style =>
    obtain ⟨s, hs, hread⟩ := readArgument_formatted (readBranches fuel) h.1 h.2 rest
    rw [Node.core, Node.chars, hs, readNode_brace, hread]
    · rfl
    all_goals simp
  | pound =>
    have hscope : scope = .pluralBody := h
    subst hscope
    rfl
  | plural name kind offset branches =>
    simp only [Node.core, blockChars, List.length_append, List.length_cons] at hfuel
    have hindent : ∀ c ∈ scope.indent .pluralBody, c = ' ' := fun c => eq_blank_of_mem_indent
    have hbranches := readBranches_chars branches h.2 hindent rest (by omega : _ < fuel)
    obtain ⟨s, hs, hread⟩ := readArgument_block (readBranches fuel) h.1 (ofKeyword_plural kind)
      (readKind_plural _ hbranches)
    rw [Node.core, hs, readNode_brace, hread]
    rfl
  | select name branches =>
    simp only [Node.core, blockChars, List.length_append, List.length_cons] at hfuel
    have hindent : ∀ c ∈ scope.indent .selectBody, c = ' ' := fun c => eq_blank_of_mem_indent
    have hbranches := readBranches_chars branches h.2 hindent rest (by omega : _ < fuel)
    obtain ⟨s, hs, hread⟩ := readArgument_block (readBranches fuel) h.1 ofKeyword_select
      (readKind_select _ hbranches)
    rw [Node.core, hs, readNode_brace, hread]
    rfl
  | tag name children =>
    simp only [Node.core, Node.chars, List.length_append, List.length_cons] at hfuel
    have hchildren := (readsBack children h.2).readNodes_chars
      (rfl : endsBody (['<', '/'] ++ name.toList ++ ['>'] ++ rest) = true)
      (by omega : 2 * (Message.chars scope children).length < fuel)
    simpa [Node.core, Node.chars, Node.dropZeroOffsets] using readNode_tag h.1 hchildren
termination_by structural node

theorem readsBack {scope : Scope} (m : List Node) (h : Message.WellFormedIn scope m) :
    ReadsBack scope m := by
  cases m with
  | nil =>
    intro x s rest fuel hx hs hrest hfuel
    have hend := readNodes_end hx hrest (Nat.zero_lt_of_lt hfuel)
    simpa [Message.core, Message.leadingLayout, Message.dropZeroOffsets] using hend
  | cons node nodes =>
    have hnodes := readsBack nodes h.2.2
    cases hliteral : node.isLiteral with
    | true =>
      obtain ⟨t, rfl⟩ := Node.exists_of_isLiteral hliteral
      exact hnodes.literal h
    | false =>
      intro x s rest fuel hx hs hrest hfuel
      rw [Message.core] at hfuel ⊢
      simp only [List.length_append] at hfuel
      obtain ⟨fuel, rfl⟩ := Nat.exists_eq_succ_of_ne_zero (Nat.ne_zero_of_lt hfuel)
      have hpos := length_core_pos scope hliteral
      have hhead := readNode_core node h.1 hliteral (by omega : _ ≤ fuel)
        (Message.chars scope nodes ++ rest)
      have htail := hnodes.readNodes_chars hrest (by omega : _ < fuel)
      rw [List.append_assoc, readNodes_node hx h.1 hliteral hhead htail, layout_dropZeroOffsets]
      rfl
termination_by structural m

theorem readBranches_chars {scope : Scope} (branches : List (String × List Node))
    (h : Branches.WellFormed scope branches) {indent : List Char} (hindent : ∀ c ∈ indent, c = ' ')
    (rest : List Char) {fuel : Nat}
    (hfuel : 2 * (Branches.chars scope indent branches).length < fuel) :
    readBranches fuel scope (Branches.chars scope indent branches ++ '\x7d' :: rest) =
      some (Branches.dropZeroOffsets branches, rest) := by
  obtain ⟨fuel, rfl⟩ := Nat.exists_eq_succ_of_ne_zero (Nat.ne_zero_of_lt hfuel)
  cases branches with
  | nil => rfl
  | cons branch branches =>
    obtain ⟨key, body⟩ := branch
    obtain ⟨hkey, hbody, hbranches⟩ := h
    simp only [Branches.chars, List.length_append, List.length_cons] at hfuel
    have hread := (readsBack body hbody).readNodes_chars
      (rfl : endsBody ('\x7d' :: (Branches.chars scope indent branches ++ '\x7d' :: rest)) = true)
      (by omega : 2 * (Message.chars scope body).length < fuel)
    have hrest := readBranches_chars branches hbranches hindent rest (by omega : _ < fuel)
    simpa [Branches.chars, Branches.dropZeroOffsets] using
      readBranches_cons hkey hindent hread hrest
termination_by structural branches

end

end Reader

/-! ### Equal texts -/

namespace Message

/-- Printing a well-formed message and reading its text gives the message back, but for offsets of
zero. -/
theorem read_print {m : Message} (h : m.WellFormed) :
    Reader.read m.print.toList = some (dropZeroOffsets m) := by
  have hread := Reader.readsBack m h.nodes .nil (fun hne => absurd rfl hne)
    (rfl : Reader.endsBody [] = true) (Nat.lt_add_one _)
  rw [List.nil_append, List.nil_append, List.append_nil] at hread
  rw [print_eq_core h, String.toList_ofList, Reader.read, hread]
  simp [literal]

/-- Two well-formed messages have the same text just when they are the same but for offsets of
zero. -/
theorem print_eq_print_iff {a b : Message} (ha : a.WellFormed) (hb : b.WellFormed) :
    a.print = b.print ↔ dropZeroOffsets a = dropZeroOffsets b := by
  constructor
  · intro h
    have hread := read_print ha
    rw [h, read_print hb] at hread
    exact (Option.some.inj hread).symm
  · intro h
    rw [← print_dropZeroOffsets a, ← print_dropZeroOffsets b, h]

/-- An offset of zero leaves no trace in a text, any other one does. -/
theorem print_sample_offset :
    (sample (some 0)).print = (sample none).print ∧
      (sample (some 1)).print ≠ (sample none).print := by
  have hzero : (sample (some 0)).WellFormed := by decide +kernel
  have hone : (sample (some 1)).WellFormed := by decide +kernel
  have hnone : (sample none).WellFormed := by decide +kernel
  refine ⟨(print_eq_print_iff hzero hnone).2 (by decide +kernel), fun h => ?_⟩
  exact absurd ((print_eq_print_iff hone hnone).1 h) (by decide +kernel)

end Message

end MessageFormat
