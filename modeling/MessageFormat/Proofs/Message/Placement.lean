import MessageFormat.Proofs.Message.Bare
import MessageFormat.Proofs.Message.Layout

/-!
# A block prints the same wherever it stands

What stands around a block reaches only the indent of its own lines, one for each branch: they are
two blanks further in if the block lies in a body of the other kind. Everything else of it, and all
that its bodies hold, is printed as if the block were the whole message.
-/

namespace MessageFormat

/-- The scope of the bodies of a block. -/
def Node.bodyScope? : Node → Option Scope
  | .plural .. => some .pluralBody
  | .select .. => some .selectBody
  | _ => none

def Node.branches : Node → Branches
  | .plural _ _ _ branches | .select _ branches => branches
  | _ => []

/-- What is written for each branch of a block, after the line break and the indent. -/
def Branches.lines (scope : Scope) (branches : Branches) : List (List Char) :=
  branches.map fun branch =>
    branch.1.toList ++ [' ', '\x7b'] ++ Message.chars scope branch.2 ++ ['\x7d']

/-- A block from its header and its lines, with some more indent than a line has anyway. -/
def laidOut (header indent : List Char) (lines : List (List Char)) : List Char :=
  header ++ lines.flatMap (fun line => ['\n', ' '] ++ indent ++ line) ++ ['\x7d']

/-- A node stands somewhere in a message of the given scope, through tags and bodies; the scope
`inner` is that of the nearest body around the node, or of the message if there is none. -/
inductive Node.Within (node : Node) (inner : Scope) : Scope → Message → Prop where
  | here {m : Message} (h : node ∈ m) : Within node inner inner m
  | tag {scope : Scope} {m children : Message} {name : String} (hm : .tag name children ∈ m)
    (h : Within node inner scope children) : Within node inner scope m
  | plural {scope : Scope} {m body : Message} {name key : String} {kind : PluralKind}
    {offset : Option UInt32} {branches : Branches} (hm : .plural name kind offset branches ∈ m)
    (hbody : (key, body) ∈ branches) (h : Within node inner .pluralBody body) :
    Within node inner scope m
  | select {scope : Scope} {m body : Message} {name key : String} {branches : Branches}
    (hm : .select name branches ∈ m) (hbody : (key, body) ∈ branches)
    (h : Within node inner .selectBody body) : Within node inner scope m

/-! ### Texts of parts -/

theorem Message.infix_chars {node : Node} {m : Message} (scope : Scope) (h : node ∈ m) :
    node.chars scope <:+: Message.chars scope m := by
  obtain ⟨u, v, rfl⟩ := List.append_of_mem h
  rw [Message.chars_append, Message.chars]
  exact ⟨_, _, List.append_assoc _ _ _⟩

theorem Branches.chars_eq (scope : Scope) (indent : List Char) (branches : Branches) :
    Branches.chars scope indent branches =
      (branches.lines scope).flatMap fun line => ['\n', ' '] ++ indent ++ line := by
  induction branches with
  | nil => rfl
  | cons branch branches ih =>
    rw [Branches.chars, ih]
    simp [Branches.lines]

theorem Branches.infix_chars {branches : Branches} {key : String} {body : Message} (scope : Scope)
    (indent : List Char) (h : (key, body) ∈ branches) :
    Message.chars scope body <:+: Branches.chars scope indent branches := by
  obtain ⟨u, v, rfl⟩ := List.append_of_mem h
  rw [Branches.chars_append, Branches.chars]
  have hline : Message.chars scope body <:+: ['\n', ' '] ++ indent ++ key.toList ++ [' ', '\x7b'] ++
      Message.chars scope body ++ ['\x7d'] := List.infix_append _ _ _
  exact hline.trans ⟨_, _, List.append_assoc _ _ _⟩

theorem infix_blockChars (opening name keyword : String) (s t : List Char) :
    t <:+: blockChars opening name keyword (s ++ t) := by
  unfold blockChars
  rw [← List.append_assoc]
  exact List.infix_append _ _ _

/-- The text of a node is a piece of the text of every message that it stands in. -/
theorem Node.Within.infix_chars {node : Node} {inner scope : Scope} {m : Message}
    (h : node.Within inner scope m) : node.chars inner <:+: Message.chars scope m := by
  induction h with
  | here h => exact Message.infix_chars _ h
  | @tag scope m children name hm h ih =>
    have htag : Message.chars scope children <:+: (Node.tag name children).chars scope := by
      refine ⟨'<' :: name.toList ++ ['>'], ['<', '/'] ++ name.toList ++ ['>'], ?_⟩
      simp [Node.chars]
    exact ih.trans (htag.trans (Message.infix_chars scope hm))
  | @plural scope m body name key kind offset branches hm hbody h ih =>
    have hblock : Branches.chars .pluralBody (scope.indent .pluralBody) branches <:+:
        (Node.plural name kind offset branches).chars scope := infix_blockChars _ _ _ _ _
    exact ih.trans ((Branches.infix_chars _ _ hbody).trans
      (hblock.trans (Message.infix_chars scope hm)))
  | @select scope m body name key branches hm hbody h ih =>
    have hblock : Branches.chars .selectBody (scope.indent .selectBody) branches <:+:
        (Node.select name branches).chars scope := infix_blockChars _ _ _ [] _
    exact ih.trans ((Branches.infix_chars _ _ hbody).trans
      (hblock.trans (Message.infix_chars scope hm)))

/-! ### Texts of blocks -/

/-- What a block opens with, up to its first line. -/
def blockHeader (name keyword : String) (offset : List Char) (scope : Scope) (branches : Branches) :
    List Char :=
  '\x7b' :: name.toList ++ [',', ' '] ++ keyword.toList ++
    headerSeparator (offset ++ Branches.chars scope [] branches) ++ offset

theorem blockChars_eq_laidOut (name keyword : String) (offset : List Char) (scope : Scope)
    (indent : List Char) (branches : Branches) :
    blockChars "\x7b" name keyword (offset ++ Branches.chars scope indent branches) =
      laidOut (blockHeader name keyword offset scope branches) indent (branches.lines scope) := by
  have hseparator : headerSeparator (offset ++ Branches.chars scope indent branches) =
      headerSeparator (offset ++ Branches.chars scope [] branches) :=
    headerSeparator_congr offset rfl
  rw [blockChars, hseparator, blockHeader, laidOut, ← Branches.chars_eq]
  simp

section

variable {block : Node} {bodies : Scope}

/-- A block has the same header in every scope. -/
theorem Node.exists_core_eq_laidOut (hblock : block.bodyScope? = some bodies) :
    ∃ header, header.head? = some '\x7b' ∧ ∀ scope : Scope,
      block.core scope = laidOut header (scope.indent bodies) (block.branches.lines bodies) := by
  cases block with
  | plural name kind offset branches =>
    cases hblock
    exact ⟨_, rfl, fun scope => blockChars_eq_laidOut name kind.keyword (offsetChars offset) _ _ _⟩
  | select name branches =>
    cases hblock
    exact ⟨_, rfl, fun scope => blockChars_eq_laidOut name "select" [] _ _ _⟩
  | _ => cases hblock

theorem Scope.indent_eq_nil {inner : Scope} (h : inner = .message ∨ inner = bodies) :
    inner.indent bodies = [] := by
  rcases h with rfl | rfl
  · rfl
  · cases inner <;> rfl

/-- A body of one kind indents what opens bodies of the other kind. -/
theorem Scope.indent_eq_blanks {inner : Scope} (hblock : block.bodyScope? = some bodies)
    (hinner : inner ≠ .message) (hne : inner ≠ bodies) : inner.indent bodies = [' ', ' '] := by
  have hbodies : bodies ≠ .message := by
    rintro rfl
    cases block <;> cases hblock
  cases inner <;> cases bodies <;> first | rfl | contradiction

end

theorem infix_trim {s t : List Char} (h : s <:+: t) (hhead : s.head? = some '\x7b')
    (hlast : s.getLast? = some '\x7d') : s <:+: Text.trim t := by
  obtain ⟨u, v, rfl⟩ := h
  obtain ⟨u', v', heq, -, -⟩ :=
    Text.exists_trim_append u v ⟨_, hhead, by decide⟩ ⟨_, hlast, by decide⟩
  exact ⟨u', v', heq.symm⟩

theorem laidOut_head? {header : List Char} (h : header.head? = some '\x7b') (indent : List Char)
    (lines : List (List Char)) : (laidOut header indent lines).head? = some '\x7b' := by
  rw [laidOut, List.append_assoc, List.head?_append, h]
  rfl

theorem laidOut_getLast? (header indent : List Char) (lines : List (List Char)) :
    (laidOut header indent lines).getLast? = some '\x7d' :=
  List.getLast?_concat

namespace Message

/-- Wherever a block stands it is printed as on its own, but for the indent of its lines in a body
of the other kind. -/
theorem print_infix_of_within {block : Node} {bodies inner : Scope} {m : Message}
    (hblock : block.bodyScope? = some bodies) (h : block.Within inner .message m) :
    (inner = .message ∨ inner = bodies → (print [block]).toList <:+: m.print.toList) ∧
      (inner ≠ .message → inner ≠ bodies → ∃ header,
        (print [block]).toList = laidOut header [] (block.branches.lines bodies) ∧
        laidOut header [' ', ' '] (block.branches.lines bodies) <:+: m.print.toList) := by
  obtain ⟨header, hheader, hcore⟩ := Node.exists_core_eq_laidOut hblock
  have halone : (print [block]).toList = laidOut header [] (block.branches.lines bodies) := by
    have hchars : Message.chars .message [block] =
        block.layout ++ laidOut header [] (block.branches.lines bodies) := by
      rw [Message.chars, Message.chars, List.append_nil, block.chars_eq_layout_append_core, hcore]
      rfl
    rw [print, String.toList_ofList, hchars]
    exact Text.trim_append (fun c hc => Node.isBlank_of_mem_layout hc) (laidOut_head? hheader _ _)
      (by decide) (laidOut_getLast? _ _ _) (by decide)
  have hpiece : laidOut header (inner.indent bodies) (block.branches.lines bodies) <:+:
      m.print.toList := by
    rw [print, String.toList_ofList]
    refine infix_trim ?_ (laidOut_head? hheader _ _) (laidOut_getLast? _ _ _)
    have hchars : block.core inner <:+: block.chars inner := by
      rw [block.chars_eq_layout_append_core]
      exact (List.suffix_append _ _).isInfix
    rw [← hcore]
    exact hchars.trans h.infix_chars
  constructor
  · intro hinner
    rwa [Scope.indent_eq_nil hinner, ← halone] at hpiece
  · intro hinner hne
    rw [Scope.indent_eq_blanks hblock hinner hne] at hpiece
    exact ⟨header, halone, hpiece⟩

/-- A select with another one in a branch. -/
def deepSelect : Node :=
  .select "g" [("x", [.literal "#"]), ("other", [.select "h" [("y", [])]])]

def aroundDeepSelect : Message :=
  [.literal "a\n", .plural "n" .cardinal (some 1) [("one", [.pound]),
    ("other", [.tag "b" [.literal "#", deepSelect]])]]

/-- In a plural, looking through a tag, the two lines of the select are indented and the line of
the select inside of it is not. -/
theorem print_infix_of_within_deepSelect :
    deepSelect.Within .pluralBody .message aroundDeepSelect ∧
      print [deepSelect] =
        "\x7bg, select,\n x \x7b#\x7d\n other \x7b\n \x7bh, select,\n y \x7b\x7d\x7d\x7d\x7d" ∧
      ∃ header, (print [deepSelect]).toList =
          laidOut header [] (deepSelect.branches.lines .selectBody) ∧
        laidOut header [' ', ' '] (deepSelect.branches.lines .selectBody) <:+:
          (print aroundDeepSelect).toList := by
  have hwithin : deepSelect.Within .pluralBody .message aroundDeepSelect :=
    .plural (List.mem_cons_of_mem _ List.mem_cons_self)
      (List.mem_cons_of_mem _ List.mem_cons_self)
      (.tag List.mem_cons_self (.here (List.mem_cons_of_mem _ List.mem_cons_self)))
  have hpiece := print_infix_of_within rfl hwithin
  exact ⟨hwithin, by decide +kernel, hpiece.2 (by decide) (by decide)⟩

end Message

end MessageFormat
