import Mathlib.Logic.Function.Iterate
import MessageFormat.Proofs.Message.Copies

/-!
# Reading a printed message again

Whoever reads a printed message finds the layout of its blocks as literal text, except for a block
at the very beginning, whose layout was trimmed away. Printing such a message writes the layout of
those blocks once more in its place, so the text stays the same only if no block has lost its place
at the beginning; and every further round adds one more copy.
-/

namespace MessageFormat

/-! ### The message that is read again -/

mutual

def Node.reread : Node → Node
  | .plural name kind offset branches => .plural name kind offset (Branches.reread branches)
  | .select name branches => .select name (Branches.reread branches)
  | .tag name children => .tag name (Message.rereadIn false children)
  | node => node
termination_by structural node => node

/-- Puts the layout of every block in front of it or to the end of the literal there; the layout of
the first node is left out if it has its place already. -/
def Message.rereadIn (placed : Bool) : List Node → List Node
  | [] => []
  | .literal t :: nodes =>
    .literal (t ++ String.ofList (Message.leadingLayout nodes)) :: Message.rereadIn true nodes
  | node :: nodes =>
    (if placed then [] else Message.literal node.layout) ++
      node.reread :: Message.rereadIn false nodes
termination_by structural nodes => nodes

def Branches.reread : List (String × List Node) → List (String × List Node)
  | [] => []
  | (key, body) :: branches => (key, Message.rereadIn false body) :: Branches.reread branches
termination_by structural branches => branches

end

/-- The message as it is found in its own text: the layout of a block is literal text, except in
front of the whole message. -/
def Message.reread (m : Message) : Message :=
  Message.rereadIn true m

theorem Message.rereadIn_cons {placed : Bool} {node : Node} {nodes : Message}
    (h : node.isLiteral = false) :
    rereadIn placed (node :: nodes) = (if placed then [] else literal node.layout) ++
      node.reread :: rereadIn false nodes := by
  cases node with
  | literal t => cases h
  | _ => rfl

/-! ### One more copy of every layout -/

theorem Quoting.escape_layout (inPlural : Bool) (t : List Char) (node : Node) :
    escape inPlural (t ++ node.layout) = escape inPlural t ++ node.layout :=
  escape_append (fun _ => Node.not_isBrace_of_mem_layout) (Node.not_mem_layout (by decide))

namespace Message

variable {copies : Nat} {scope : Scope}

theorem charsWith_literal_layout (copies : Nat) (scope : Scope) (node : Node) :
    charsWith copies scope (literal node.layout) = node.layout := by
  have hescape := Quoting.escape_layout scope.inPlural [] node
  rw [literal]
  split
  · next hnil => rw [hnil]; rfl
  · rw [charsWith, charsWith, List.append_nil, Node.layout, List.flatten_replicate_nil,
      List.nil_append, Node.coreWith, Node.chars, String.toList_ofList]
    · rw [List.nil_append] at hescape
      rw [hescape]
      cases scope <;> rfl
    all_goals simp

theorem leadingLayout_rereadIn_true (m : Message) :
    leadingLayout (rereadIn true m) = leadingLayout m := by
  cases m with
  | nil => rfl
  | cons node nodes => cases node <;> rfl

theorem rereadIn_false (m : Message) :
    rereadIn false m = literal m.leadingLayout ++ rereadIn true m := by
  cases m with
  | nil => rfl
  | cons node nodes =>
    cases hliteral : node.isLiteral with
    | true =>
      obtain ⟨t, rfl⟩ := Node.exists_of_isLiteral hliteral
      rfl
    | false =>
      rw [rereadIn_cons hliteral, rereadIn_cons hliteral]
      rfl

theorem charsWith_rereadIn_false (m : Message) :
    charsWith copies scope (rereadIn false m) =
      m.leadingLayout ++ charsWith copies scope (rereadIn true m) := by
  rw [rereadIn_false, charsWith_append]
  cases m with
  | nil => rfl
  | cons node nodes => rw [leadingLayout, charsWith_literal_layout]

/-- What is put before a node is the same whether it goes to the end of a literal or not. -/
theorem coreWith_rereadIn_true_cons (node : Node) (nodes : Message) :
    coreWith copies scope (rereadIn true (node :: nodes)) =
      node.reread.coreWith copies scope ++ charsWith copies scope (rereadIn false nodes) := by
  cases node with
  | literal t =>
    have hescape : Quoting.escape scope.inPlural (t ++ String.ofList nodes.leadingLayout).toList =
        Quoting.escape scope.inPlural t.toList ++ nodes.leadingLayout := by
      rw [String.toList_append, String.toList_ofList]
      cases nodes with
      | nil => rw [leadingLayout, List.append_nil, List.append_nil]
      | cons next nodes => exact Quoting.escape_layout _ _ next
    rw [charsWith_rereadIn_false, Node.reread, Node.coreWith, Node.chars, ← List.append_assoc,
      ← hescape]
    · rfl
    all_goals simp
  | _ => rfl

/-- A layout that became literal text counts as one copy more. -/
theorem charsWith_rereadIn_false_of_core {m : Message}
    (h : coreWith copies scope (rereadIn true m) = coreWith (copies + 1) scope m) :
    charsWith copies scope (rereadIn false m) = charsWith (copies + 1) scope m := by
  rw [charsWith_rereadIn_false, charsWith_eq_append_coreWith, leadingLayout_rereadIn_true, h,
    charsWith_eq_append_coreWith, List.replicate_succ, List.flatten_cons, List.append_assoc]

end Message

mutual

theorem Node.coreWith_reread (copies : Nat) (scope : Scope) (node : Node) :
    node.reread.coreWith copies scope = node.coreWith (copies + 1) scope := by
  cases node with
  | literal t | argument name | formatted format name style | pound => rfl
  | plural name kind offset branches =>
    rw [Node.reread, Node.coreWith, Branches.charsWith_reread, Node.coreWith]
  | select name branches =>
    rw [Node.reread, Node.coreWith, Branches.charsWith_reread, Node.coreWith]
  | tag name children =>
    rw [Node.reread, Node.coreWith, Node.coreWith, Message.charsWith_rereadIn_false_of_core
      (Message.coreWith_rereadIn_true copies scope children)]
termination_by structural node

theorem Message.coreWith_rereadIn_true (copies : Nat) (scope : Scope) (m : List Node) :
    Message.coreWith copies scope (Message.rereadIn true m) =
      Message.coreWith (copies + 1) scope m := by
  cases m with
  | nil => rfl
  | cons node nodes =>
    rw [Message.coreWith_rereadIn_true_cons, Node.coreWith_reread copies scope node,
      Message.charsWith_rereadIn_false_of_core
        (Message.coreWith_rereadIn_true copies scope nodes), Message.coreWith]
termination_by structural m

theorem Branches.charsWith_reread (copies : Nat) (scope : Scope) (indent : List Char)
    (branches : List (String × List Node)) :
    Branches.charsWith copies scope indent (Branches.reread branches) =
      Branches.charsWith (copies + 1) scope indent branches := by
  cases branches with
  | nil => rfl
  | cons branch branches =>
    rw [Branches.reread, Branches.charsWith, Branches.charsWith,
      Message.charsWith_rereadIn_false_of_core
        (Message.coreWith_rereadIn_true copies scope branch.2),
      Branches.charsWith_reread copies scope indent branches]
termination_by structural branches

end

theorem Message.printWith_reread (copies : Nat) (m : Message) :
    m.reread.printWith copies = m.printWith (copies + 1) := by
  rw [printWith, printWith, reread, coreWith_rereadIn_true]

/-! ### Reading again keeps a message well-formed -/

theorem IsLiteral.append_layout {scope : Scope} {t : String} (h : IsLiteral scope t) (node : Node) :
    IsLiteral scope (t ++ String.ofList node.layout) := by
  obtain ⟨hne, hquote, htag, hpound⟩ := h
  rw [IsLiteral, String.toList_append, String.toList_ofList,
    Quoting.span_append fun _ => Node.not_isBrace_of_mem_layout]
  refine ⟨?_, ?_, ?_, hpound⟩
  · intro hnil
    exact hne (String.append_eq_empty_iff.1 hnil).1
  · rw [List.mem_append, not_or]
    exact ⟨hquote, Node.not_mem_layout (by decide)⟩
  · rw [List.mem_append, not_or]
    exact ⟨htag, Node.not_mem_layout (by decide)⟩

theorem IsLiteral.append_leadingLayout {scope : Scope} {t : String} (h : IsLiteral scope t)
    (m : Message) : IsLiteral scope (t ++ String.ofList m.leadingLayout) := by
  cases m with
  | nil => simpa [Message.leadingLayout] using h
  | cons node nodes => exact h.append_layout node

theorem IsLiteral.layout (scope : Scope) {node : Node} (h : node.layout ≠ []) :
    IsLiteral scope (String.ofList node.layout) := by
  rw [IsLiteral, String.toList_ofList, Quoting.span_of_free fun _ => Node.not_isBrace_of_mem_layout]
  refine ⟨?_, Node.not_mem_layout (by decide), Node.not_mem_layout (by decide), fun _ => by simp⟩
  intro hnil
  rw [← String.toList_eq_nil_iff, String.toList_ofList] at hnil
  exact h hnil

@[simp] theorem Node.isLiteral_reread (node : Node) : node.reread.isLiteral = node.isLiteral := by
  cases node <;> rfl

theorem Message.startsWithLiteral_rereadIn_true (m : Message) :
    startsWithLiteral (rereadIn true m) = startsWithLiteral m := by
  cases m with
  | nil => rfl
  | cons node nodes => cases node <;> rfl

/-- Layout can be put in front of a node as a literal. -/
theorem Message.WellFormedIn.literal_layout {scope : Scope} {node : Node} {m : Message}
    (hstart : startsWithLiteral m = false) (h : WellFormedIn scope m) :
    WellFormedIn scope (literal node.layout ++ m) := by
  rw [literal]
  split
  · exact h
  · next hne => exact ⟨IsLiteral.layout scope hne, fun _ => hstart, h⟩

mutual

theorem Node.WellFormed.reread {scope : Scope} (node : Node) (h : node.WellFormed scope) :
    node.reread.WellFormed scope := by
  cases node with
  | literal t | argument name | formatted format name style | pound => exact h
  | plural name kind offset branches => exact ⟨h.1, Branches.WellFormed.reread branches h.2⟩
  | select name branches => exact ⟨h.1, Branches.WellFormed.reread branches h.2⟩
  | tag name children => exact ⟨h.1, Message.WellFormedIn.reread false children h.2⟩
termination_by structural node

theorem Message.WellFormedIn.reread {scope : Scope} (placed : Bool) (m : List Node)
    (h : Message.WellFormedIn scope m) :
    Message.WellFormedIn scope (Message.rereadIn placed m) := by
  cases m with
  | nil => trivial
  | cons node nodes =>
    obtain ⟨hnode, hnext, hnodes⟩ := h
    have hnode' := Node.WellFormed.reread node hnode
    cases hliteral : node.isLiteral with
    | true =>
      obtain ⟨t, rfl⟩ := Node.exists_of_isLiteral hliteral
      refine ⟨hnode.append_leadingLayout nodes, fun _ => ?_,
        Message.WellFormedIn.reread true nodes hnodes⟩
      rw [Message.startsWithLiteral_rereadIn_true]
      exact hnext rfl
    | false =>
      have hreread : node.reread.isLiteral = false := node.isLiteral_reread.trans hliteral
      have hrest : Message.WellFormedIn scope (node.reread :: Message.rereadIn false nodes) :=
        ⟨hnode', by simp [hreread], Message.WellFormedIn.reread false nodes hnodes⟩
      rw [Message.rereadIn_cons hliteral]
      cases placed with
      | false => exact hrest.literal_layout hreread
      | true => exact hrest
termination_by structural m

theorem Branches.WellFormed.reread {scope : Scope} (branches : List (String × List Node))
    (h : Branches.WellFormed scope branches) :
    Branches.WellFormed scope (Branches.reread branches) := by
  cases branches with
  | nil => trivial
  | cons branch branches =>
    exact ⟨h.1, Message.WellFormedIn.reread false branch.2 h.2.1,
      Branches.WellFormed.reread branches h.2.2⟩
termination_by structural branches

end

@[simp] theorem Node.text_reread (node : Node) : node.reread.text = node.text := by
  cases node <;> rfl

namespace Message

theorem getLast?_rereadIn (placed : Bool) (m : Message) :
    (rereadIn placed m).getLast? = m.getLast?.map Node.reread := by
  induction m generalizing placed with
  | nil => rfl
  | cons node nodes ih =>
    cases hliteral : node.isLiteral with
    | true =>
      obtain ⟨t, rfl⟩ := Node.exists_of_isLiteral hliteral
      cases nodes with
      | nil => simp [rereadIn, leadingLayout, Node.reread]
      | cons next nodes =>
        rw [rereadIn, List.getLast?_cons, ih, List.getLast?_cons_cons]
        simp [List.getLast?_eq_some_getLast]
    | false =>
      rw [rereadIn_cons hliteral, List.getLast?_append, List.getLast?_cons, ih]
      cases nodes with
      | nil => rfl
      | cons next nodes => simp [List.getLast?_eq_some_getLast]

theorem NoOuterBlank.reread {m : Message} (hm : Message.WellFormedIn .message m)
    (h : m.NoOuterBlank) : NoOuterBlank m.reread := by
  refine ⟨?_, ?_⟩
  · cases m with
    | nil => simp [Message.reread, rereadIn]
    | cons node nodes =>
      have hhead := h.1 node rfl
      cases node with
      | literal t =>
        have hne := hm.1.toList_ne_nil
        obtain ⟨c, u, hcons⟩ := List.exists_cons_of_ne_nil hne
        simpa [Message.reread, rereadIn, Node.text, hcons] using hhead
      | _ => simp [Message.reread, rereadIn, Node.text, Node.reread]
  · intro node hnode
    rw [Message.reread, getLast?_rereadIn, Option.mem_def, Option.map_eq_some_iff] at hnode
    obtain ⟨last, hlast, rfl⟩ := hnode
    rw [Node.text_reread]
    exact h.2 last hlast

theorem WellFormed.reread {m : Message} (h : m.WellFormed) : WellFormed m.reread :=
  ⟨WellFormedIn.reread true m h.nodes, h.noOuterBlank.reread h.nodes⟩

end Message

/-! ### The text of a message that was read again -/

namespace Message

/-- Every round of printing and reading adds one copy of the layouts. -/
theorem print_iterate_reread (rounds : Nat) {m : Message} (h : m.WellFormed) :
    print (reread^[rounds] m) = m.printWith (rounds + 1) := by
  induction rounds generalizing m with
  | zero => exact (printWith_eq_print h (.inl rfl)).symm
  | succ rounds ih => rw [Function.iterate_succ_apply, ih h.reread, printWith_reread]

/-- The printed text has every layout once, and the text of the message that is found in it has
every layout twice in its place; the two are the same just when there is no inner block. -/
theorem print_reread {m : Message} (h : m.WellFormed) :
    m.print = m.printWith 1 ∧ m.reread.print = m.printWith 2 ∧
      (m.reread.print = m.print ↔ m.innerBlocks = []) := by
  have hone : m.print = m.printWith 1 := print_iterate_reread 0 h
  have htwo : m.reread.print = m.printWith 2 := print_iterate_reread 1 h
  refine ⟨hone, htwo, ?_⟩
  constructor
  · intro heq
    have hlength := m.length_printWith_succ 1
    rw [← htwo, ← hone, heq] at hlength
    have hsize : layoutSize m.innerBlocks = 0 := by omega
    exact (layoutSize_eq_zero_iff fun b hb => isBlock_of_mem_innerBlocks hb).1 hsize
  · intro hnil
    rw [htwo, printWith_eq_print h (.inr hnil)]

theorem print_reread_sample :
    (sample none).reread.print = (sample none).printWith 2 ∧
      (sample none).reread.print ≠ (sample none).print := by
  obtain ⟨-, htwo, hiff⟩ := print_reread (by decide +kernel : (sample none).WellFormed)
  refine ⟨htwo, fun heq => ?_⟩
  have hsize : layoutSize (sample none).innerBlocks = 7 := by decide +kernel
  rw [hiff.1 heq] at hsize
  cases hsize

example : print (reread [.select "g" [("m", [.plural "n" .cardinal none [("other", [.pound])]])]]) =
    "\x7bg, select,\n m \x7b\n  \n  \x7bn, plural,\n   other \x7b#\x7d\x7d\x7d\x7d" := by
  decide +kernel

/-- Reading again does not always give the text back: a plural in the branch of a select gets its
layout twice. -/
theorem not_forall_print_reread_eq : ¬ ∀ m : Message, m.WellFormed → m.reread.print = m.print := by
  intro h
  have heq := h
    [.select "gender" [("male", [.plural "count" .cardinal none [("other", [.pound])]])]]
    (by decide +kernel)
  exact absurd heq (by decide +kernel)

end Message

end MessageFormat
