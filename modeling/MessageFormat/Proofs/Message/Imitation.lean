import MessageFormat.Proofs.Message.Balance
import MessageFormat.Proofs.Message.Exposure
import MessageFormat.Proofs.Message.Placement

/-!
# Literal text does not pass for syntax

Every node of a message but literals and pound signs writes a mark, a brace or the end of a tag,
that stands outside of all quotes. So a literal is printed like a message with such a node only if
it lets the same mark out of its own quotes. Then it may be: the printer leaves apostrophes and tag
marks of a literal as they are.
-/

namespace MessageFormat

/-! ### The marks of syntax in a message -/

namespace Node

/-- A node that is written in braces. -/
def isBraced : Node → Bool
  | .argument _ | .formatted .. | .plural .. | .select .. => true
  | .literal _ | .pound | .tag .. => false

def isTag : Node → Bool
  | .tag .. => true
  | _ => false

/-- What of a node no literal is to imitate: a brace or the mark that closes a tag. -/
def mark : Node → List Char
  | .argument _ | .formatted .. | .plural .. | .select .. => ['\x7b']
  | .literal _ | .pound => []
  | .tag .. => ['<', '/']

theorem mark_of_isBraced {node : Node} (h : node.isBraced = true) : node.mark = ['\x7b'] := by
  cases node <;> first | rfl | cases h

theorem mark_of_isTag {node : Node} (h : node.isTag = true) : node.mark = ['<', '/'] := by
  cases node <;> first | rfl | cases h

theorem isPlain_mark_or (node : Node) :
    Quoting.IsPlain node.mark ∨ ∃ b, Quoting.isBrace b = true ∧ node.mark = [b] := by
  cases node with
  | literal t | pound | tag name children => exact .inl (by rw [mark]; decide)
  | argument name | formatted format name style | plural name kind offset branches
  | select name branches => exact .inr ⟨'\x7b', rfl, rfl⟩

end Node

open Quoting (Framed Shows Exposes)

theorem Node.mark_infix_chars (scope : Scope) (node : Node) : node.mark <:+: node.chars scope := by
  cases node with
  | literal t | pound => exact List.nil_infix
  | argument name => exact ⟨[], name.toList ++ ['\x7d'], rfl⟩
  | formatted format name style => exact ⟨[], _, rfl⟩
  | plural name kind offset branches => exact ⟨['\n', ' ', ' '], _, rfl⟩
  | select name branches => exact ⟨['\n', ' '], _, rfl⟩
  | tag name children =>
    exact ⟨'<' :: name.toList ++ ['>'] ++ Message.chars scope children, name.toList ++ ['>'],
      by simp [mark, chars]⟩

theorem Node.Within.mono {node : Node} {inner scope : Scope} {m m' : Message}
    (h : node.Within inner scope m) (hm : m ⊆ m') : node.Within inner scope m' := by
  cases h with
  | here h => exact .here (hm h)
  | tag h hw => exact .tag (hm h) hw
  | plural h hbody hw => exact .plural (hm h) hbody hw
  | select h hbody hw => exact .select (hm h) hbody hw

mutual

theorem Node.exists_within_of_mem_inner {scope : Scope} {m : Message} (node : Node) (hm : node ∈ m)
    {n : Node} (h : n ∈ node.inner) : ∃ inner, n.Within inner scope m := by
  cases node with
  | literal t | argument name | formatted format name style | pound => cases h
  | plural name kind offset branches =>
    obtain ⟨branch, hbody, inner, hn⟩ := Branches.exists_within_of_mem_nodes .pluralBody branches h
    exact ⟨inner, .plural hm hbody hn⟩
  | select name branches =>
    obtain ⟨branch, hbody, inner, hn⟩ := Branches.exists_within_of_mem_nodes .selectBody branches h
    exact ⟨inner, .select hm hbody hn⟩
  | tag name children =>
    obtain ⟨inner, hn⟩ := Message.exists_within_of_mem_nodes scope children h
    exact ⟨inner, .tag hm hn⟩
termination_by structural node

/-- A node at any depth stands somewhere in the message. -/
theorem Message.exists_within_of_mem_nodes (scope : Scope) (m : List Node) {n : Node}
    (h : n ∈ Message.nodes m) : ∃ inner, n.Within inner scope m := by
  cases m with
  | nil => cases h
  | cons node nodes =>
    rw [Message.nodes, List.mem_append, List.mem_cons] at h
    rcases h with (rfl | h) | h
    · exact ⟨scope, .here List.mem_cons_self⟩
    · exact Node.exists_within_of_mem_inner node List.mem_cons_self h
    · obtain ⟨inner, hn⟩ := Message.exists_within_of_mem_nodes scope nodes h
      exact ⟨inner, hn.mono (List.subset_cons_self node nodes)⟩
termination_by structural m

theorem Branches.exists_within_of_mem_nodes (scope : Scope) (branches : List (String × List Node))
    {n : Node} (h : n ∈ Branches.nodes branches) :
    ∃ branch ∈ branches, ∃ inner, n.Within inner scope branch.2 := by
  cases branches with
  | nil => cases h
  | cons branch branches =>
    rw [Branches.nodes, List.mem_append] at h
    rcases h with h | h
    · exact ⟨branch, List.mem_cons_self, Message.exists_within_of_mem_nodes scope branch.2 h⟩
    · obtain ⟨other, hother, hn⟩ := Branches.exists_within_of_mem_nodes scope branches h
      exact ⟨other, List.mem_cons_of_mem _ hother, hn⟩
termination_by structural branches

end

theorem Branches.mark_infix_chars (scope : Scope) (indent : List Char) {branches : Branches}
    {n : Node} (h : n ∈ Branches.nodes branches) :
    n.mark <:+: Branches.chars scope indent branches := by
  obtain ⟨branch, hbody, inner, hn⟩ := Branches.exists_within_of_mem_nodes scope branches h
  exact (n.mark_infix_chars inner).trans (hn.infix_chars.trans (infix_chars scope indent hbody))

/-- A node in braces has the marks of the nodes inside between them. -/
theorem Node.exists_core_eq_of_isBraced (scope : Scope) {node : Node} (h : node.isBraced = true) :
    ∃ s, node.core scope = '\x7b' :: s ++ ['\x7d'] ∧ ∀ n ∈ node.inner, n.mark <:+: s := by
  cases node with
  | literal t | pound | tag name children => cases h
  | argument name => exact ⟨name.toList, rfl, by simp [inner]⟩
  | formatted format name style => exact ⟨_, rfl, by simp [inner]⟩
  | plural name kind offset branches =>
    refine ⟨_, rfl, fun n hn => ?_⟩
    have hbranches := Branches.mark_infix_chars .pluralBody (scope.indent .pluralBody) hn
    exact hbranches.trans ((List.suffix_append _ _).isInfix.trans (List.suffix_append _ _).isInfix)
  | select name branches =>
    refine ⟨_, rfl, fun n hn => ?_⟩
    have hbranches := Branches.mark_infix_chars .selectBody (scope.indent .selectBody) hn
    exact hbranches.trans (List.suffix_append _ _).isInfix

/-! ### Messages from both ends -/

theorem IsName.isPlain {name : String} (h : IsName name) : Quoting.IsPlain name.toList := by
  intro c hc
  obtain ⟨-, hreserved⟩ := h.2 c hc
  refine ⟨?_, Bool.eq_false_iff.2 fun hbrace => ?_⟩
  · rintro rfl
    exact hreserved (by decide)
  · simp only [Quoting.isBrace, Bool.or_eq_true, decide_eq_true_eq] at hbrace
    rcases hbrace with rfl | rfl <;> exact hreserved (by decide)

theorem Message.isPlain_leadingLayout (m : Message) : Quoting.IsPlain m.leadingLayout := by
  cases m with
  | nil => exact fun c hc => by cases hc
  | cons node nodes => exact Quoting.isPlain_of_blank fun c hc => Node.isBlank_of_mem_layout hc

theorem Message.framed_chars {m : Message} (h : Framed (m.core .message)) :
    Framed (Message.chars .message m) := by
  rw [chars_eq_leadingLayout_append_core]
  exact (Framed.plain m.isPlain_leadingLayout).append h

theorem Node.core_tag (scope : Scope) (name : String) (children : Message) :
    Node.core scope (.tag name children) = ('<' :: name.toList ++ ['>']) ++
      Message.chars scope children ++ (['<', '/'] ++ name.toList ++ ['>']) := by
  simp [Node.core, Node.chars]

theorem Node.framed_core_of_isBraced {node : Node} (h : node.isBraced = true) :
    Framed (node.core .message) := by
  obtain ⟨s, hcore, -⟩ := Node.exists_core_eq_of_isBraced .message h
  rw [hcore]
  exact .braces s

mutual

theorem Node.framed_core (node : Node) (h : node.WellFormed .message) :
    Framed (node.core .message) := by
  cases node with
  | literal t => exact Quoting.framed_quoteBraces h.2.1
  | argument name | formatted format name style | plural name kind offset branches
  | select name branches => exact Node.framed_core_of_isBraced rfl
  | pound => cases h
  | tag name children =>
    obtain ⟨hopen, hclose⟩ := h.1.isPlain.tagMarks
    have hchildren := Message.framed_chars (Message.framed_core children h.2)
    rw [Node.core_tag]
    exact ((Framed.plain hopen).append hchildren).append (.plain hclose)
termination_by structural node

theorem Message.framed_core (m : List Node) (h : Message.WellFormedIn .message m) :
    Framed (Message.core .message m) := by
  cases m with
  | nil => exact .plain fun c hc => nomatch hc
  | cons node nodes =>
    have hnodes := Message.framed_chars (Message.framed_core nodes h.2.2)
    exact (Node.framed_core node h.1).append hnodes
termination_by structural m

end

theorem Message.shows_chars {m : Message} {mark : List Char}
    (h : Shows mark (m.core .message)) : Shows mark (Message.chars .message m) := by
  rw [chars_eq_leadingLayout_append_core]
  exact h.append_left (.plain m.isPlain_leadingLayout)

theorem Node.shows_mark_of_isBraced {node n : Node} (h : node.isBraced = true)
    (hn : n ∈ node :: node.inner) : Shows n.mark (node.core .message) := by
  obtain ⟨s, hcore, hinner⟩ := Node.exists_core_eq_of_isBraced .message h
  rw [hcore]
  rcases List.mem_cons.1 hn with rfl | hn
  · rw [mark_of_isBraced h]
    exact Quoting.shows_opening s
  · exact Quoting.shows_of_infix (hinner n hn)

mutual

/-- The mark of a node at any depth is live in the text. -/
theorem Node.shows_mark (node : Node) (h : node.WellFormed .message) {n : Node}
    (hn : n ∈ node :: node.inner) : Shows n.mark (node.core .message) := by
  cases node with
  | literal t =>
    obtain rfl : n = .literal t := by simpa [Node.inner] using hn
    exact ⟨[], _, rfl, .plain fun c hc => (nomatch hc), (Node.framed_core _ h).finish⟩
  | argument name | formatted format name style | plural name kind offset branches
  | select name branches => exact Node.shows_mark_of_isBraced rfl hn
  | pound => cases h
  | tag name children =>
    obtain ⟨hopen, hclose⟩ := h.1.isPlain.tagMarks
    rw [Node.core_tag]
    rcases List.mem_cons.1 hn with rfl | hn
    · have hchildren := Message.framed_chars (Message.framed_core children h.2)
      exact ⟨'<' :: name.toList ++ ['>'] ++ Message.chars .message children, name.toList ++ ['>'],
        by simp [Node.mark], ((Framed.plain hopen).append hchildren).start,
        (Framed.plain (h.1.isPlain.append (by decide))).finish⟩
    · have hinner := Message.shows_chars (Message.shows_mark children h.2 hn)
      exact (hinner.append_left (.plain hopen)).append_right (Framed.plain hclose).finish
termination_by structural node

theorem Message.shows_mark (m : List Node) (h : Message.WellFormedIn .message m) {n : Node}
    (hn : n ∈ Message.nodes m) : Shows n.mark (Message.core .message m) := by
  cases m with
  | nil => cases hn
  | cons node nodes =>
    rw [Message.nodes, List.mem_append] at hn
    rw [Message.core]
    rcases hn with hn | hn
    · have hnodes := Message.framed_chars (Message.framed_core nodes h.2.2)
      exact (Node.shows_mark node h.1 hn).append_right hnodes.finish
    · have hnodes := Message.shows_chars (Message.shows_mark nodes h.2.2 hn)
      exact hnodes.append_left (Node.framed_core node h.1).start
termination_by structural m

end

namespace Message

/-! ### Literal texts -/

/-- A mark that is live in a printed literal is exposed by it. -/
theorem exposes_of_shows_print {t : String} {mark : List Char}
    (hmark : Quoting.IsPlain mark ∨ ∃ b, Quoting.isBrace b = true ∧ mark = [b])
    (h : Shows mark (print [.literal t]).toList) : Exposes mark t.toList := by
  have hprint : (print [.literal t]).toList = Text.trim (Quoting.quoteBraces t.toList) := by
    rw [print, String.toList_ofList, Message.chars, Message.chars, List.append_nil]
    rfl
  rw [hprint] at h
  rcases Quoting.free_or_spans t.toList with hfree | ⟨before, span, after, hspans⟩
  · obtain ⟨x, y, htrim, -, -⟩ := h
    obtain ⟨u, v, hsplit, -, -⟩ := Text.exists_trim t.toList
    rw [Quoting.quoteBraces_of_no_brace hfree] at htrim
    rw [htrim] at hsplit
    have hbefore : (Quoting.braceSpan t.toList).1 = t.toList :=
      List.takeWhile_eq_self_iff.2 (by simpa using hfree)
    refine .inl ?_
    rw [hbefore]
    exact ⟨u ++ x, y ++ v, by rw [hsplit]; simp⟩
  · have hquoted : Quoting.quoteBraces t.toList = before ++ ('\'' :: span ++ ['\'']) ++ after := by
      simp [hspans.quoteBraces_eq]
    obtain ⟨u, v, htrim, hu, hv⟩ := Text.exists_trim_append before after
      (s := '\'' :: span ++ ['\'']) ⟨'\'', rfl, by decide⟩ ⟨'\'', List.getLast?_concat, by decide⟩
    have hcut : u ++ ('\'' :: span ++ ['\'']) ++ v = u ++ '\'' :: span ++ '\'' :: v := by simp
    rw [hquoted, htrim, hcut] at h
    exact h.exposes hspans hu hv hmark

/-- A literal is not printed like a message with an argument or a block, unless it lets a brace out
of its quotes, nor like one with a tag, unless it lets the mark out that closes a tag. -/
theorem print_literal_ne {t : String} {m : Message} (hm : m.WellFormed)
    (hnodes : (∃ node ∈ nodes m, node.isBraced = true) ∧ ¬ Exposes ['\x7b'] t.toList ∨
      (∃ node ∈ nodes m, node.isTag = true) ∧ ¬ Exposes ['<', '/'] t.toList) :
    print [.literal t] ≠ m.print := by
  intro heq
  have hexposes : ∀ node ∈ nodes m, Exposes node.mark t.toList := by
    intro node hnode
    apply exposes_of_shows_print node.isPlain_mark_or
    rw [heq, print_eq_core hm, String.toList_ofList]
    exact shows_mark m hm.nodes hnode
  rcases hnodes with ⟨⟨node, hnode, hbraced⟩, ht⟩ | ⟨⟨node, hnode, htag⟩, ht⟩
  · rw [← Node.mark_of_isBraced hbraced] at ht
    exact ht (hexposes node hnode)
  · rw [← Node.mark_of_isTag htag] at ht
    exact ht (hexposes node hnode)

/-- Neither an apostrophe among the braces nor a `<` outside of them makes a literal look like
syntax. -/
theorem print_literal_ne_tag :
    print [.literal "it's \x7b<b>\x7bit's\x7d</b>\x7d, 1 < 2"] ≠ print [.tag "b" [.argument "n"]] ∧
      print [.literal "it's \x7b<b>\x7bit's\x7d</b>\x7d, 1 < 2"] ≠ print [.tag "b" []] := by
  have hspan : (Quoting.braceSpan "it's \x7b<b>\x7bit's\x7d</b>\x7d, 1 < 2".toList).2.1.count
      '\'' < 2 := by decide +kernel
  refine ⟨print_literal_ne (by decide +kernel) (.inl ⟨?_, ?_⟩),
    print_literal_ne (by decide +kernel) (.inr ⟨?_, ?_⟩)⟩
  · exact ⟨.argument "n", by simp [nodes, Node.inner], rfl⟩
  · exact Quoting.not_exposes_of_count (by decide +kernel) (by decide +kernel) hspan
  · exact ⟨.tag "b" [], by simp [nodes, Node.inner], rfl⟩
  · exact Quoting.not_exposes_of_count (by decide +kernel) (by decide +kernel) hspan

/-- Not every literal is told from syntax: an apostrophe of its own can end the quotes around its
braces, and nothing quotes its tag marks. -/
theorem not_forall_print_literal_ne :
    (¬ ∀ (t : String) (m : Message), m.WellFormed → (∃ node ∈ nodes m, node.isBraced = true) →
      print [.literal t] ≠ m.print) ∧
    ¬ ∀ (t : String) (m : Message), m.WellFormed → (∃ node ∈ nodes m, node.isTag = true) →
      print [.literal t] ≠ m.print := by
  constructor
  · intro h
    refine h "x\x7b'\x7bn\x7d'\x7dy" [.literal "x\x7b", .argument "n", .literal "\x7dy"]
      (by decide +kernel) ⟨.argument "n", ?_, rfl⟩ (by decide +kernel)
    simp [nodes, Node.inner]
  · intro h
    refine h "<b>x</b>" [.tag "b" [.literal "x"]] (by decide +kernel)
      ⟨.tag "b" [.literal "x"], ?_, rfl⟩ (by decide +kernel)
    simp [nodes, Node.inner]

end Message

end MessageFormat
