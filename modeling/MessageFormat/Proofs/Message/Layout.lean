import MessageFormat.Proofs.Message.Quoting
import MessageFormat.Proofs.Message.WellFormed

/-!
# The layout of blocks

Every block brings the line break and the indent in front of it along, so its text falls into this
layout and a core. Printing a well-formed message trims the layout of the first node away and
nothing else.
-/

namespace MessageFormat

namespace Node

/-- The line break and the indent that a block is written after. -/
def layout : Node → List Char
  | .plural .. => ['\n', ' ', ' ']
  | .select .. => ['\n', ' ']
  | _ => []

/-- The text of a node without its layout. -/
def core (scope : Scope) : Node → List Char
  | .plural name kind offset branches =>
    blockChars "\x7b" name kind.keyword
      (offsetChars offset ++ Branches.chars .pluralBody (scope.indent .pluralBody) branches)
  | .select name branches =>
    blockChars "\x7b" name "select"
      (Branches.chars .selectBody (scope.indent .selectBody) branches)
  | node => node.chars scope

theorem chars_eq_layout_append_core (scope : Scope) (node : Node) :
    node.chars scope = node.layout ++ node.core scope := by
  cases node <;> rfl

theorem isBlank_of_mem_layout {node : Node} {c : Char} (h : c ∈ node.layout) :
    Text.isBlank c = true := by
  cases node <;> simp only [layout, List.mem_cons, List.not_mem_nil, or_false] at h
  · rcases h with rfl | rfl | rfl <;> decide
  · rcases h with rfl | rfl <;> decide

theorem not_isBrace_of_mem_layout {node : Node} {c : Char} (h : c ∈ node.layout) :
    Quoting.isBrace c = false := by
  cases node <;> simp only [layout, List.mem_cons, List.not_mem_nil, or_false] at h
  · rcases h with rfl | rfl | rfl <;> decide
  · rcases h with rfl | rfl <;> decide

theorem not_mem_layout {node : Node} {c : Char} (h : Text.isBlank c = false) :
    c ∉ node.layout := by
  intro hmem
  rw [isBlank_of_mem_layout hmem] at h
  cases h

end Node

namespace Message

/-- Text as a literal, unless there is none. -/
def literal (t : List Char) : Message :=
  if t = [] then [] else [.literal (String.ofList t)]

/-- The layout of the first node. -/
def leadingLayout : Message → List Char
  | [] => []
  | node :: _ => node.layout

/-- The text of a message without the layout of its first node. -/
def core (scope : Scope) : Message → List Char
  | [] => []
  | node :: nodes => node.core scope ++ Message.chars scope nodes

theorem chars_eq_leadingLayout_append_core (scope : Scope) (m : Message) :
    Message.chars scope m = m.leadingLayout ++ m.core scope := by
  cases m with
  | nil => rfl
  | cons node nodes =>
    simp only [Message.chars, leadingLayout, core, node.chars_eq_layout_append_core scope,
      List.append_assoc]

end Message

/-! ### The separator in the header of a block -/

/-- The separator depends only on the first character of what follows. -/
theorem headerSeparator_of_head? {s t : List Char} (h : s.head? = t.head?) :
    headerSeparator s = headerSeparator t := by
  cases s with
  | nil => rw [List.head?_eq_none_iff.1 h.symm]
  | cons c s =>
    obtain ⟨u, rfl⟩ := List.head?_eq_some_iff.1 h.symm
    by_cases hc : c = '\n'
    · rw [hc]; rfl
    · simp [headerSeparator, hc]

/-- The separator depends on the offset and on whether there are branches at all. -/
theorem headerSeparator_congr (offset : List Char) {scope scope' : Scope}
    {indent indent' : List Char} {bs cs : Branches} (h : bs.isEmpty = cs.isEmpty) :
    headerSeparator (offset ++ Branches.chars scope indent bs) =
      headerSeparator (offset ++ Branches.chars scope' indent' cs) := by
  apply headerSeparator_of_head?
  rw [List.head?_append, List.head?_append]
  congr 1
  cases bs <;> cases cs <;> first | rfl | cases h

/-! ### The characters of skeletons -/

namespace SkeletonToken

variable {P : Char → Prop}

/-- Besides its texts a token has only slashes. -/
theorem forall_mem_chars {token : SkeletonToken} (hslash : P '/')
    (h : ∀ s ∈ token.stem :: token.options, ∀ c ∈ s.toList, P c) : ∀ c ∈ token.chars, P c := by
  intro c hc
  rw [chars, List.mem_append, List.mem_flatMap] at hc
  rcases hc with hc | ⟨option, hoption, hc⟩
  · exact h token.stem List.mem_cons_self c hc
  · rcases List.mem_cons.1 hc with rfl | hc
    · exact hslash
    · exact h option (List.mem_cons_of_mem _ hoption) c hc

/-- Besides its tokens a skeleton has only blanks. -/
theorem forall_mem_intercalate {tokens : List SkeletonToken} (hblank : P ' ')
    (h : ∀ token ∈ tokens, ∀ c ∈ token.chars, P c) :
    ∀ c ∈ List.intercalate [' '] (tokens.map chars), P c := by
  apply Quoting.forall_mem_intercalate
  · intro c hc
    rwa [List.mem_singleton.1 hc]
  · intro part hpart
    obtain ⟨token, htoken, rfl⟩ := List.mem_map.1 hpart
    exact h token htoken

end SkeletonToken

/-! ### The ends of a printed message -/

namespace Node

theorem exists_head_core {node : Node} (h : node.WellFormed .message)
    (ht : ∀ c ∈ node.text.head?, Text.isBlank c = false) :
    ∃ a, (node.core .message).head? = some a ∧ Text.isBlank a = false := by
  cases node with
  | literal t =>
    rcases Quoting.head?_quoteBraces t.toList with hq | hq
    · exact ⟨'\'', hq, by decide⟩
    · have hne := h.toList_ne_nil
      have ha := List.head?_eq_some_head hne
      exact ⟨_, hq.trans ha, ht _ ha⟩
  | argument name | formatted format name style | plural name kind offset branches
  | select name branches => exact ⟨'\x7b', rfl, by decide⟩
  | pound => exact ⟨'#', rfl, by decide⟩
  | tag name children => exact ⟨'<', rfl, by decide⟩

theorem exists_last_core {node : Node} (h : node.WellFormed .message)
    (ht : ∀ c ∈ node.text.getLast?, Text.isBlank c = false) :
    ∃ b, (node.core .message).getLast? = some b ∧ Text.isBlank b = false := by
  cases node with
  | literal t =>
    rcases Quoting.getLast?_quoteBraces t.toList with hq | hq
    · exact ⟨'\'', hq, by decide⟩
    · have hne := h.toList_ne_nil
      have hb := List.getLast?_eq_some_getLast hne
      exact ⟨_, hq.trans hb, ht _ hb⟩
  | argument name | formatted format name style | plural name kind offset branches
  | select name branches => exact ⟨'\x7d', List.getLast?_concat, by decide⟩
  | pound => exact ⟨'#', rfl, by decide⟩
  | tag name children => exact ⟨'>', List.getLast?_concat, by decide⟩

end Node

namespace Message

theorem exists_last_core {m : Message} (hm : m ≠ []) (h : Message.WellFormedIn .message m)
    (ht : ∀ node ∈ m.getLast?, ∀ c ∈ node.text.getLast?, Text.isBlank c = false) :
    ∃ b, (m.core .message).getLast? = some b ∧ Text.isBlank b = false := by
  induction m with
  | nil => exact absurd rfl hm
  | cons node nodes ih =>
    cases nodes with
    | nil =>
      simpa only [core, Message.chars, List.append_nil] using
        node.exists_last_core h.1 (ht node rfl)
    | cons next nodes =>
      obtain ⟨b, hb, hblank⟩ := ih (List.cons_ne_nil _ _) h.2.2 ht
      refine ⟨b, ?_, hblank⟩
      rw [core, chars_eq_leadingLayout_append_core, List.getLast?_append, List.getLast?_append, hb]
      rfl

/-- Printing takes the layout of the first node away and nothing else. -/
theorem print_eq_core {m : Message} (h : m.WellFormed) :
    m.print = String.ofList (m.core .message) := by
  cases m with
  | nil => rfl
  | cons node nodes =>
    obtain ⟨a, ha, hablank⟩ := node.exists_head_core h.nodes.1 (h.noOuterBlank.1 node rfl)
    obtain ⟨b, hb, hbblank⟩ := exists_last_core (List.cons_ne_nil _ _) h.nodes h.noOuterBlank.2
    have hhead : (core .message (node :: nodes)).head? = some a := by
      rw [core, List.head?_append, ha]
      rfl
    have hlayout : ∀ c ∈ leadingLayout (node :: nodes), Text.isBlank c = true :=
      fun c hc => Node.isBlank_of_mem_layout hc
    rw [print, chars_eq_leadingLayout_append_core,
      Text.trim_append hlayout hhead hablank hb hbblank]

end Message

end MessageFormat
