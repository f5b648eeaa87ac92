import MessageFormat.Proofs.Message.Layout

/-!
# The layout written several times

In a printed message every block stands behind its layout, a line break and an indent, but for a
block at the very beginning. Here is the text of a message in which each of these layouts is
written a number of times in its place; written once it is the printed text.
-/

namespace MessageFormat

mutual

/-- The text of a node without its own layout; what lies inside has its layouts `copies` times. -/
def Node.coreWith (copies : Nat) (scope : Scope) : Node → List Char
  | .plural name kind offset branches =>
    blockChars "\x7b" name kind.keyword
      (offsetChars offset ++
        Branches.charsWith copies .pluralBody (scope.indent .pluralBody) branches)
  | .select name branches =>
    blockChars "\x7b" name "select"
      (Branches.charsWith copies .selectBody (scope.indent .selectBody) branches)
  | .tag name children =>
    '<' :: name.toList ++ ['>'] ++ Message.charsWith copies scope children ++
      ['<', '/'] ++ name.toList ++ ['>']
  | node => node.chars scope
termination_by structural node => node

def Message.charsWith (copies : Nat) (scope : Scope) : List Node → List Char
  | [] => []
  | node :: nodes =>
    (List.replicate copies node.layout).flatten ++ node.coreWith copies scope ++
      Message.charsWith copies scope nodes
termination_by structural nodes => nodes

def Branches.charsWith (copies : Nat) (scope : Scope) (indent : List Char) :
    List (String × List Node) → List Char
  | [] => []
  | (key, body) :: branches =>
    ['\n', ' '] ++ indent ++ key.toList ++ [' ', '\x7b'] ++ Message.charsWith copies scope body ++
      ['\x7d'] ++ Branches.charsWith copies scope indent branches
termination_by structural branches => branches

end

namespace Message

/-- The text of a message without the layout of its first node. -/
def coreWith (copies : Nat) (scope : Scope) : Message → List Char
  | [] => []
  | node :: nodes => node.coreWith copies scope ++ charsWith copies scope nodes

/-- The text of a message with `copies` layouts in front of every block but one that is its first
node. -/
def printWith (copies : Nat) (m : Message) : String :=
  String.ofList (m.coreWith copies .message)

theorem charsWith_eq_append_coreWith (copies : Nat) (scope : Scope) (m : Message) :
    charsWith copies scope m =
      (List.replicate copies m.leadingLayout).flatten ++ m.coreWith copies scope := by
  cases m with
  | nil => simp [charsWith, leadingLayout, coreWith]
  | cons node nodes => rw [charsWith, leadingLayout, coreWith, List.append_assoc]

@[simp] theorem charsWith_append (copies : Nat) (scope : Scope) (m n : Message) :
    charsWith copies scope (m ++ n) = charsWith copies scope m ++ charsWith copies scope n := by
  induction m with
  | nil => rfl
  | cons node m ih => simp [charsWith, ih]

end Message

/-! ### The blocks whose layouts are written -/

def Node.isBlock : Node → Bool
  | .plural .. | .select .. => true
  | _ => false

mutual

/-- The blocks inside a node, at any depth. -/
def Node.blocks : Node → List Node
  | .plural _ _ _ branches | .select _ branches => Branches.blocks branches
  | .tag _ children => Message.blocks children
  | .literal _ | .argument _ | .formatted .. | .pound => []
termination_by structural node => node

/-- The blocks among nodes and inside them. -/
def Message.blocks : List Node → List Node
  | [] => []
  | node :: nodes => (if node.isBlock then [node] else []) ++ node.blocks ++ Message.blocks nodes
termination_by structural nodes => nodes

def Branches.blocks : List (String × List Node) → List Node
  | [] => []
  | (_, body) :: branches => Message.blocks body ++ Branches.blocks branches
termination_by structural branches => branches

end

/-- The blocks of a message, but for one that is its first node. -/
def Message.innerBlocks : Message → List Node
  | [] => []
  | node :: nodes => node.blocks ++ Message.blocks nodes

mutual

theorem Node.isBlock_of_mem_blocks (node : Node) {b : Node} (h : b ∈ node.blocks) :
    b.isBlock = true := by
  cases node with
  | plural name kind offset branches => exact Branches.isBlock_of_mem_blocks branches h
  | select name branches => exact Branches.isBlock_of_mem_blocks branches h
  | tag name children => exact Message.isBlock_of_mem_blocks children h
  | literal t | argument name | formatted format name style | pound => simp [Node.blocks] at h
termination_by structural node

theorem Message.isBlock_of_mem_blocks (m : List Node) {b : Node} (h : b ∈ Message.blocks m) :
    b.isBlock = true := by
  cases m with
  | nil => simp [Message.blocks] at h
  | cons node nodes =>
    rw [Message.blocks, List.mem_append, List.mem_append] at h
    rcases h with (h | h) | h
    · split at h
      · next hblock => rwa [List.mem_singleton.1 h]
      · simp at h
    · exact Node.isBlock_of_mem_blocks node h
    · exact Message.isBlock_of_mem_blocks nodes h
termination_by structural m

theorem Branches.isBlock_of_mem_blocks (branches : List (String × List Node)) {b : Node}
    (h : b ∈ Branches.blocks branches) : b.isBlock = true := by
  cases branches with
  | nil => simp [Branches.blocks] at h
  | cons branch branches =>
    rw [Branches.blocks, List.mem_append] at h
    rcases h with h | h
    · exact Message.isBlock_of_mem_blocks branch.2 h
    · exact Branches.isBlock_of_mem_blocks branches h
termination_by structural branches

end

theorem Message.isBlock_of_mem_innerBlocks {m : Message} {b : Node} (h : b ∈ m.innerBlocks) :
    b.isBlock = true := by
  cases m with
  | nil => simp [innerBlocks] at h
  | cons node nodes =>
    rcases List.mem_append.1 h with h | h
    · exact Node.isBlock_of_mem_blocks node h
    · exact isBlock_of_mem_blocks nodes h

/-! ### When the number of copies does not show -/

theorem Message.blocks_cons_eq_nil_iff {node : Node} {nodes : Message} :
    blocks (node :: nodes) = [] ↔
      node.isBlock = false ∧ node.blocks = [] ∧ blocks nodes = [] := by
  simp [blocks]

theorem Node.flatten_replicate_layout {copies : Nat} {node : Node}
    (h : copies = 1 ∨ node.isBlock = false) :
    (List.replicate copies node.layout).flatten = node.layout := by
  rcases h with rfl | h
  · rw [List.replicate_one, List.flatten_singleton]
  · have hlayout : node.layout = [] := by cases node <;> first | rfl | cases h
    rw [hlayout, List.flatten_replicate_nil]

/-! Both for one copy and where there is no block the text is the printed one. -/

mutual

theorem Node.coreWith_eq_core {copies : Nat} (scope : Scope) (node : Node)
    (h : copies = 1 ∨ node.blocks = []) : node.coreWith copies scope = node.core scope := by
  cases node with
  | literal t | argument name | formatted format name style | pound => rfl
  | plural name kind offset branches =>
    rw [Node.coreWith, Branches.charsWith_eq_chars _ _ branches h, Node.core]
  | select name branches =>
    rw [Node.coreWith, Branches.charsWith_eq_chars _ _ branches h, Node.core]
  | tag name children =>
    rw [Node.coreWith, Message.charsWith_eq_chars _ children h, Node.core, Node.chars]
    all_goals simp
termination_by structural node

theorem Message.charsWith_eq_chars {copies : Nat} (scope : Scope) (m : List Node)
    (h : copies = 1 ∨ Message.blocks m = []) :
    Message.charsWith copies scope m = Message.chars scope m := by
  cases m with
  | nil => rfl
  | cons node nodes =>
    have hparts := h.imp_right Message.blocks_cons_eq_nil_iff.1
    rw [Message.charsWith, Node.flatten_replicate_layout (hparts.imp_right And.left),
      Node.coreWith_eq_core _ node (hparts.imp_right fun h => h.2.1),
      Message.charsWith_eq_chars _ nodes (hparts.imp_right fun h => h.2.2), Message.chars,
      node.chars_eq_layout_append_core]
termination_by structural m

theorem Branches.charsWith_eq_chars {copies : Nat} (scope : Scope) (indent : List Char)
    (branches : List (String × List Node)) (h : copies = 1 ∨ Branches.blocks branches = []) :
    Branches.charsWith copies scope indent branches = Branches.chars scope indent branches := by
  cases branches with
  | nil => rfl
  | cons branch branches =>
    have hparts := h.imp_right List.append_eq_nil_iff.1
    rw [Branches.charsWith, Message.charsWith_eq_chars _ branch.2 (hparts.imp_right And.left),
      Branches.charsWith_eq_chars _ _ branches (hparts.imp_right And.right), Branches.chars]
termination_by structural branches

end

theorem Message.printWith_eq_print {copies : Nat} {m : Message} (hm : m.WellFormed)
    (h : copies = 1 ∨ m.innerBlocks = []) : m.printWith copies = m.print := by
  rw [print_eq_core hm, printWith]
  cases m with
  | nil => rfl
  | cons node nodes =>
    have hparts := h.imp_right List.append_eq_nil_iff.1
    rw [coreWith, node.coreWith_eq_core _ (hparts.imp_right And.left),
      charsWith_eq_chars _ nodes (hparts.imp_right And.right), core]

/-! ### The length of the text -/

/-- The number of characters in the layouts of nodes. -/
def layoutSize (nodes : List Node) : Nat :=
  (nodes.flatMap Node.layout).length

@[simp] theorem layoutSize_append (m n : List Node) :
    layoutSize (m ++ n) = layoutSize m + layoutSize n := by
  simp [layoutSize]

theorem layoutSize_eq_zero_iff {nodes : List Node} (h : ∀ node ∈ nodes, node.isBlock = true) :
    layoutSize nodes = 0 ↔ nodes = [] := by
  cases nodes with
  | nil => simp [layoutSize]
  | cons node nodes =>
    have hnode := h node List.mem_cons_self
    have hpos : 0 < node.layout.length := by
      cases node <;> simp [Node.isBlock] at hnode <;> simp [Node.layout]
    simp only [layoutSize, List.flatMap_cons, List.length_append, reduceCtorEq, iff_false]
    omega

theorem layoutSize_block (node : Node) :
    layoutSize (if node.isBlock then [node] else []) = node.layout.length := by
  cases node <;> rfl

/-- A block gets as much longer as what stands behind its keyword. -/
theorem length_blockChars_of_length {s t : List Char} {n : Nat} (opening name keyword : String)
    (hhead : t.head? = s.head?) (h : t.length = s.length + n) :
    (blockChars opening name keyword t).length =
      (blockChars opening name keyword s).length + n := by
  simp only [blockChars, headerSeparator_of_head? hhead, List.length_append, h]
  omega

mutual

/-- One copy more makes the text longer by the layouts of the blocks inside. -/
theorem Node.length_coreWith_succ (copies : Nat) (scope : Scope) (node : Node) :
    (node.coreWith (copies + 1) scope).length =
      (node.coreWith copies scope).length + layoutSize node.blocks := by
  cases node with
  | literal t | argument name | formatted format name style | pound => rfl
  | plural name kind offset branches =>
    have h := Branches.length_charsWith_succ copies .pluralBody (scope.indent .pluralBody) branches
    apply length_blockChars_of_length
    · cases branches <;> simp [Branches.charsWith]
    · rw [List.length_append, List.length_append, h, Node.blocks, Nat.add_assoc]
  | select name branches =>
    have h := Branches.length_charsWith_succ copies .selectBody (scope.indent .selectBody) branches
    exact length_blockChars_of_length _ _ _ (by cases branches <;> rfl) h
  | tag name children =>
    have h := Message.length_charsWith_succ copies scope children
    simp only [Node.coreWith, Node.blocks, List.length_append, h]
    omega
termination_by structural node

theorem Message.length_charsWith_succ (copies : Nat) (scope : Scope) (m : List Node) :
    (Message.charsWith (copies + 1) scope m).length =
      (Message.charsWith copies scope m).length + layoutSize (Message.blocks m) := by
  cases m with
  | nil => rfl
  | cons node nodes =>
    have hnode := node.length_coreWith_succ copies scope
    have hnodes := Message.length_charsWith_succ copies scope nodes
    simp only [Message.charsWith, Message.blocks, layoutSize_append, layoutSize_block,
      List.replicate_succ, List.flatten_cons, List.length_append, hnode, hnodes]
    omega
termination_by structural m

theorem Branches.length_charsWith_succ (copies : Nat) (scope : Scope) (indent : List Char)
    (branches : List (String × List Node)) :
    (Branches.charsWith (copies + 1) scope indent branches).length =
      (Branches.charsWith copies scope indent branches).length +
        layoutSize (Branches.blocks branches) := by
  cases branches with
  | nil => rfl
  | cons branch branches =>
    have hbody := Message.length_charsWith_succ copies scope branch.2
    have hrest := Branches.length_charsWith_succ copies scope indent branches
    simp only [Branches.charsWith, Branches.blocks, layoutSize_append, List.length_append, hbody,
      hrest]
    omega
termination_by structural branches

end

theorem Message.length_printWith_succ (copies : Nat) (m : Message) :
    (m.printWith (copies + 1)).toList.length =
      (m.printWith copies).toList.length + layoutSize m.innerBlocks := by
  rw [printWith, printWith, String.toList_ofList, String.toList_ofList]
  cases m with
  | nil => rfl
  | cons node nodes =>
    rw [coreWith, coreWith, innerBlocks, layoutSize_append, List.length_append,
      List.length_append, node.length_coreWith_succ, length_charsWith_succ]
    omega

end MessageFormat
