import Mathlib.Algebra.GroupWithZero.Nat
import MessageFormat.Proofs.Message.Bare
import MessageFormat.Proofs.Message.Layout

/-!
# The braces of a printed message

If the names and the skeletons of a message have no braces and nothing in it has an apostrophe,
then its text is balanced, with exactly one pair of braces for each argument, formatted argument,
block and branch. What its literals have of braces and pound signs does not matter.
-/

namespace MessageFormat

/-! ### Nodes at any depth -/

mutual

/-- The nodes inside a node. -/
def Node.inner : Node → List Node
  | .plural _ _ _ branches | .select _ branches => Branches.nodes branches
  | .tag _ children => Message.nodes children
  | .literal _ | .argument _ | .formatted .. | .pound => []
termination_by structural node => node

/-- The nodes of a message at all depths. -/
def Message.nodes : List Node → List Node
  | [] => []
  | node :: nodes => node :: node.inner ++ Message.nodes nodes
termination_by structural nodes => nodes

def Branches.nodes : List (String × List Node) → List Node
  | [] => []
  | (_, body) :: branches => Message.nodes body ++ Branches.nodes branches
termination_by structural branches => branches

end

/-- The number of pairs of braces that a node has for itself and for its branches. -/
def Node.bracePairs : Node → Nat
  | .argument _ | .formatted .. => 1
  | .plural _ _ _ branches | .select _ branches => 1 + branches.length
  | .literal _ | .pound | .tag .. => 0

/-- The number of arguments, formatted arguments, blocks and branches of a message. -/
def Message.bracePairs (m : Message) : Nat :=
  ((Message.nodes m).map Node.bracePairs).sum

def ArgStyle.Braceless : ArgStyle → Prop
  | .text t => '\'' ∉ t.toList
  | .number tokens => ∀ token ∈ tokens, ∀ s ∈ token.stem :: token.options,
    Quoting.IsPlain s.toList
  | .dateTime pattern => Quoting.IsPlain pattern.toList

/-- Only texts that are quoted when they are written may have braces, and none has an
apostrophe. -/
def Node.Braceless : Node → Prop
  | .literal t => '\'' ∉ t.toList
  | .argument name | .tag name _ => Quoting.IsPlain name.toList
  | .formatted _ name style => Quoting.IsPlain name.toList ∧ ∀ s ∈ style, s.Braceless
  | .pound => True
  | .plural name _ _ branches | .select name branches =>
    Quoting.IsPlain name.toList ∧ ∀ branch ∈ branches, Quoting.IsPlain branch.1.toList

instance (style : ArgStyle) : Decidable style.Braceless :=
  match style with
  | .text _ => inferInstanceAs (Decidable (_ ∉ _))
  | .number _ => inferInstanceAs (Decidable (∀ _ ∈ _, ∀ _ ∈ _, _))
  | .dateTime _ => inferInstanceAs (Decidable (Quoting.IsPlain _))

instance (node : Node) : Decidable node.Braceless :=
  match node with
  | .literal _ => inferInstanceAs (Decidable (_ ∉ _))
  | .argument _ | .tag _ _ => inferInstanceAs (Decidable (Quoting.IsPlain _))
  | .formatted _ _ _ => inferInstanceAs (Decidable (_ ∧ _))
  | .pound => isTrue trivial
  | .plural _ _ _ _ | .select _ _ => inferInstanceAs (Decidable (_ ∧ ∀ _ ∈ _, _))

/-! ### Printed messages -/

theorem isPlain_offsetChars (offset : Option UInt32) : Quoting.IsPlain (offsetChars offset) := by
  cases offset with
  | none => decide
  | some n =>
    rw [offsetChars]
    split
    · decide
    · exact Quoting.IsPlain.append (by decide) (Quoting.isPlain_toDigits _)

theorem ArgStyle.balanced_chars {style : ArgStyle} (h : style.Braceless) :
    Quoting.Balanced 0 style.chars := by
  have hskeleton : ∀ {s : List Char}, Quoting.IsPlain s → Quoting.Balanced 0 (':' :: ':' :: s) :=
    fun hs => .plain (Quoting.IsPlain.append (s := [':', ':']) (by decide) hs)
  cases style with
  | text t => exact Quoting.balanced_escape false h
  | number tokens =>
    apply hskeleton
    have hchars : ∀ token ∈ tokens, Quoting.IsPlain token.chars :=
      fun token htoken => token.forall_mem_chars (by decide) (h token htoken)
    exact SkeletonToken.forall_mem_intercalate (by decide) hchars
  | dateTime pattern => exact hskeleton h

namespace Quoting.Balanced

variable {n : Nat}

theorem formattedChars (format : ArgFormat) {name : String} {style : Option ArgStyle}
    (hname : IsPlain name.toList) (hstyle : ∀ s ∈ style, s.Braceless) :
    Balanced 1 (formattedChars format name style) := by
  have hkeyword : IsPlain format.keyword.toList := by cases format <;> decide
  have hhead : Balanced 0 (name.toList ++ [',', ' '] ++ format.keyword.toList) :=
    plain ((hname.append (by decide)).append hkeyword)
  cases style with
  | none => simpa [MessageFormat.formattedChars] using hhead.enclose
  | some style =>
    have htail : Balanced 0 ([',', ' '] ++ style.chars) :=
      (plain (by decide)).append (ArgStyle.balanced_chars (hstyle style rfl))
    simpa [MessageFormat.formattedChars] using (hhead.append htail).enclose

theorem blockChars {name keyword : String} {tail : List Char} (hname : IsPlain name.toList)
    (hkeyword : IsPlain keyword.toList) (h : Balanced n tail) :
    Balanced (n + 1) (blockChars "\x7b" name keyword tail) := by
  have hseparator : IsPlain (headerSeparator tail) := by
    unfold headerSeparator
    split
    · decide
    · decide
  have hhead : Balanced 0 (name.toList ++ [',', ' '] ++ keyword.toList ++ headerSeparator tail) :=
    plain (((hname.append (by decide)).append hkeyword).append hseparator)
  have hblock := (hhead.append h).enclose
  rw [Nat.zero_add] at hblock
  simpa [MessageFormat.blockChars] using hblock

end Quoting.Balanced

theorem Message.bracePairs_cons (node : Node) (nodes : Message) :
    Message.bracePairs (node :: nodes) =
      node.bracePairs + (node.inner.map Node.bracePairs).sum + Message.bracePairs nodes := by
  simp [Message.bracePairs, Message.nodes, Nat.add_assoc]

theorem Quoting.IsPlain.tagMarks {s : List Char} (h : IsPlain s) :
    IsPlain ('<' :: s ++ ['>']) ∧ IsPlain (['<', '/'] ++ s ++ ['>']) := by
  have hopen : IsPlain ['<'] := by decide
  have hclose : IsPlain ['<', '/'] := by decide
  exact ⟨(hopen.append h).append (by decide), (hclose.append h).append (by decide)⟩

theorem Scope.isPlain_indent (outer inner : Scope) : Quoting.IsPlain (outer.indent inner) := by
  cases outer <;> cases inner <;> decide

mutual

theorem Node.balanced_chars (scope : Scope) (node : Node) (h : node.Braceless)
    (hinner : ∀ n ∈ node.inner, n.Braceless) :
    Quoting.Balanced (node.bracePairs + (node.inner.map Node.bracePairs).sum)
      (node.chars scope) := by
  cases node with
  | literal t => exact Quoting.balanced_escape scope.inPlural h
  | argument name => exact (Quoting.Balanced.plain h).enclose
  | formatted format name style => exact .formattedChars format h.1 h.2
  | pound =>
    rw [Node.chars]
    exact .plain (by decide)
  | plural name kind offset branches =>
    have hkeyword : Quoting.IsPlain kind.keyword.toList := by cases kind <;> decide
    have hbranches := Branches.balanced_chars .pluralBody (scope.isPlain_indent .pluralBody)
      branches h.2 hinner
    have htail := (Quoting.Balanced.plain (isPlain_offsetChars offset)).append hbranches
    have hlayout : Quoting.Balanced 0 ['\n', ' ', ' '] := .plain (by decide)
    have hblock := hlayout.append (Quoting.Balanced.blockChars h.1 hkeyword htail)
    rw [Node.chars_eq_layout_append_core, Node.core]
    refine hblock.cast ?_
    simp only [Node.bracePairs, Node.inner]
    omega
  | select name branches =>
    have hkeyword : Quoting.IsPlain "select".toList := by decide
    have hbranches := Branches.balanced_chars .selectBody (scope.isPlain_indent .selectBody)
      branches h.2 hinner
    have hlayout : Quoting.Balanced 0 ['\n', ' '] := .plain (by decide)
    have hblock := hlayout.append (Quoting.Balanced.blockChars h.1 hkeyword hbranches)
    rw [Node.chars_eq_layout_append_core, Node.core]
    refine hblock.cast ?_
    simp only [Node.bracePairs, Node.inner]
    omega
  | tag name children =>
    have hchildren := Message.balanced_chars scope children hinner
    obtain ⟨hopen, hclose⟩ := Quoting.IsPlain.tagMarks h
    have htag := ((Quoting.Balanced.plain hopen).append hchildren).append (.plain hclose)
    simpa [Node.chars, Node.bracePairs, Node.inner, Message.bracePairs] using htag
termination_by structural node

theorem Message.balanced_chars (scope : Scope) (m : List Node)
    (h : ∀ node ∈ Message.nodes m, node.Braceless) :
    Quoting.Balanced (Message.bracePairs m) (Message.chars scope m) := by
  cases m with
  | nil =>
    rw [Message.chars]
    exact .plain (by decide)
  | cons node nodes =>
    rw [Message.nodes] at h
    have hnode := Node.balanced_chars scope node (h node (by simp))
      fun n hn => h n (by simp [hn])
    have hnodes := Message.balanced_chars scope nodes fun n hn => h n (by simp [hn])
    rw [Message.bracePairs_cons]
    exact hnode.append hnodes
termination_by structural m

theorem Branches.balanced_chars (scope : Scope) {indent : List Char}
    (hindent : Quoting.IsPlain indent) (branches : List (String × List Node))
    (hkeys : ∀ branch ∈ branches, Quoting.IsPlain branch.1.toList)
    (h : ∀ node ∈ Branches.nodes branches, node.Braceless) :
    Quoting.Balanced (branches.length + ((Branches.nodes branches).map Node.bracePairs).sum)
      (Branches.chars scope indent branches) := by
  cases branches with
  | nil =>
    rw [Branches.chars]
    exact .plain (by decide)
  | cons branch branches =>
    obtain ⟨key, body⟩ := branch
    rw [Branches.nodes] at h
    have hkey : Quoting.IsPlain key.toList := hkeys _ List.mem_cons_self
    have hstart : Quoting.IsPlain (['\n', ' '] ++ indent ++ key.toList ++ [' ']) :=
      ((Quoting.IsPlain.append (by decide) hindent).append hkey).append (by decide)
    have hbody := Message.balanced_chars scope body fun n hn => h n (by simp [hn])
    have hrest := Branches.balanced_chars scope hindent branches
      (fun b hb => hkeys b (List.mem_cons_of_mem _ hb)) fun n hn => h n (by simp [hn])
    have hbranch := ((Quoting.Balanced.plain hstart).append hbody.enclose).append hrest
    have hchars : Branches.chars scope indent ((key, body) :: branches) =
        ['\n', ' '] ++ indent ++ key.toList ++ [' '] ++
          ('\x7b' :: Message.chars scope body ++ ['\x7d']) ++
          Branches.chars scope indent branches := by
      simp [Branches.chars]
    rw [hchars]
    refine hbranch.cast ?_
    simp only [Branches.nodes, List.length_cons, List.map_append, List.sum_append,
      Message.bracePairs]
    omega
termination_by structural branches

end

/-- The braces of a printed message are nested outside of its quotes, with one pair for each
argument, formatted argument, block and branch at any depth. -/
theorem Message.print_balanced {m : Message} (h : ∀ node ∈ Message.nodes m, node.Braceless) :
    Quoting.Balanced m.bracePairs m.print.toList := by
  obtain ⟨u, v, hsplit, hu, hv⟩ := Text.exists_trim (Message.chars .message m)
  have hchars := Message.balanced_chars .message m h
  rw [hsplit] at hchars
  rw [Message.print, String.toList_ofList]
  exact hchars.of_append (Quoting.isPlain_of_blank hu) (Quoting.isPlain_of_blank hv)

/-- Quoted braces count nowhere, also where a pound sign between them closes the quotes. -/
def Message.bracesInText : Message :=
  [.literal "\x7d\x7b", .plural "n" .ordinal (some 3) [("other", [.literal "\x7b#\x7d", .tag "b" [
    .select "s" [("x", []), ("y", [.formatted .time "t" (some (.text "\x7b\x7b"))])]]])]]

theorem Message.print_balanced_bracesInText :
    (∀ node ∈ nodes bracesInText, node.Braceless) ∧
      Quoting.Balanced 6 bracesInText.print.toList := by
  have h : ∀ node ∈ nodes bracesInText, node.Braceless := by decide
  exact ⟨h, print_balanced h⟩

end MessageFormat
