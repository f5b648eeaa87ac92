import MessageFormat.Path

/-!
# The parts of a parent and of a joined path

However a path is spelled, its parent has the parts of the path without the last one, and a path
seen from a directory has those of the directory followed by its own. A text is cut at its slashes,
so that a slash more at its end or a point between two slashes adds no part.
-/

namespace MessageFormat.Path

/-- The parts of a text that count, without the root. -/
def names (t : List Char) : List (List Char) :=
  (splitSlash t).filter fun p => p ≠ [] && p ≠ ['.']

/-- The part that a slash at the start stands for. -/
def root (t : List Char) : List String :=
  if t.head? = some '/' then ["/"] else []

theorem components_eq (path : String) :
    components path = root path.toList ++ (names path.toList).map String.ofList := by
  unfold components root names
  dsimp only
  split <;> rfl

variable {s t : List Char}

theorem root_append (h : s ≠ []) (t : List Char) : root (s ++ t) = root s := by
  cases s with
  | nil => exact absurd rfl h
  | cons c s => rfl

/-! ### Cutting at slashes -/

theorem splitSlash_append_slash (s t : List Char) :
    splitSlash (s ++ '/' :: t) = splitSlash s ++ splitSlash t := by
  induction s with
  | nil => rfl
  | cons c s ih =>
    rw [List.cons_append, splitSlash, splitSlash, ih]
    by_cases hslash : c = '/'
    · rw [if_pos hslash, if_pos hslash, List.cons_append]
    · rw [if_neg hslash, if_neg hslash]
      cases hs : splitSlash s with
      | nil => exact absurd hs (splitSlash_ne_nil s)
      | cons p ps => rfl

theorem splitSlash_of_not_mem (h : '/' ∉ t) : splitSlash t = [t] := by
  induction t with
  | nil => rfl
  | cons c t ih =>
    obtain ⟨hc, ht⟩ := not_or.1 (mt List.mem_cons.2 h)
    rw [splitSlash, if_neg (Ne.symm hc), ih ht]

@[simp] theorem names_nil : names [] = [] := rfl

@[simp] theorem names_point : names ['.'] = [] := rfl

theorem names_append_slash (s t : List Char) : names (s ++ '/' :: t) = names s ++ names t := by
  rw [names, splitSlash_append_slash, List.filter_append]
  rfl

theorem names_cons_slash (t : List Char) : names ('/' :: t) = names t :=
  names_append_slash [] t

theorem names_of_part (hslash : '/' ∉ t) (hne : t ≠ []) (hpoint : t ≠ ['.']) : names t = [t] := by
  rw [names, splitSlash_of_not_mem hslash]
  simp [hne, hpoint]

/-! ### Parents -/

theorem anchor_append (t : List Char) : (anchor t).1 ++ (anchor t).2 = t := by
  unfold anchor
  split <;> rfl

/-- Behind the anchor stand all of the names, and a text that is cut off there keeps its root. -/
theorem anchor_start (h : s <+: (anchor t).2) :
    root ((anchor t).1 ++ s) = root t ∧ names ((anchor t).1 ++ s) = names s := by
  unfold anchor at h ⊢
  split at h
  · exact ⟨rfl, names_cons_slash s⟩
  · rw [List.prefix_nil.1 h]
    exact ⟨rfl, rfl⟩
  · rcases List.prefix_cons_iff.1 h with rfl | ⟨u, rfl, -⟩
    · exact ⟨rfl, rfl⟩
    · refine ⟨rfl, ?_⟩
      rw [names_cons_slash]
      exact names_append_slash ['.'] u
  · next hslash _ _ =>
    refine ⟨?_, rfl⟩
    cases s with
    | nil =>
      cases t with
      | nil => rfl
      | cons c t => exact (if_neg fun hc => hslash t (by simpa using hc)).symm
    | cons c s =>
      obtain ⟨u, rfl⟩ := h
      rfl

theorem names_anchor (t : List Char) : names (anchor t).2 = names t := by
  rw [← (anchor_start List.prefix_rfl).2, anchor_append]

theorem names_dropIdle (t : List Char) : names (dropIdle t).reverse = names t.reverse := by
  fun_induction dropIdle t with
  | case1 t ih => rw [ih, List.reverse_cons, names_append_slash, names_nil, List.append_nil]
  | case2 => rfl
  | case3 t ih =>
    rw [ih, List.reverse_cons, List.reverse_cons, List.append_assoc, List.singleton_append,
      names_append_slash, names_point, List.append_nil]
  | case4 t => rfl

theorem dropIdle_suffix (t : List Char) : dropIdle t <:+ t := by
  fun_induction dropIdle t with
  | case1 t ih => exact ih.trans (List.suffix_cons _ _)
  | case2 => exact List.nil_suffix
  | case3 t ih => exact ih.trans ((List.suffix_cons _ _).trans (List.suffix_cons _ _))
  | case4 t => exact List.suffix_rfl

theorem dropPart_suffix (t : List Char) : dropPart t <:+ t :=
  (List.drop_suffix _ _).trans (List.dropWhile_suffix _)

/-- What is left when all that counts for nothing has been dropped starts with a part that counts,
up to the next slash. -/
theorem exists_part_of_dropIdle (h : dropIdle t ≠ []) :
    ∃ p u, dropIdle t = p ++ u ∧ (u = [] ∨ ∃ v, u = '/' :: v) ∧ '/' ∉ p ∧ p ≠ [] ∧ p ≠ ['.'] := by
  fun_induction dropIdle t with
  | case1 t ih => exact ih h
  | case2 => exact absurd rfl h
  | case3 t ih => exact ih h
  | case4 t hslash hpoint hpointSlash =>
    by_cases hmem : '/' ∈ t
    · obtain ⟨p, u, rfl, hp⟩ := List.eq_append_cons_of_mem hmem
      refine ⟨p, '/' :: u, rfl, .inr ⟨u, rfl⟩, hp, ?_, ?_⟩
      · rintro rfl
        exact hslash u rfl
      · rintro rfl
        exact hpointSlash u rfl
    · exact ⟨t, [], (List.append_nil t).symm, .inl rfl, hmem, h, hpoint⟩

theorem dropPart_append {p u : List Char} (hp : '/' ∉ p) (hu : u = [] ∨ ∃ v, u = '/' :: v) :
    dropPart (p ++ u) = u.drop 1 := by
  have hdrop : ∀ c ∈ p, decide (c ≠ '/') = true := fun c hc =>
    decide_eq_true fun heq => hp (heq ▸ hc)
  rw [dropPart, List.dropWhile_append_of_pos hdrop]
  rcases hu with rfl | ⟨v, rfl⟩ <;> rfl

/-- Dropping the last part of a text takes its last name off. -/
theorem names_dropPart (h : dropIdle t ≠ []) :
    ∃ p, names t.reverse = names (dropPart (dropIdle t)).reverse ++ [p] := by
  obtain ⟨p, u, hcut, hu, hslash, hne, hpoint⟩ := exists_part_of_dropIdle h
  have hname : names p.reverse = [p.reverse] := by
    apply names_of_part
    · simpa using hslash
    · simpa using hne
    · simpa [List.reverse_eq_iff] using hpoint
  refine ⟨p.reverse, ?_⟩
  rw [← names_dropIdle, hcut, dropPart_append hslash hu, List.reverse_append, ← hname]
  rcases hu with rfl | ⟨v, rfl⟩
  · rfl
  · rw [List.reverse_cons, List.append_assoc, List.singleton_append, names_append_slash]
    rfl

/-- The text of a parent behind the anchor is a start of that of the path. -/
theorem parent_start (t : List Char) :
    (dropIdle (dropPart (dropIdle t.reverse))).reverse <+: t := by
  rw [← List.reverse_suffix, List.reverse_reverse]
  exact (dropIdle_suffix _).trans ((dropPart_suffix _).trans (dropIdle_suffix _))

/-- The parent of a path lacks its last part; a point stands in for it where there is none. -/
theorem components_parent? (path : String) :
    components ((parent? path).getD ".") = (components path).dropLast := by
  have hnames : names path.toList = names (anchor path.toList).2.reverse.reverse := by
    rw [List.reverse_reverse, names_anchor]
  rw [components_eq path, hnames, parent?]
  dsimp only
  split
  · next hnil =>
    -- no name is left, so that the root, if any, is the last part
    have hroot : (root path.toList).dropLast = [] := by
      unfold root
      split <;> rfl
    rw [← names_dropIdle, hnil, List.reverse_nil, names_nil, List.map_nil, List.append_nil, hroot]
    split <;> rfl
  · next hne =>
    obtain ⟨p, hp⟩ := names_dropPart hne
    obtain ⟨hroot, hrest⟩ := anchor_start (parent_start (anchor path.toList).2)
    rw [Option.getD_some, components_eq, String.toList_ofList, hroot, hrest, names_dropIdle, hp,
      List.map_append, ← List.append_assoc]
    exact (List.dropLast_concat ..).symm

/-! ### Joined paths -/

theorem root_eq_nil {path : String} (h : isAbsolute path = false) : root path.toList = [] :=
  if_neg (of_decide_eq_false h)

/-- How a path that is not absolute is put behind a directory. -/
theorem join_cases (base : String) {path : String} (h : isAbsolute path = false) :
    base.toList = [] ∧ (join base path).toList = path.toList ∨
      (∃ b, base.toList = b ++ ['/'] ∧ (join base path).toList = b ++ '/' :: path.toList) ∨
      base.toList ≠ [] ∧ (join base path).toList = base.toList ++ '/' :: path.toList := by
  rw [join, h]
  simp only [Bool.false_eq_true, if_false, Bool.or_eq_true, decide_eq_true_eq]
  by_cases hbase : base.toList = []
  · rw [if_pos (.inl hbase), String.toList_append, hbase]
    exact .inl ⟨rfl, rfl⟩
  · by_cases hlast : base.toList.getLast? = some '/'
    · obtain ⟨b, hb⟩ := List.getLast?_eq_some_iff.1 hlast
      rw [if_pos (.inr hlast), String.toList_append, hb, List.append_assoc]
      exact .inr (.inl ⟨b, rfl, rfl⟩)
    · rw [if_neg (by simp [hbase, hlast]), String.toList_append, String.toList_append,
        List.append_assoc]
      exact .inr (.inr ⟨hbase, rfl⟩)

theorem components_join (base : String) {path : String} (h : isAbsolute path = false) :
    components (join base path) = components base ++ components path := by
  have hroot : root path.toList = [] := root_eq_nil h
  have hjoin : root (join base path).toList = root base.toList ∧
      names (join base path).toList = names base.toList ++ names path.toList := by
    rcases join_cases base h with ⟨hbase, hjoin⟩ | ⟨b, hbase, hjoin⟩ | ⟨hne, hjoin⟩
    · rw [hjoin, hbase, hroot]
      exact ⟨rfl, rfl⟩
    · rw [hjoin, hbase, names_append_slash, names_append_slash, names_nil, List.append_nil]
      refine ⟨?_, rfl⟩
      cases b <;> rfl
    · rw [hjoin, names_append_slash, root_append hne]
      exact ⟨rfl, rfl⟩
  rw [components_eq, components_eq base, components_eq path, hjoin.1, hjoin.2, hroot,
    List.map_append, List.nil_append, List.append_assoc]

end MessageFormat.Path
