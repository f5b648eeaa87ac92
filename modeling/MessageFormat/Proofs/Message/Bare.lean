import MessageFormat.Proofs.Message.Quoting
import MessageFormat.Text.Blank

/-!
# Text outside of quotes

Every apostrophe of a written text opens or closes quotes, and braces count only outside of them.
A text is balanced if its quotes are closed in the end and its braces are nested, with a given
number of pairs. Balanced texts can be joined and put in braces, and the written form of any text
without apostrophes is one, with no pair at all.
-/

namespace MessageFormat

/-- A text is what trimming leaves of it between two blank texts. -/
theorem Text.exists_trim (s : List Char) :
    ∃ u v, s = u ++ trim s ++ v ∧ (∀ c ∈ u, isBlank c = true) ∧ ∀ c ∈ v, isBlank c = true := by
  refine ⟨s.takeWhile isBlank, ((s.dropWhile isBlank).reverse.takeWhile isBlank).reverse,
    ?_, ?_, ?_⟩
  · rw [trim, dropWhileEnd, List.append_assoc, ← List.reverse_append,
      List.takeWhile_append_dropWhile, List.reverse_reverse, List.takeWhile_append_dropWhile]
  · exact fun c hc => List.mem_takeWhile_imp hc
  · exact fun c hc => List.mem_takeWhile_imp (List.mem_reverse.1 hc)

theorem Text.dropWhile_append_of_head {p : Char → Bool} (u : List Char) {s : List Char}
    (h : ∃ a ∈ s.head?, p a = false) : (u ++ s).dropWhile p = u.dropWhile p ++ s := by
  obtain ⟨a, ha, hfalse⟩ := h
  obtain ⟨t, rfl⟩ := List.head?_eq_some_iff.1 ha
  rw [List.dropWhile_append]
  split
  · next hnil =>
    rw [List.isEmpty_iff.1 hnil]
    simp [hfalse]
  · rfl

/-- Trimming does not reach beyond a part that begins and ends with something else than a
blank. -/
theorem Text.exists_trim_append (u v : List Char) {s : List Char}
    (hhead : ∃ a ∈ s.head?, isBlank a = false) (hlast : ∃ b ∈ s.getLast?, isBlank b = false) :
    ∃ u' v', trim (u ++ s ++ v) = u' ++ s ++ v' ∧ u' <:+ u ∧ v' <+: v := by
  have hstart : (u ++ (s ++ v)).dropWhile isBlank = u.dropWhile isBlank ++ (s ++ v) := by
    obtain ⟨a, ha, hablank⟩ := hhead
    refine dropWhile_append_of_head u ⟨a, ?_, hablank⟩
    rw [Option.mem_def, List.head?_append, Option.mem_def.1 ha]
    rfl
  have hend : (v.reverse ++ (s.reverse ++ (u.dropWhile isBlank).reverse)).dropWhile isBlank =
      v.reverse.dropWhile isBlank ++ (s.reverse ++ (u.dropWhile isBlank).reverse) := by
    obtain ⟨b, hb, hbblank⟩ := hlast
    refine dropWhile_append_of_head v.reverse ⟨b, ?_, hbblank⟩
    rw [Option.mem_def, List.head?_append, List.head?_reverse, Option.mem_def.1 hb]
    rfl
  refine ⟨u.dropWhile isBlank, dropWhileEnd isBlank v, ?_, List.dropWhile_suffix _, ?_⟩
  · rw [trim, List.append_assoc, hstart, dropWhileEnd, List.reverse_append, List.reverse_append,
      List.append_assoc, hend, dropWhileEnd]
    simp
  · rw [dropWhileEnd, ← List.reverse_suffix, List.reverse_reverse]
    exact List.dropWhile_suffix _

/-- Trimming takes blanks off both ends, however many there are. -/
theorem Text.trim_append_blank {u s v : List Char} (hu : ∀ c ∈ u, isBlank c = true)
    (hv : ∀ c ∈ v, isBlank c = true) : trim (u ++ s ++ v) = trim s := by
  have hstart : (u ++ s ++ v).dropWhile isBlank = (s ++ v).dropWhile isBlank := by
    rw [List.append_assoc, List.dropWhile_append_of_pos hu]
  have hend : ∀ t, dropWhileEnd isBlank (t ++ v) = dropWhileEnd isBlank t := by
    intro t
    rw [dropWhileEnd, dropWhileEnd, List.reverse_append, List.dropWhile_append_of_pos]
    exact fun c hc => hv c (List.mem_reverse.1 hc)
  rw [trim, trim, hstart, List.dropWhile_append]
  split
  · next hnil =>
    rw [List.isEmpty_iff.1 hnil, List.dropWhile_eq_nil_iff.2 hv]
  · exact hend _

namespace Quoting

/-! ### Plain text -/

/-- A text without apostrophes and braces. -/
def IsPlain (s : List Char) : Prop :=
  ∀ c ∈ s, c ≠ '\'' ∧ isBrace c = false

instance (s : List Char) : Decidable (IsPlain s) :=
  List.decidableBAll (fun c => c ≠ '\'' ∧ isBrace c = false) s

theorem IsPlain.not_mem {s : List Char} (h : IsPlain s) : '\'' ∉ s :=
  fun hmem => (h _ hmem).1 rfl

theorem IsPlain.append {s t : List Char} (hs : IsPlain s) (ht : IsPlain t) : IsPlain (s ++ t) :=
  fun c hc => (List.mem_append.1 hc).elim (hs c) (ht c)

theorem IsPlain.reverse {s : List Char} (h : IsPlain s) : IsPlain s.reverse :=
  fun c hc => h c (List.mem_reverse.1 hc)

theorem isPlain_of_blank {s : List Char} (h : ∀ c ∈ s, Text.isBlank c = true) : IsPlain s := by
  intro c hc
  have hblank := h c hc
  refine ⟨?_, Bool.eq_false_iff.2 fun hbrace => ?_⟩
  · rintro rfl
    cases hblank
  · simp only [isBrace, Bool.or_eq_true, decide_eq_true_eq] at hbrace
    rcases hbrace with rfl | rfl <;> cases hblank

theorem isPlain_toDigits (n : Nat) : IsPlain (Nat.toDigits 10 n) := by
  intro c hc
  have hdigit := Nat.isDigit_of_mem_toDigits (by decide) (by decide) hc
  refine ⟨?_, Bool.eq_false_iff.2 fun hbrace => ?_⟩
  · rintro rfl
    cases hdigit
  · simp only [isBrace, Bool.or_eq_true, decide_eq_true_eq] at hbrace
    rcases hbrace with rfl | rfl <;> cases hdigit

/-! ### Outside of quotes -/

/-- What is left of a text without its quotes and what stands in them. -/
def bare : Bool → List Char → List Char
  | _, [] => []
  | quoted, c :: s =>
    if c = '\'' then bare (!quoted) s
    else if quoted then bare quoted s
    else c :: bare quoted s

/-- Whether quotes are open at the end of a text. -/
def endsQuoted : Bool → List Char → Bool
  | quoted, [] => quoted
  | quoted, c :: s => endsQuoted (if c = '\'' then !quoted else quoted) s

theorem endsQuoted_append (quoted : Bool) (s t : List Char) :
    endsQuoted quoted (s ++ t) = endsQuoted (endsQuoted quoted s) t := by
  induction s generalizing quoted with
  | nil => rfl
  | cons c s ih => exact ih _

theorem bare_append (quoted : Bool) (s t : List Char) :
    bare quoted (s ++ t) = bare quoted s ++ bare (endsQuoted quoted s) t := by
  induction s generalizing quoted with
  | nil => rfl
  | cons c s ih =>
    by_cases hc : c = '\''
    · simp only [List.cons_append, bare, endsQuoted, hc, if_true, ih]
    · cases quoted <;> simp [bare, endsQuoted, hc, ih]

theorem endsQuoted_of_not_mem {quoted : Bool} {s : List Char} (h : '\'' ∉ s) :
    endsQuoted quoted s = quoted := by
  induction s with
  | nil => rfl
  | cons c s ih =>
    rw [List.mem_cons, not_or] at h
    rw [endsQuoted, if_neg (Ne.symm h.1), ih h.2]

theorem bare_of_not_mem {quoted : Bool} {s : List Char} (h : '\'' ∉ s) :
    bare quoted s = if quoted then [] else s := by
  induction s with
  | nil => cases quoted <;> rfl
  | cons c s ih =>
    rw [List.mem_cons, not_or] at h
    rw [bare, if_neg (Ne.symm h.1), ih h.2]
    cases quoted <;> rfl

theorem bare_quoted {s : List Char} (h : '\'' ∉ s) (t : List Char) :
    bare false ('\'' :: s ++ '\'' :: t) = bare false t := by
  rw [List.cons_append, bare, if_pos rfl, Bool.not_false, bare_append, bare_of_not_mem h,
    endsQuoted_of_not_mem h]
  rfl

theorem endsQuoted_quoted {s : List Char} (h : '\'' ∉ s) (t : List Char) :
    endsQuoted false ('\'' :: s ++ '\'' :: t) = endsQuoted false t := by
  rw [List.cons_append, endsQuoted, if_pos rfl, Bool.not_false, endsQuoted_append,
    endsQuoted_of_not_mem h]
  rfl

theorem endsQuoted_quotePounds (quoted : Bool) (s : List Char) :
    endsQuoted quoted (quotePounds s) = endsQuoted quoted s := by
  induction s generalizing quoted with
  | nil => rfl
  | cons c s ih =>
    rw [← List.singleton_append, quotePounds_append, endsQuoted_append, endsQuoted_append, ih]
    by_cases hc : c = '#'
    · subst hc
      cases quoted <;> rfl
    · simp [quotePounds, hc]

/-- Quoting the pound signs brings nothing but pound signs out of the quotes. -/
theorem mem_bare_quotePounds {quoted : Bool} {s : List Char} {c : Char}
    (h : c ∈ bare quoted (quotePounds s)) : c = '#' ∨ c ∈ bare quoted s := by
  induction s generalizing quoted with
  | nil => exact .inr h
  | cons d s ih =>
    rw [← List.singleton_append, quotePounds_append, bare_append, endsQuoted_quotePounds,
      List.mem_append] at h
    rw [← List.singleton_append, bare_append, List.mem_append]
    rcases h with h | h
    · by_cases hd : d = '#'
      · subst hd
        cases quoted
        · simp [quotePounds, bare] at h
        · simp [quotePounds, bare] at h
          exact .inl h
      · rw [quotePounds, List.flatMap_singleton, if_neg hd] at h
        exact .inr (.inl h)
    · exact (ih h).imp_right .inr

/-! ### Nested braces -/

/-- Outside of its quotes, which are all closed, a text has `n` pairs of nested braces. -/
structure Balanced (n : Nat) (s : List Char) : Prop where
  closed_quotes : endsQuoted false s = false
  nested : ∀ p, p <+: s → (bare false p).count '\x7d' ≤ (bare false p).count '\x7b'
  opening : (bare false s).count '\x7b' = n
  closing : (bare false s).count '\x7d' = n

namespace Balanced

variable {m n : Nat} {s t : List Char}

theorem of_not_isBrace (hend : endsQuoted false s = false)
    (hbare : ∀ c ∈ bare false s, isBrace c = false) : Balanced 0 s := by
  have hcount : ∀ c, isBrace c = true → (bare false s).count c = 0 := by
    intro c hc
    apply List.count_eq_zero_of_not_mem
    intro hmem
    rw [hbare c hmem] at hc
    cases hc
  refine ⟨hend, ?_, hcount _ (by decide), hcount _ (by decide)⟩
  rintro p ⟨q, rfl⟩
  have hzero := hcount '\x7d' (by decide)
  rw [bare_append, List.count_append] at hzero
  omega

theorem cast (h : Balanced m s) (hn : m = n) : Balanced n s := hn ▸ h

theorem plain (h : IsPlain s) : Balanced 0 s := by
  apply of_not_isBrace (endsQuoted_of_not_mem h.not_mem)
  rw [bare_of_not_mem h.not_mem]
  exact fun c hc => (h c hc).2

theorem append (hs : Balanced m s) (ht : Balanced n t) : Balanced (m + n) (s ++ t) := by
  have hbare : ∀ u, bare false (s ++ u) = bare false s ++ bare false u := by
    intro u
    rw [bare_append, hs.closed_quotes]
  refine ⟨?_, ?_, ?_, ?_⟩
  · rw [endsQuoted_append, hs.closed_quotes, ht.closed_quotes]
  · intro p hp
    rcases List.prefix_or_prefix_of_prefix hp (List.prefix_append s t) with hps | ⟨u, rfl⟩
    · exact hs.nested p hps
    · have hu := ht.nested u ((List.prefix_append_right_inj s).1 hp)
      rw [hbare, List.count_append, List.count_append, hs.opening, hs.closing]
      omega
  · rw [hbare, List.count_append, hs.opening, ht.opening]
  · rw [hbare, List.count_append, hs.closing, ht.closing]

/-- A pair of braces around a balanced text. -/
theorem enclose (h : Balanced n s) : Balanced (n + 1) ('\x7b' :: s ++ ['\x7d']) := by
  have hopen : ∀ u, bare false ('\x7b' :: u) = '\x7b' :: bare false u := fun u => rfl
  have hclose : bare false (s ++ ['\x7d']) = bare false s ++ ['\x7d'] := by
    rw [bare_append, h.closed_quotes]
    rfl
  refine ⟨?_, ?_, ?_, ?_⟩
  · rw [List.cons_append, endsQuoted, if_neg (by decide), endsQuoted_append, h.closed_quotes]
    rfl
  · intro p hp
    rcases List.prefix_cons_iff.1 hp with rfl | ⟨u, rfl, hu⟩
    · exact Nat.le_refl _
    · rw [hopen, List.count_cons_of_ne (by decide), List.count_cons_self]
      rcases List.prefix_concat_iff.1 hu with rfl | hu
      · rw [hclose, List.count_append, List.count_append, h.opening, h.closing]
        simp
      · have := h.nested u hu
        omega
  · rw [List.cons_append, hopen, hclose, List.count_cons_self, List.count_append, h.opening]
    rfl
  · rw [List.cons_append, hopen, hclose, List.count_cons_of_ne (by decide), List.count_append,
      h.closing]
    rfl

/-- Taking plain text off both ends changes nothing. -/
theorem of_append {u v : List Char} (h : Balanced n (u ++ s ++ v)) (hu : IsPlain u)
    (hv : IsPlain v) : Balanced n s := by
  have hend : endsQuoted false s = false := by
    have hend := h.closed_quotes
    rwa [endsQuoted_append, endsQuoted_append, endsQuoted_of_not_mem hu.not_mem,
      endsQuoted_of_not_mem hv.not_mem] at hend
  have hbare : ∀ p, bare false (u ++ p) = u ++ bare false p := by
    intro p
    rw [bare_append, bare_of_not_mem hu.not_mem, endsQuoted_of_not_mem hu.not_mem]
    rfl
  have hwhole : bare false (u ++ s ++ v) = u ++ bare false s ++ v := by
    rw [bare_append, hbare, endsQuoted_append, endsQuoted_of_not_mem hu.not_mem, hend,
      bare_of_not_mem hv.not_mem]
    rfl
  have hzero : ∀ c, isBrace c = true → u.count c = 0 ∧ v.count c = 0 := by
    intro c hc
    refine ⟨List.count_eq_zero_of_not_mem fun hmem => ?_,
      List.count_eq_zero_of_not_mem fun hmem => ?_⟩
    · rw [(hu c hmem).2] at hc
      cases hc
    · rw [(hv c hmem).2] at hc
      cases hc
  obtain ⟨huopen, hvopen⟩ := hzero '\x7b' (by decide)
  obtain ⟨huclose, hvclose⟩ := hzero '\x7d' (by decide)
  refine ⟨hend, ?_, ?_, ?_⟩
  · intro p hp
    have hprefix : u ++ p <+: u ++ s ++ v :=
      ((List.prefix_append_right_inj u).2 hp).trans (List.prefix_append _ _)
    have hnested := h.nested _ hprefix
    rw [hbare, List.count_append, List.count_append] at hnested
    omega
  · have hcount := h.opening
    rw [hwhole, List.count_append, List.count_append] at hcount
    omega
  · have hcount := h.closing
    rw [hwhole, List.count_append, List.count_append] at hcount
    omega

end Balanced

/-- The written form of a text without apostrophes has no braces outside of its quotes. -/
theorem balanced_escape (inPlural : Bool) {t : List Char} (h : '\'' ∉ t) :
    Balanced 0 (escape inPlural t) := by
  have hbraces : endsQuoted false (quoteBraces t) = false ∧
      ∀ c ∈ bare false (quoteBraces t), isBrace c = false := by
    rcases free_or_spans t with hfree | ⟨before, span, after, hspans⟩
    · rw [quoteBraces_of_no_brace hfree, endsQuoted_of_not_mem h, bare_of_not_mem h]
      exact ⟨rfl, hfree⟩
    · have hnot : ∀ u : List Char, (∀ c ∈ u, c ∈ t) → '\'' ∉ u := fun u hu hmem => h (hu _ hmem)
      have hbefore : '\'' ∉ before := hnot _ fun c hc => by rw [hspans.split]; simp [hc]
      have hspan : '\'' ∉ span := hnot _ fun c hc => by rw [hspans.split]; simp [hc]
      have hafter : '\'' ∉ after := hnot _ fun c hc => by rw [hspans.split]; simp [hc]
      rw [hspans.quoteBraces_eq, List.append_assoc, endsQuoted_append, bare_append,
        endsQuoted_of_not_mem hbefore, bare_of_not_mem hbefore, endsQuoted_quoted hspan,
        bare_quoted hspan, endsQuoted_of_not_mem hafter, bare_of_not_mem hafter]
      exact ⟨rfl, free_append hspans.before_free hspans.after_free⟩
  obtain ⟨hend, hbare⟩ := hbraces
  cases inPlural with
  | false => exact .of_not_isBrace hend hbare
  | true =>
    refine .of_not_isBrace ?_ fun c hc => ?_
    · exact (endsQuoted_quotePounds false _).trans hend
    · rcases mem_bare_quotePounds hc with rfl | hc
      · rfl
      · exact hbare c hc

end Quoting

end MessageFormat
