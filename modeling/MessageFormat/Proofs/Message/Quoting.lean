import Mathlib.Data.List.TakeWhile
import MessageFormat.Message.Quoting

/-!
# The span of braces in a literal

A literal without braces is written as it is. Any other one falls into what precedes its first
brace, the span that runs from there to its last one, and the rest; only the span has braces.
-/

namespace MessageFormat.Quoting

/-- A text cut before its first brace and after its last one. -/
structure Spans (t before span after : List Char) : Prop where
  split : t = before ++ span ++ after
  before_free : ∀ c ∈ before, isBrace c = false
  after_free : ∀ c ∈ after, isBrace c = false
  head : ∃ a, span.head? = some a ∧ isBrace a = true
  last : ∃ b, span.getLast? = some b ∧ isBrace b = true

theorem Spans.ne_nil {t before span after : List Char} (h : Spans t before span after) :
    span ≠ [] := by
  obtain ⟨a, ha, _⟩ := h.head
  rintro rfl
  simp at ha

theorem not_isBrace_of_mem_takeWhile {t : List Char} {c : Char}
    (h : c ∈ t.takeWhile (!isBrace ·)) : isBrace c = false := by
  simpa using List.mem_takeWhile_imp h

/-- What is left from the first character with a property on begins with it. -/
theorem exists_head_dropWhile {p : Char → Bool} {t : List Char} (h : ∃ c ∈ t, p c = true) :
    ∃ a, (t.dropWhile (!p ·)).head? = some a ∧ p a = true := by
  obtain ⟨c, hc, hp⟩ := h
  have hne : t.dropWhile (!p ·) ≠ [] := by
    intro hnil
    have := List.dropWhile_eq_nil_iff.1 hnil c hc
    simp [hp] at this
  exact ⟨_, List.head?_eq_some_head hne, by simpa using List.head_dropWhile_not (!p ·) hne⟩

theorem braceSpan_spans {t : List Char} (h : ∃ c ∈ t, isBrace c = true) :
    Spans t (braceSpan t).1 (braceSpan t).2.1 (braceSpan t).2.2 := by
  obtain ⟨a, ha, habrace⟩ := exists_head_dropWhile h
  let backwards := (t.dropWhile (!isBrace ·)).reverse
  have hlast : ∃ b, (backwards.dropWhile (!isBrace ·)).head? = some b ∧ isBrace b = true := by
    apply exists_head_dropWhile
    exact ⟨a, List.mem_reverse.2 (List.mem_of_head? ha), habrace⟩
  obtain ⟨b, hb, hbbrace⟩ := hlast
  refine ⟨(braceSpan_append t).symm, fun c hc => not_isBrace_of_mem_takeWhile hc, ?_, ?_, ?_⟩
  · intro c hc
    exact not_isBrace_of_mem_takeWhile (List.mem_reverse.1 hc)
  · refine ⟨a, ?_, habrace⟩
    -- the span and what comes after it are the rest from the first brace on
    have hrest : (braceSpan t).2.1 ++ (braceSpan t).2.2 = t.dropWhile (!isBrace ·) := by
      simp only [braceSpan]
      rw [← List.reverse_append, List.takeWhile_append_dropWhile, List.reverse_reverse]
    have hne : (braceSpan t).2.1 ≠ [] := by
      intro hnil
      simp only [braceSpan, List.reverse_eq_nil_iff] at hnil
      rw [show backwards.dropWhile (!isBrace ·) = [] from hnil] at hb
      cases hb
    obtain ⟨d, u, hspan⟩ := List.exists_cons_of_ne_nil hne
    rw [← hrest, hspan] at ha
    rw [hspan]
    exact ha
  · refine ⟨b, ?_, hbbrace⟩
    rw [show (braceSpan t).2.1 = (backwards.dropWhile (!isBrace ·)).reverse from rfl,
      List.getLast?_reverse]
    exact hb

theorem Spans.braceSpan_eq {t before span after : List Char} (h : Spans t before span after) :
    braceSpan t = (before, span, after) := by
  obtain ⟨a, ha, habrace⟩ := h.head
  obtain ⟨b, hb, hbbrace⟩ := h.last
  obtain ⟨u, hu⟩ := List.head?_eq_some_iff.1 ha
  obtain ⟨v, hv⟩ := List.getLast?_eq_some_iff.1 hb
  have hbefore : ∀ c ∈ before, (!isBrace c) = true := by
    intro c hc
    simp [h.before_free c hc]
  have hafter : ∀ c ∈ after.reverse, (!isBrace c) = true := by
    intro c hc
    simp [h.after_free c (List.mem_reverse.1 hc)]
  have htake : t.takeWhile (!isBrace ·) = before := by
    rw [h.split, List.append_assoc, List.takeWhile_append_of_pos hbefore, hu, List.cons_append,
      List.takeWhile_cons_of_neg (by simp [habrace]), List.append_nil]
  have hdrop : (t.dropWhile (!isBrace ·)).reverse = after.reverse ++ span.reverse := by
    rw [h.split, List.append_assoc, List.dropWhile_append_of_pos hbefore, hu, List.cons_append,
      List.dropWhile_cons_of_neg (by simp [habrace]), ← List.cons_append, List.reverse_append]
  have hspan : span.reverse = b :: v.reverse := by
    rw [hv, List.reverse_concat]
  simp only [braceSpan, htake, hdrop, List.takeWhile_append_of_pos hafter,
    List.dropWhile_append_of_pos hafter]
  rw [hspan, List.takeWhile_cons_of_neg (by simp [hbbrace]),
    List.dropWhile_cons_of_neg (by simp [hbbrace]), ← hspan, List.append_nil, List.reverse_reverse,
    List.reverse_reverse]

theorem Spans.quoteBraces_eq {t before span after : List Char} (h : Spans t before span after) :
    quoteBraces t = before ++ '\'' :: span ++ '\'' :: after := by
  obtain ⟨c, u, hspan⟩ := List.exists_cons_of_ne_nil h.ne_nil
  rw [quoteBraces, h.braceSpan_eq, hspan]

/-- Either nothing is quoted or the span of braces is. -/
theorem free_or_spans (t : List Char) :
    (∀ c ∈ t, isBrace c = false) ∨ ∃ before span after, Spans t before span after := by
  by_cases h : ∃ c ∈ t, isBrace c = true
  · exact .inr ⟨_, _, _, braceSpan_spans h⟩
  · exact .inl fun c hc => Bool.eq_false_iff.2 fun hbrace => h ⟨c, hc, hbrace⟩

theorem Spans.append {s t before span after : List Char} (h : Spans s before span after)
    (ht : ∀ c ∈ t, isBrace c = false) : Spans (s ++ t) before span (after ++ t) where
  split := by rw [h.split, List.append_assoc]
  before_free := h.before_free
  after_free c hc := (List.mem_append.1 hc).elim (h.after_free c) (ht c)
  head := h.head
  last := h.last

theorem Spans.reverse {t before span after : List Char} (h : Spans t before span after) :
    Spans t.reverse after.reverse span.reverse before.reverse where
  split := by simp [h.split]
  before_free c hc := h.after_free c (List.mem_reverse.1 hc)
  after_free c hc := h.before_free c (List.mem_reverse.1 hc)
  head := by simpa using h.last
  last := by simpa using h.head

theorem span_of_free {t : List Char} (h : ∀ c ∈ t, isBrace c = false) : (braceSpan t).2.1 = [] := by
  have hdrop : t.dropWhile (!isBrace ·) = [] := by
    rw [List.dropWhile_eq_nil_iff]
    intro c hc
    simp [h c hc]
  simp [braceSpan, hdrop]

theorem free_append {s t : List Char} (hs : ∀ c ∈ s, isBrace c = false)
    (ht : ∀ c ∈ t, isBrace c = false) : ∀ c ∈ s ++ t, isBrace c = false :=
  fun c hc => (List.mem_append.1 hc).elim (hs c) (ht c)

/-- What comes after the last brace has no part in the span. -/
theorem span_append {s t : List Char} (ht : ∀ c ∈ t, isBrace c = false) :
    (braceSpan (s ++ t)).2.1 = (braceSpan s).2.1 := by
  rcases free_or_spans s with hs | ⟨before, span, after, h⟩
  · rw [span_of_free hs, span_of_free (free_append hs ht)]
  · rw [h.braceSpan_eq, (h.append ht).braceSpan_eq]

theorem quoteBraces_append {s t : List Char} (ht : ∀ c ∈ t, isBrace c = false) :
    quoteBraces (s ++ t) = quoteBraces s ++ t := by
  rcases free_or_spans s with hs | ⟨before, span, after, h⟩
  · rw [quoteBraces_of_no_brace hs, quoteBraces_of_no_brace (free_append hs ht)]
  · rw [h.quoteBraces_eq, (h.append ht).quoteBraces_eq, List.append_assoc _ ('\'' :: after),
      List.cons_append]

theorem quotePounds_of_not_mem {t : List Char} (h : '#' ∉ t) : quotePounds t = t := by
  induction t with
  | nil => rfl
  | cons c t ih =>
    rw [List.mem_cons, not_or] at h
    rw [← List.singleton_append, quotePounds_append, ih h.2]
    simp [quotePounds, Ne.symm h.1]

theorem escape_append {inPlural : Bool} {s t : List Char} (ht : ∀ c ∈ t, isBrace c = false)
    (hpound : '#' ∉ t) : escape inPlural (s ++ t) = escape inPlural s ++ t := by
  cases inPlural with
  | false => exact quoteBraces_append ht
  | true =>
    simp only [escape, if_true, quoteBraces_append ht, quotePounds_append,
      quotePounds_of_not_mem hpound]

/-- What holds of the characters of all parts and of the separator holds of the joined text. -/
theorem forall_mem_intercalate {P : Char → Prop} {sep : List Char} {parts : List (List Char)}
    (hsep : ∀ c ∈ sep, P c) (hparts : ∀ part ∈ parts, ∀ c ∈ part, P c) :
    ∀ c ∈ List.intercalate sep parts, P c := by
  induction parts with
  | nil => simp
  | cons part parts ih =>
    have hpart := hparts part List.mem_cons_self
    have hrest := ih fun p hp => hparts p (List.mem_cons_of_mem part hp)
    cases parts with
    | nil => simpa using hpart
    | cons next parts =>
      intro c hc
      rw [List.intercalate_cons_cons, List.mem_append, List.mem_append] at hc
      rcases hc with (hc | hc) | hc
      · exact hpart c hc
      · exact hsep c hc
      · exact hrest c hc

/-! ### The ends of quoted text -/

theorem head?_quoteBraces (t : List Char) :
    (quoteBraces t).head? = some '\'' ∨ (quoteBraces t).head? = t.head? := by
  rcases free_or_spans t with hfree | ⟨before, span, after, h⟩
  · exact .inr (congrArg List.head? (quoteBraces_of_no_brace hfree))
  · rw [h.quoteBraces_eq, h.split]
    cases before with
    | nil => exact .inl rfl
    | cons c before => exact .inr rfl

theorem getLast?_quoteBraces (t : List Char) :
    (quoteBraces t).getLast? = some '\'' ∨ (quoteBraces t).getLast? = t.getLast? := by
  rcases free_or_spans t with hfree | ⟨before, span, after, h⟩
  · exact .inr (congrArg List.getLast? (quoteBraces_of_no_brace hfree))
  · rw [h.quoteBraces_eq, h.split]
    rcases List.eq_nil_or_concat after with rfl | ⟨init, c, rfl⟩
    · exact .inl List.getLast?_concat
    · right
      rw [List.concat_eq_append, ← List.cons_append, ← List.append_assoc, ← List.append_assoc,
        List.getLast?_concat, List.getLast?_concat]

end MessageFormat.Quoting
