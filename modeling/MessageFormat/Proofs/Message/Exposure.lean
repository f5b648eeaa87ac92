import Mathlib.Data.List.Infix
import MessageFormat.Proofs.Message.Bare

/-!
# What gets out of quotes

A literal is quoted from its first brace to its last one. Something in it is outside of the quotes
if it stands before the first brace or after the last one, or if apostrophes of the literal itself
end the quotes behind a brace before it and begin them again in front of a brace after it. There is
no third way: a text that has a mark outside of all quotes, and is the written form of a literal,
is that of one that exposes the mark.
-/

namespace MessageFormat

namespace Quoting

/-- Whether a text lets a mark in it out of the quotes around its braces. -/
def Exposes (mark t : List Char) : Prop :=
  mark <:+: (braceSpan t).1 ∨ mark <:+: (braceSpan t).2.2 ∨
    ∃ a b w, isBrace a = true ∧ isBrace b = true ∧ mark <:+: w ∧
      a :: '\'' :: w ++ ['\'', b] <:+: (braceSpan t).2.1

/-- A mark among the braces does not get out with less than two apostrophes. -/
theorem not_exposes_of_count {mark t : List Char} (hbefore : ¬ mark <:+: (braceSpan t).1)
    (hafter : ¬ mark <:+: (braceSpan t).2.2) (hspan : (braceSpan t).2.1.count '\'' < 2) :
    ¬ Exposes mark t := by
  rintro (h | h | ⟨a, b, w, -, -, -, h⟩)
  · exact hbefore h
  · exact hafter h
  · have hcount := h.sublist.count_le '\''
    simp only [List.cons_append, List.count_cons, List.count_append, List.count_nil,
      beq_self_eq_true, if_true] at hcount
    omega

/-! ### Where a text begins to be live -/

/-- Before its first brace a text has no apostrophe but the one that puts this brace in quotes. -/
inductive Starts : List Char → Prop where
  | plain {s : List Char} (h : IsPlain s) : Starts s
  | live {s : List Char} {b : Char} (h : IsPlain s) (hb : isBrace b = true) (rest : List Char) :
    Starts (s ++ b :: rest)
  | quoted {s span : List Char} (h : IsPlain s)
    (hhead : ∃ a, span.head? = some a ∧ isBrace a = true)
    (hlast : ∃ b, span.getLast? = some b ∧ isBrace b = true) (rest : List Char) :
    Starts (s ++ '\'' :: span ++ '\'' :: rest)

variable {mark s t u v x y : List Char}

theorem Starts.append (hs : Starts s) (ht : Starts t) : Starts (s ++ t) := by
  cases hs with
  | plain hs =>
    cases ht with
    | plain ht => exact .plain (hs.append ht)
    | live ht hb rest =>
      rw [← List.append_assoc]
      exact .live (hs.append ht) hb rest
    | quoted ht hhead hlast rest =>
      rw [← List.append_assoc, ← List.append_assoc]
      exact .quoted (hs.append ht) hhead hlast rest
  | live hs hb rest =>
    rw [List.append_assoc, List.cons_append]
    exact .live hs hb (rest ++ t)
  | quoted hs hhead hlast rest =>
    rw [List.append_assoc, List.cons_append]
    exact .quoted hs hhead hlast (rest ++ t)

theorem starts_reverse_append_closing (s : List Char) : Starts (s ++ ['\x7d']).reverse := by
  rw [List.reverse_append]
  exact .live (s := []) (by decide) rfl s.reverse

/-- What `Starts` says, from both ends. -/
structure Framed (s : List Char) : Prop where
  start : Starts s
  finish : Starts s.reverse

namespace Framed

theorem plain (h : IsPlain s) : Framed s :=
  ⟨.plain h, .plain h.reverse⟩

theorem append (hs : Framed s) (ht : Framed t) : Framed (s ++ t) := by
  refine ⟨hs.start.append ht.start, ?_⟩
  rw [List.reverse_append]
  exact ht.finish.append hs.finish

theorem braces (s : List Char) : Framed ('\x7b' :: s ++ ['\x7d']) :=
  ⟨.live (s := []) (by decide) rfl _, starts_reverse_append_closing ('\x7b' :: s)⟩

end Framed

theorem framed_quoteBraces (hquote : '\'' ∉ t) : Framed (quoteBraces t) := by
  rcases free_or_spans t with hfree | ⟨before, span, after, h⟩
  · rw [quoteBraces_of_no_brace hfree]
    exact .plain fun c hc => ⟨fun heq => hquote (heq ▸ hc), hfree c hc⟩
  · have hmem : ∀ c ∈ before ++ after, c ≠ '\'' := by
      rintro c hc rfl
      apply hquote
      rw [h.split]
      simp only [List.mem_append] at hc ⊢
      exact hc.elim (fun hc => .inl (.inl hc)) .inr
    have hbefore : IsPlain before := fun c hc => ⟨hmem c (by simp [hc]), h.before_free c hc⟩
    have hafter : IsPlain after := fun c hc => ⟨hmem c (by simp [hc]), h.after_free c hc⟩
    have hreverse : (quoteBraces t).reverse =
        after.reverse ++ '\'' :: span.reverse ++ '\'' :: before.reverse := by
      simp [h.quoteBraces_eq]
    constructor
    · rw [h.quoteBraces_eq]
      exact .quoted hbefore h.head h.last after
    · rw [hreverse]
      exact .quoted hafter.reverse h.reverse.head h.reverse.last before.reverse

/-- Two ways to cut a text in front of its first character with a property are the same. -/
theorem eq_of_append_cons {p : Char → Bool} {s t u v : List Char} {a b : Char}
    (h : s ++ a :: t = u ++ b :: v) (hs : ∀ d ∈ s, p d = false) (ha : p a = true)
    (hu : ∀ d ∈ u, p d = false) (hb : p b = true) : s = u := by
  have htake : ∀ {w x : List Char} {e : Char}, (∀ d ∈ w, p d = false) → p e = true →
      (w ++ e :: x).takeWhile (!p ·) = w := by
    intro w x e hw he
    rw [List.takeWhile_append_of_pos (by simpa using hw), List.takeWhile_cons_of_neg (by simp [he]),
      List.append_nil]
  rw [← htake hs ha, h, htake hu hb]

/-- In a text that is quoted once an apostrophe stands right before the first brace. -/
theorem Spans.append_quote_eq {span rest : List Char} {b : Char} (hs : Spans t u span v)
    (h : u ++ '\'' :: span ++ '\'' :: v = s ++ b :: rest) (hfree : ∀ c ∈ s, isBrace c = false)
    (hb : isBrace b = true) : u ++ ['\''] = s := by
  obtain ⟨a, ha, habrace⟩ := hs.head
  obtain ⟨span, rfl⟩ := List.head?_eq_some_iff.1 ha
  have hcut : (u ++ ['\'']) ++ a :: (span ++ '\'' :: v) = s ++ b :: rest := by
    rw [← h]
    simp
  exact eq_of_append_cons hcut (free_append hs.before_free (by simp [isBrace])) habrace hfree hb

/-- A mark that a text quoted once has behind `x` either precedes the quotes, or `x` begins with
the same quotes. -/
theorem Starts.infix_or_quoted {span : List Char} (hx : Starts x) (hs : Spans t u span v)
    (hmark : IsPlain mark ∨ ∃ b, isBrace b = true ∧ mark = [b])
    (h : u ++ '\'' :: span ++ '\'' :: v = x ++ mark ++ y) :
    mark <:+: u ∨ ∃ piece rest, x = u ++ '\'' :: piece ++ '\'' :: rest ∧
      ∃ b, piece.getLast? = some b ∧ isBrace b = true := by
  have hclash : ∀ {s}, IsPlain s → u ++ ['\''] ≠ s := by
    rintro s hplain rfl
    exact hplain.not_mem (by simp)
  cases hx with
  | plain hx =>
    rcases hmark with hmark | ⟨b, hb, rfl⟩
    · -- without apostrophes `x` and the mark end before the quotes begin
      have hprefix : x ++ mark <+: u ++ '\'' :: span ++ '\'' :: v := ⟨y, h.symm⟩
      have hquote : u ++ ['\''] <+: u ++ '\'' :: span ++ '\'' :: v := ⟨span ++ '\'' :: v, by simp⟩
      have hplain := hx.append hmark
      rcases List.prefix_or_prefix_of_prefix hquote hprefix with hlong | hshort
      · exact absurd (hlong.subset (by simp)) hplain.not_mem
      · rcases List.prefix_concat_iff.1 hshort with heq | hu
        · exact absurd heq.symm (hclash hplain)
        · exact .inl ((List.suffix_append x mark).isInfix.trans hu.isInfix)
    · have hcut : u ++ '\'' :: span ++ '\'' :: v = x ++ b :: y := by rw [h]; simp
      exact absurd (hs.append_quote_eq hcut (fun c hc => (hx c hc).2) hb) (hclash hx)
  | @live before b hx hb rest =>
    have hcut : u ++ '\'' :: span ++ '\'' :: v = before ++ b :: (rest ++ mark ++ y) := by
      rw [h]
      simp
    exact absurd (hs.append_quote_eq hcut (fun c hc => (hx c hc).2) hb) (hclash hx)
  | @quoted before piece hx hhead hlast rest =>
    obtain ⟨a, ha, habrace⟩ := hhead
    obtain ⟨piece', rfl⟩ := List.head?_eq_some_iff.1 ha
    have hcut : u ++ '\'' :: span ++ '\'' :: v =
        (before ++ ['\'']) ++ a :: (piece' ++ '\'' :: rest ++ mark ++ y) := by
      rw [h]
      simp
    have hfree : ∀ c ∈ before ++ ['\''], isBrace c = false :=
      free_append (fun c hc => (hx c hc).2) (by simp [isBrace])
    have hbefore := List.append_cancel_right (hs.append_quote_eq hcut hfree habrace)
    exact .inr ⟨a :: piece', rest, by rw [hbefore], hlast⟩

/-! ### Live marks -/

/-- A text with a live mark in it. -/
def Shows (mark s : List Char) : Prop :=
  ∃ x y, s = x ++ mark ++ y ∧ Starts x ∧ Starts y.reverse

theorem Shows.append_left (hs : Starts s) (h : Shows mark t) : Shows mark (s ++ t) := by
  obtain ⟨x, y, rfl, hx, hy⟩ := h
  exact ⟨s ++ x, y, by simp, hs.append hx, hy⟩

theorem Shows.append_right (h : Shows mark s) (ht : Starts t.reverse) : Shows mark (s ++ t) := by
  obtain ⟨x, y, rfl, hx, hy⟩ := h
  refine ⟨x, y ++ t, by simp, hx, ?_⟩
  rw [List.reverse_append]
  exact ht.append hy

theorem shows_opening (s : List Char) : Shows ['\x7b'] ('\x7b' :: s ++ ['\x7d']) :=
  ⟨[], s ++ ['\x7d'], rfl, .plain (by decide), starts_reverse_append_closing s⟩

/-- Whatever stands in live braces is live. -/
theorem shows_of_infix (h : mark <:+: s) : Shows mark ('\x7b' :: s ++ ['\x7d']) := by
  obtain ⟨p, q, rfl⟩ := h
  exact ⟨'\x7b' :: p, q ++ ['\x7d'], by simp, .live (s := []) (by decide) rfl p,
    starts_reverse_append_closing q⟩

/-- A mark that is live in a text quoted once is exposed by what is quoted. -/
theorem Shows.exposes {before span after : List Char} (hs : Spans t before span after)
    (hu : u <:+ before) (hv : v <+: after)
    (hmark : IsPlain mark ∨ ∃ b, isBrace b = true ∧ mark = [b])
    (h : Shows mark (u ++ '\'' :: span ++ '\'' :: v)) : Exposes mark t := by
  obtain ⟨x, y, heq, hx, hy⟩ := h
  have hspans : Spans (u ++ span ++ v) u span v :=
    ⟨rfl, fun c hc => hs.before_free c (hu.subset hc), fun c hc => hs.after_free c (hv.subset hc),
      hs.head, hs.last⟩
  have hreverse : v.reverse ++ '\'' :: span.reverse ++ '\'' :: u.reverse =
      y.reverse ++ mark.reverse ++ x.reverse := by
    simpa using congrArg List.reverse heq
  have hmark' : IsPlain mark.reverse ∨ ∃ b, isBrace b = true ∧ mark.reverse = [b] :=
    hmark.imp IsPlain.reverse fun ⟨b, hb, hmark⟩ => ⟨b, hb, by rw [hmark]; rfl⟩
  rw [Exposes, hs.braceSpan_eq]
  rcases hx.infix_or_quoted hspans hmark heq with hbefore | ⟨piece, rest, rfl, a, ha, habrace⟩
  · exact .inl (hbefore.trans hu.isInfix)
  · rcases hy.infix_or_quoted hspans.reverse hmark' hreverse with
      hafter | ⟨piece', rest', hy, b, hb, hbbrace⟩
    · exact .inr (.inl ((List.reverse_infix.1 hafter).trans hv.isInfix))
    · obtain ⟨piece, rfl⟩ := List.getLast?_eq_some_iff.1 ha
      obtain ⟨piece', rfl⟩ := List.getLast?_eq_some_iff.1 hb
      rw [List.reverse_eq_iff] at hy
      rw [hy] at heq
      -- the text begins with `u` and ends with `v` on both sides
      have hspan : span ++ '\'' :: v = piece ++ (a :: '\'' :: (rest ++ mark ++ rest'.reverse) ++
          ['\'', b]) ++ piece'.reverse ++ '\'' :: v := by
        simpa using heq
      have hspan := List.append_cancel_right hspan
      refine .inr (.inr ⟨a, b, _, habrace, hbbrace, ⟨rest, rest'.reverse, rfl⟩, ?_⟩)
      rw [hspan]
      exact ⟨piece, piece'.reverse, rfl⟩

end Quoting

end MessageFormat
