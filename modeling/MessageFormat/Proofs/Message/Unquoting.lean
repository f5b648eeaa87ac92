import Mathlib.Data.List.Infix
import MessageFormat.Proofs.Message.Bare

/-!
# Reading quoted text back

What a reader makes of the written form of a text: two apostrophes in a row stand for one, a single
one opens quotes only in front of a live character, and it closes them wherever it stands. Outside
of plurals every text without apostrophes is read back. In a plural the pound signs have quotes of
their own, which must neither touch other quotes nor stand inside of them.
-/

namespace MessageFormat.Quoting

/-- A character that is live outside of quotes; the pound sign is so in a plural. -/
def isLive (inPlural : Bool) (c : Char) : Bool :=
  isBrace c || (inPlural && c = '#')

/-- What a written text stands for, from inside or outside of quotes on, or nothing if there is a
live character outside of them. Quotes that are left open end with the text. -/
def unquote (inPlural : Bool) (quoted : Bool) : List Char → Option (List Char)
  | [] => some []
  | '\'' :: '\'' :: s => (unquote inPlural quoted s).map ('\'' :: ·)
  | '\'' :: s =>
    if quoted then unquote inPlural false s
    else if s.head?.any (isLive inPlural) then unquote inPlural true s
    else (unquote inPlural false s).map ('\'' :: ·)
  | c :: s =>
    if !quoted && isLive inPlural c then none else (unquote inPlural quoted s).map (c :: ·)

/-- The text that a reader takes a written one for. -/
def readBack (inPlural : Bool) (text : String) : Option String :=
  (unquote inPlural false text.toList).map String.ofList

/-- No pound sign touches another one, and none stands between the first brace and the last one or
right beside them. -/
structure PoundsClear (t : List Char) : Prop where
  apart : ¬ ['#', '#'] <:+: t
  outside : ∀ {before span after}, Spans t before span after →
    '#' ∉ span ∧ before.getLast? ≠ some '#' ∧ after.head? ≠ some '#'

instance (t : List Char) : Decidable (PoundsClear t) :=
  decidable_of_iff (¬ ['#', '#'] <:+: t ∧ ((braceSpan t).2.1 ≠ [] → '#' ∉ (braceSpan t).2.1 ∧
      (braceSpan t).1.getLast? ≠ some '#' ∧ (braceSpan t).2.2.head? ≠ some '#')) <| by
    constructor
    · rintro ⟨hapart, hspan⟩
      refine ⟨hapart, fun hspans => ?_⟩
      rw [hspans.braceSpan_eq] at hspan
      exact hspan hspans.ne_nil
    · intro h
      refine ⟨h.apart, fun hne => ?_⟩
      rcases free_or_spans t with hfree | ⟨before, span, after, hspans⟩
      · exact absurd (span_of_free hfree) hne
      · rw [hspans.braceSpan_eq]
        exact h.outside hspans

/-! ### Steps of the reader -/

variable {inPlural quoted : Bool} {c : Char} {s t rest before span after : List Char}

theorem unquote_apostrophe (h : s.head? ≠ some '\'') : unquote inPlural quoted ('\'' :: s) =
    if quoted then unquote inPlural false s
    else if s.head?.any (isLive inPlural) then unquote inPlural true s
    else (unquote inPlural false s).map ('\'' :: ·) := by
  rw [unquote]
  rintro u rfl
  exact h rfl

theorem unquote_cons (h : c ≠ '\'') : unquote inPlural quoted (c :: s) =
    if !quoted && isLive inPlural c then none else (unquote inPlural quoted s).map (c :: ·) := by
  rw [unquote]
  · rintro u rfl
    exact absurd rfl h
  · exact h

/-- Text without apostrophes stands for itself inside of quotes, and outside of them unless a
character of it is live. -/
theorem unquote_append (h : ∀ c ∈ s, c ≠ '\'' ∧ (quoted = false → isLive inPlural c = false)) :
    unquote inPlural quoted (s ++ rest) = (unquote inPlural quoted rest).map (s ++ ·) := by
  induction s with
  | nil => simp
  | cons c s ih =>
    obtain ⟨hquote, hlive⟩ := h c List.mem_cons_self
    have hnot : ¬ (!quoted && isLive inPlural c) = true := by
      cases quoted
      · simp [hlive rfl]
      · exact Bool.false_ne_true
    rw [List.cons_append, unquote_cons hquote, if_neg hnot,
      ih fun d hd => h d (List.mem_cons_of_mem c hd), Option.map_map]
    rfl

/-- Quotes around a text that begins with a live character are taken off, unless another apostrophe
follows them. -/
theorem unquote_quoted (hhead : s.head?.any (isLive inPlural) = true) (hquote : '\'' ∉ s)
    (hrest : rest.head? ≠ some '\'') : unquote inPlural false ('\'' :: s ++ '\'' :: rest) =
      (unquote inPlural false rest).map (s ++ ·) := by
  obtain ⟨c, u, rfl⟩ : ∃ c u, s = c :: u := by
    cases s with
    | nil => cases hhead
    | cons c u => exact ⟨c, u, rfl⟩
  have hopen : (c :: u ++ '\'' :: rest).head? ≠ some '\'' := by
    intro h
    exact hquote (Option.some.inj h ▸ List.mem_cons_self)
  have hinside : ∀ d ∈ c :: u, d ≠ '\'' ∧ (true = false → isLive inPlural d = false) :=
    fun d hd => ⟨fun heq => hquote (heq ▸ hd), nofun⟩
  have hlive : (c :: u ++ '\'' :: rest).head?.any (isLive inPlural) = true := hhead
  rw [List.cons_append, unquote_apostrophe hopen, if_neg Bool.false_ne_true, if_pos hlive,
    unquote_append hinside, unquote_apostrophe hrest, if_pos rfl]

/-! ### Doubled apostrophes -/

theorem pair_infix_cons {a b : Char} :
    [a, b] <:+: c :: s ↔ a = c ∧ s.head? = some b ∨ [a, b] <:+: s := by
  rw [List.infix_cons_iff, List.cons_prefix_cons]
  cases s with
  | nil => simp
  | cons d s => simp [eq_comm]

theorem pair_infix_append {a b : Char} : [a, b] <:+: s ++ t ↔
    [a, b] <:+: s ∨ [a, b] <:+: t ∨ s.getLast? = some a ∧ t.head? = some b := by
  constructor
  · intro h
    rcases List.infix_append_iff.1 h with h | h | ⟨u, v, heq, hu, hv⟩
    · exact .inl h
    · exact .inr (.inl h)
    · rcases u with _ | ⟨x, _ | ⟨y, u⟩⟩
      · cases heq
        exact .inr (.inl hv.isInfix)
      · cases heq
        obtain ⟨s, rfl⟩ := hu
        obtain ⟨t, rfl⟩ := hv
        exact .inr (.inr ⟨List.getLast?_concat, rfl⟩)
      · obtain ⟨rfl, rfl, hnil⟩ : a = x ∧ b = y ∧ u ++ v = [] := by simpa [eq_comm] using heq
        rw [(List.append_eq_nil_iff.1 hnil).1] at hu
        exact .inl hu.isInfix
  · rintro (h | h | ⟨hlast, hhead⟩)
    · exact h.trans (List.prefix_append s t).isInfix
    · exact h.trans (List.suffix_append s t).isInfix
    · obtain ⟨u, rfl⟩ := List.getLast?_eq_some_iff.1 hlast
      obtain ⟨v, rfl⟩ := List.head?_eq_some_iff.1 hhead
      exact ⟨u, v, by simp⟩

theorem quotePounds_cons (c : Char) (t : List Char) :
    quotePounds (c :: t) = (if c = '#' then ['\'', '#', '\''] else [c]) ++ quotePounds t := rfl

theorem head?_quotePounds (h : '\'' ∉ t) :
    (quotePounds t).head? = some '\'' ↔ t.head? = some '#' := by
  cases t with
  | nil => exact iff_of_false nofun nofun
  | cons c t =>
    have hne : c ≠ '\'' := fun heq => h (heq ▸ List.mem_cons_self)
    by_cases hpound : c = '#'
    · simp [quotePounds_cons, hpound]
    · simp [quotePounds_cons, hpound, hne]

theorem getLast?_quotePounds (h : '\'' ∉ t) :
    (quotePounds t).getLast? = some '\'' ↔ t.getLast? = some '#' := by
  rcases List.eq_nil_or_concat t with rfl | ⟨init, c, rfl⟩
  · exact iff_of_false nofun nofun
  · have hne : c ≠ '\'' := by
      rintro rfl
      exact h (by simp)
    rw [List.concat_eq_append, quotePounds_append]
    by_cases hpound : c = '#'
    · simp [quotePounds, hpound]
    · simp [quotePounds, hpound, hne]

/-- Quotes of pound signs touch exactly where the pound signs do. -/
theorem doubled_quotePounds (h : '\'' ∉ t) :
    ['\'', '\''] <:+: quotePounds t ↔ ['#', '#'] <:+: t := by
  induction t with
  | nil => simp
  | cons c t ih =>
    rw [List.mem_cons, not_or] at h
    by_cases hpound : c = '#'
    · subst hpound
      simp [quotePounds_cons, pair_infix_cons, ih h.2, head?_quotePounds h.2]
    · simp [quotePounds_cons, pair_infix_cons, ih h.2, hpound, h.1, Ne.symm hpound]

/-- An apostrophe in front of a text without doubled ones makes none of them, unless the text begins
with another one. -/
theorem not_doubled_cons (hnext : ∀ v, s = '\'' :: v → False) (h : ¬ ['\'', '\''] <:+: s) :
    ¬ ['\'', '\''] <:+: '\'' :: s := by
  intro hpair
  rcases pair_infix_cons.1 hpair with ⟨-, hhead⟩ | hpair
  · obtain ⟨v, rfl⟩ := List.head?_eq_some_iff.1 hhead
    exact hnext v rfl
  · exact h hpair

theorem Spans.not_mem (h : Spans t before span after) (hquote : '\'' ∉ t) :
    '\'' ∉ before ∧ '\'' ∉ span ∧ '\'' ∉ after := by
  rw [h.split, List.mem_append, List.mem_append, not_or, not_or] at hquote
  exact ⟨hquote.1.1, hquote.1.2, hquote.2⟩

theorem Spans.head?_append_ne (h : Spans t before span after) (hc : isBrace c = false)
    (u : List Char) : (span ++ u).head? ≠ some c := by
  intro heq
  obtain ⟨a, ha, hbrace⟩ := h.head
  rw [List.head?_append, ha] at heq
  cases heq
  exact Bool.false_ne_true (hc.symm.trans hbrace)

theorem Spans.getLast?_ne (h : Spans t before span after) (hc : isBrace c = false) :
    span.getLast? ≠ some c := by
  intro heq
  obtain ⟨b, hb, hbrace⟩ := h.last
  rw [hb] at heq
  cases heq
  exact Bool.false_ne_true (hc.symm.trans hbrace)

theorem Spans.escape_eq (h : Spans t before span after) (hspan : '#' ∉ span) :
    escape true t = quotePounds before ++ '\'' :: (span ++ '\'' :: quotePounds after) := by
  rw [escape, if_pos rfl, h.quoteBraces_eq, quotePounds_append, quotePounds_append,
    quotePounds_cons, quotePounds_cons, quotePounds_of_not_mem hspan]
  simp

/-- Apostrophes are doubled where pound signs touch each other or stand beside the braces. -/
theorem Spans.doubled_iff (h : Spans t before span after) (hquote : '\'' ∉ t)
    (hspan : '#' ∉ span) : ['\'', '\''] <:+: escape true t ↔
      ['#', '#'] <:+: t ∨ before.getLast? = some '#' ∨ after.head? = some '#' := by
  obtain ⟨hbefore, hmiddle, hafter⟩ := h.not_mem hquote
  have hpound : isBrace '#' = false := rfl
  have hapostrophe : isBrace '\'' = false := rfl
  have hinside : ∀ d, d ∉ span → ¬ [d, d] <:+: span :=
    fun d hd hpair => hd (hpair.subset List.mem_cons_self)
  have htext : ['#', '#'] <:+: t ↔ ['#', '#'] <:+: before ∨ ['#', '#'] <:+: after := by
    rw [h.split, List.append_assoc, pair_infix_append, pair_infix_append]
    simp only [hinside _ hspan, h.head?_append_ne hpound, h.getLast?_ne hpound, false_or,
      false_and, and_false, or_false]
  have hrest : ['\'', '\''] <:+: '\'' :: (span ++ '\'' :: quotePounds after) ↔
      after.head? = some '#' ∨ ['#', '#'] <:+: after := by
    rw [pair_infix_cons, pair_infix_append, pair_infix_cons, head?_quotePounds hafter,
      doubled_quotePounds hafter]
    simp only [hinside _ hmiddle, h.head?_append_ne hapostrophe,
      h.getLast?_ne hapostrophe, true_and,
      false_or, false_and, and_false, or_false]
  rw [h.escape_eq hspan, pair_infix_append, hrest, doubled_quotePounds hbefore,
    getLast?_quotePounds hbefore, htext, List.head?_cons, and_iff_left rfl]
  grind

/-! ### What is read back -/

theorem unquote_quotePounds (h : IsPlain s) (hdouble : ¬ ['\'', '\''] <:+: quotePounds s ++ rest) :
    unquote true false (quotePounds s ++ rest) = (unquote true false rest).map (s ++ ·) := by
  induction s with
  | nil => simp
  | cons c s ih =>
    have hplain : IsPlain s := fun d hd => h d (List.mem_cons_of_mem c hd)
    obtain ⟨hquote, hbrace⟩ := h c List.mem_cons_self
    by_cases hpound : c = '#'
    · subst hpound
      have hcons : quotePounds ('#' :: s) ++ rest =
          '\'' :: '#' :: '\'' :: (quotePounds s ++ rest) := rfl
      rw [hcons] at hdouble ⊢
      simp only [pair_infix_cons, not_or, true_and] at hdouble
      obtain ⟨-, -, hnext, hrest⟩ := hdouble
      have hquoted : unquote true false ('\'' :: '#' :: '\'' :: (quotePounds s ++ rest)) =
          (unquote true false (quotePounds s ++ rest)).map (['#'] ++ ·) :=
        unquote_quoted (s := ['#']) (by decide) (by decide) hnext
      rw [hquoted, ih hplain hrest, Option.map_map]
      rfl
    · have hcons : quotePounds (c :: s) ++ rest = [c] ++ (quotePounds s ++ rest) := by
        rw [quotePounds_cons, if_neg hpound, List.append_assoc]
      rw [hcons, List.singleton_append, pair_infix_cons, not_or] at hdouble
      have hsingle : ∀ d ∈ [c], d ≠ '\'' ∧ (false = false → isLive true d = false) := by
        intro d hd
        rw [List.mem_singleton.1 hd]
        exact ⟨hquote, fun _ => by simp [isLive, hbrace, hpound]⟩
      rw [hcons, unquote_append hsingle, ih hplain hdouble.2, Option.map_map]
      rfl

theorem unquote_escape_false (h : '\'' ∉ t) : unquote false false (escape false t) = some t := by
  have hfree : ∀ {u : List Char}, '\'' ∉ u → (∀ c ∈ u, isBrace c = false) →
      ∀ c ∈ u, c ≠ '\'' ∧ (false = false → isLive false c = false) := by
    intro u hu hbrace c hc
    exact ⟨fun heq => hu (heq ▸ hc), fun _ => by simp [isLive, hbrace c hc]⟩
  have hend : ∀ {u : List Char}, '\'' ∉ u → (∀ c ∈ u, isBrace c = false) →
      unquote false false u = some u := by
    intro u hu hbrace
    have happend : unquote false false (u ++ []) = (unquote false false []).map (u ++ ·) :=
      unquote_append (hfree hu hbrace)
    simpa [unquote] using happend
  rw [escape, if_neg Bool.false_ne_true]
  rcases free_or_spans t with hbrace | ⟨before, span, after, hspans⟩
  · rw [quoteBraces_of_no_brace hbrace, hend h hbrace]
  · obtain ⟨hbefore, hspan, hafter⟩ := hspans.not_mem h
    have hlive : span.head?.any (isLive false) = true := by
      obtain ⟨a, ha, habrace⟩ := hspans.head
      simp [ha, isLive, habrace]
    have hnext : after.head? ≠ some '\'' := fun heq => hafter (List.mem_of_head? heq)
    rw [hspans.quoteBraces_eq, List.append_assoc, unquote_append (hfree hbefore hspans.before_free),
      unquote_quoted hlive hspan hnext, hend hafter hspans.after_free, hspans.split]
    simp

theorem isPlain_of_free (h : '\'' ∉ t) (hfree : ∀ c ∈ t, isBrace c = false) : IsPlain t :=
  fun c hc => ⟨fun heq => h (heq ▸ hc), hfree c hc⟩

theorem unquote_escape_true (h : '\'' ∉ t) (hclear : PoundsClear t) :
    unquote true false (escape true t) = some t := by
  rcases free_or_spans t with hbrace | ⟨before, span, after, hspans⟩
  · have hdouble : ¬ ['\'', '\''] <:+: quotePounds t ++ [] := by
      rw [List.append_nil, doubled_quotePounds h]
      exact hclear.apart
    have hread := unquote_quotePounds (isPlain_of_free h hbrace) hdouble
    rw [escape, if_pos rfl, quoteBraces_of_no_brace hbrace]
    simpa [unquote] using hread
  · obtain ⟨hbefore, hspan, hafter⟩ := hspans.not_mem h
    obtain ⟨hpound, hfirst, hlast⟩ := hclear.outside hspans
    have hdouble : ¬ ['\'', '\''] <:+: escape true t := by
      rw [hspans.doubled_iff h hpound]
      exact fun hor => hor.elim hclear.apart fun hor => hor.elim hfirst hlast
    rw [hspans.escape_eq hpound] at hdouble ⊢
    have hrest : ¬ ['\'', '\''] <:+: quotePounds after ++ [] := by
      rw [List.append_nil, doubled_quotePounds hafter]
      exact fun hpair => hclear.apart (hpair.trans ⟨before ++ span, [], by simp [hspans.split]⟩)
    have hnext : (quotePounds after).head? ≠ some '\'' := by
      rw [ne_eq, head?_quotePounds hafter]
      exact hlast
    have hlive : span.head?.any (isLive true) = true := by
      obtain ⟨a, ha, habrace⟩ := hspans.head
      simp [ha, isLive, habrace]
    have hread := unquote_quotePounds (isPlain_of_free hafter hspans.after_free) hrest
    rw [List.append_nil] at hread
    rw [unquote_quotePounds (isPlain_of_free hbefore hspans.before_free) hdouble,
      ← List.cons_append, unquote_quoted hlive hspan hnext, hread, hspans.split]
    simp [unquote]

/-- A text without apostrophes comes only of one in which none is doubled and nothing outside of
quotes is live. -/
theorem unquote_eq_some {r : List Char} (h : unquote inPlural quoted s = some r) (hr : '\'' ∉ r) :
    ¬ ['\'', '\''] <:+: s ∧ ∀ c ∈ bare quoted s, isLive inPlural c = false := by
  have hout : ∀ {o : Option (List Char)} {u : List Char}, '\'' ∉ u →
      o.map ('\'' :: ·) ≠ some u := by
    intro o u hu ho
    obtain ⟨v, -, rfl⟩ := Option.map_eq_some_iff.1 ho
    exact hu List.mem_cons_self
  fun_induction unquote inPlural quoted s generalizing r with
  | case1 => exact ⟨by simp, nofun⟩
  | case2 quoted s ih => exact absurd h (hout hr)
  | case3 s hnext ih =>
    obtain ⟨hdouble, hbare⟩ := ih h hr
    refine ⟨not_doubled_cons hnext hdouble, ?_⟩
    rw [bare, if_pos rfl]
    exact hbare
  | case4 quoted s hnext hquoted hopen ih =>
    obtain ⟨hdouble, hbare⟩ := ih h hr
    refine ⟨not_doubled_cons hnext hdouble, ?_⟩
    rw [bare, if_pos rfl, Bool.eq_false_iff.2 hquoted]
    exact hbare
  | case5 quoted s hnext hquoted hopen ih => exact absurd h (hout hr)
  | case6 quoted c s hnext hquote hlive => cases h
  | case7 quoted c s hnext hquote hlive ih =>
    obtain ⟨u, hu, rfl⟩ := Option.map_eq_some_iff.1 h
    rw [List.mem_cons, not_or] at hr
    obtain ⟨hdouble, hbare⟩ := ih hu hr.2
    constructor
    · rw [pair_infix_cons, not_or]
      exact ⟨fun heq => hr.1 heq.1, hdouble⟩
    · intro d hd
      rw [bare, if_neg hquote] at hd
      cases quoted with
      | true => exact hbare d hd
      | false =>
        rcases List.mem_cons.1 hd with rfl | hd
        · simpa using hlive
        · exact hbare d hd

/-- A pound sign that is written inside of quotes comes out of them. -/
theorem mem_bare_of_endsQuoted (h : endsQuoted false s = true) :
    '#' ∈ bare false (quotePounds (s ++ '#' :: t)) := by
  rw [quotePounds_append, quotePounds_cons, if_pos rfl, bare_append, endsQuoted_quotePounds, h]
  simp [bare]

theorem poundsClear_of_unquote (hquote : '\'' ∉ t)
    (h : unquote true false (escape true t) = some t) : PoundsClear t := by
  obtain ⟨hdouble, hbare⟩ := unquote_eq_some h hquote
  have hspan : ∀ {before span after}, Spans t before span after → '#' ∉ span := by
    intro before span after hspans hmem
    obtain ⟨hbefore, hmiddle, -⟩ := hspans.not_mem hquote
    obtain ⟨u, v, rfl⟩ := List.append_of_mem hmem
    have hopen : endsQuoted false (before ++ '\'' :: u) = true := by
      rw [endsQuoted_append, endsQuoted_of_not_mem hbefore, endsQuoted, if_pos rfl]
      exact endsQuoted_of_not_mem fun hu => hmiddle (List.mem_append_left _ hu)
    have hwritten : escape true t =
        quotePounds ((before ++ '\'' :: u) ++ '#' :: (v ++ '\'' :: after)) := by
      rw [escape, if_pos rfl, hspans.quoteBraces_eq]
      simp
    have hpound := hbare '#' (hwritten ▸ mem_bare_of_endsQuoted hopen)
    cases hpound
  refine ⟨?_, fun hspans => ?_⟩
  · rcases free_or_spans t with hfree | ⟨before, span, after, hspans⟩
    · rwa [escape, if_pos rfl, quoteBraces_of_no_brace hfree, doubled_quotePounds hquote] at hdouble
    · rw [hspans.doubled_iff hquote (hspan hspans), not_or] at hdouble
      exact hdouble.1
  · rw [hspans.doubled_iff hquote (hspan hspans), not_or, not_or] at hdouble
    exact ⟨hspan hspans, hdouble.2⟩

/-- Outside of plurals all text without apostrophes is read back from its written form, and in a
plural exactly the text whose pound signs keep clear of each other and of its braces. -/
theorem readBack_quote {text : String} (h : '\'' ∉ text.toList) :
    readBack false (quote false text) = some text ∧
      (readBack true (quote true text) = some text ↔ PoundsClear text.toList) := by
  have hread : ∀ {inPlural}, readBack inPlural (quote inPlural text) = some text ↔
      unquote inPlural false (escape inPlural text.toList) = some text.toList := by
    intro inPlural
    rw [readBack, quote, String.toList_ofList, Option.map_eq_some_iff]
    constructor
    · rintro ⟨t, ht, rfl⟩
      rw [ht, String.toList_ofList]
    · intro ht
      exact ⟨_, ht, String.ofList_toList⟩
  rw [hread, hread]
  exact ⟨unquote_escape_false h, poundsClear_of_unquote h, unquote_escape_true h⟩

example : readBack true (quote true "\x7b#\x7d") = none := by decide

/-- A text with pound signs before and after its braces. -/
def poundsAround : String :=
  "#1 \x7b\x7da\x7d #"

theorem readBack_quote_poundsAround :
    '\'' ∉ poundsAround.toList ∧ PoundsClear poundsAround.toList ∧
      quote true poundsAround = "'#'1 '\x7b\x7da\x7d' '#'" ∧
      readBack false (quote false poundsAround) = some poundsAround ∧
      readBack true (quote true poundsAround) = some poundsAround := by
  have h : '\'' ∉ poundsAround.toList := by decide
  have hclear : PoundsClear poundsAround.toList := by decide +kernel
  have hread := readBack_quote h
  exact ⟨h, hclear, by decide +kernel, hread.1, hread.2.2 hclear⟩

end MessageFormat.Quoting
