import MessageFormat.Proofs.Message.Unquoting

/-!
# Quoted text decides the text

No reader of message syntax gets every text back from its written form, but the text is there: the
quotes of the pound signs can be told from other apostrophes, and the quotes of the braces stand
right outside of the first and the last brace. Both are taken off in turn, in the opposite order to
that in which they were put on, so no two texts have the same written form.
-/

namespace MessageFormat.Quoting

/-- Takes the quotes of pound signs off, from left to right. -/
def recoverPounds : List Char → List Char
  | [] => []
  | '\'' :: '#' :: '\'' :: s => '#' :: recoverPounds s
  | c :: s => c :: recoverPounds s

/-- Takes the character in front of the first brace and the one after the last brace off. -/
def recoverBraces (s : List Char) : List Char :=
  match braceSpan s with
  | (_, [], _) => s
  | (before, span, after) => before.dropLast ++ span ++ after.tail

/-- The text that a written form comes from. -/
def recover (inPlural : Bool) (s : List Char) : List Char :=
  recoverBraces (if inPlural then recoverPounds s else s)

variable {c : Char} {s t before span after : List Char}

/-! ### Pound signs -/

theorem head?_quotePounds_ne (t : List Char) : (quotePounds t).head? ≠ some '#' := by
  cases t with
  | nil => exact nofun
  | cons c t =>
    rw [quotePounds_cons]
    by_cases hpound : c = '#'
    · simp [hpound]
    · simp [hpound]

/-- Only an apostrophe in front of a pound sign can be a quote of one. -/
theorem recoverPounds_cons (h : s.head? ≠ some '#') :
    recoverPounds (c :: s) = c :: recoverPounds s := by
  rw [recoverPounds]
  rintro u - rfl
  exact h rfl

theorem recoverPounds_quotePounds (t : List Char) : recoverPounds (quotePounds t) = t := by
  induction t with
  | nil => rfl
  | cons c t ih =>
    rw [quotePounds_cons]
    by_cases hpound : c = '#'
    · rw [if_pos hpound, hpound]
      exact congrArg ('#' :: ·) ih
    · -- an apostrophe of the text is no quote: what comes next is never a pound sign
      rw [if_neg hpound, List.singleton_append, recoverPounds_cons (head?_quotePounds_ne t), ih]

/-! ### Braces -/

/-- The quotes do not change what the span of braces is. -/
theorem Spans.quoteBraces (h : Spans t before span after) :
    Spans (quoteBraces t) (before ++ ['\'']) span ('\'' :: after) where
  split := by rw [h.quoteBraces_eq, List.append_assoc, List.append_assoc]; simp
  before_free := free_append h.before_free (List.forall_mem_singleton.2 rfl)
  after_free := free_append (List.forall_mem_singleton.2 rfl) h.after_free
  head := h.head
  last := h.last

theorem Spans.recoverBraces_eq (h : Spans t before span after) :
    recoverBraces t = before.dropLast ++ span ++ after.tail := by
  obtain ⟨c, u, hspan⟩ := List.exists_cons_of_ne_nil h.ne_nil
  rw [recoverBraces, h.braceSpan_eq, hspan]

theorem recoverBraces_quoteBraces (t : List Char) : recoverBraces (quoteBraces t) = t := by
  rcases free_or_spans t with hfree | ⟨before, span, after, h⟩
  · have hspan := span_of_free hfree
    rw [quoteBraces_of_no_brace hfree, recoverBraces]
    split
    · rfl
    · next before span after hne heq =>
      rw [heq] at hspan
      exact absurd hspan hne
  · rw [h.quoteBraces.recoverBraces_eq, List.dropLast_concat, List.tail_cons, h.split]

/-! ### Written forms -/

theorem recover_escape (inPlural : Bool) (t : List Char) :
    recover inPlural (escape inPlural t) = t := by
  cases inPlural with
  | false => exact recoverBraces_quoteBraces t
  | true =>
    rw [recover, if_pos rfl, escape, if_pos rfl, recoverPounds_quotePounds]
    exact recoverBraces_quoteBraces t

/-- Quoting never makes two texts the same. -/
theorem quote_eq_quote_iff {inPlural : Bool} {s t : String} :
    quote inPlural s = quote inPlural t ↔ s = t := by
  constructor
  · intro h
    have hescape : escape inPlural s.toList = escape inPlural t.toList := String.ofList_injective h
    have htext : s.toList = t.toList := by
      rw [← recover_escape inPlural s.toList, hescape, recover_escape]
    exact String.toList_inj.1 htext
  · rintro rfl
    rfl

end MessageFormat.Quoting
