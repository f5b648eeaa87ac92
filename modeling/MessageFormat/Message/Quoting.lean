/-!
# Quoting of literal text

In message syntax braces are live, and so is the pound sign inside a plural. Literal text is made
safe by apostrophes: everything from its first brace to its last one is put between a single pair
of them, and then, in a plural, each pound sign gets a pair of its own. Apostrophes of the text
itself are left alone.
-/

namespace MessageFormat.Quoting

def isBrace (c : Char) : Bool :=
  c = '{' || c = '}'

/-- A text as what precedes its first brace, what runs from there to its last brace, and the rest;
the middle part is empty exactly when there is no brace. -/
def braceSpan (t : List Char) : List Char × List Char × List Char :=
  let before := t.takeWhile (!isBrace ·)
  let backwards := (t.dropWhile (!isBrace ·)).reverse
  (before, (backwards.dropWhile (!isBrace ·)).reverse, (backwards.takeWhile (!isBrace ·)).reverse)

def quoteBraces (t : List Char) : List Char :=
  match braceSpan t with
  | (_, [], _) => t
  | (before, span, after) => before ++ '\'' :: span ++ '\'' :: after

def quotePounds (t : List Char) : List Char :=
  t.flatMap fun c => if c = '#' then ['\'', '#', '\''] else [c]

/-- The written form of literal text; pound signs are live when it stands in a plural. -/
def escape (inPlural : Bool) (t : List Char) : List Char :=
  if inPlural then quotePounds (quoteBraces t) else quoteBraces t

def quote (inPlural : Bool) (text : String) : String :=
  String.ofList (escape inPlural text.toList)

theorem braceSpan_append (t : List Char) :
    (braceSpan t).1 ++ (braceSpan t).2.1 ++ (braceSpan t).2.2 = t := by
  simp only [braceSpan]
  rw [List.append_assoc, ← List.reverse_append, List.takeWhile_append_dropWhile,
    List.reverse_reverse, List.takeWhile_append_dropWhile]

theorem quoteBraces_of_no_brace {t : List Char} (h : ∀ c ∈ t, isBrace c = false) :
    quoteBraces t = t := by
  have hd : t.dropWhile (!isBrace ·) = [] := by
    induction t with
    | nil => rfl
    | cons c r ih =>
      have hc := h c (by simp)
      simp only [List.dropWhile_cons, hc, Bool.not_false, if_true]
      exact ih fun d hd => h d (by simp [hd])
  simp [quoteBraces, braceSpan, hd]

@[simp] theorem quotePounds_nil : quotePounds [] = [] := rfl

@[simp] theorem quotePounds_append (s t : List Char) :
    quotePounds (s ++ t) = quotePounds s ++ quotePounds t := by
  simp [quotePounds]

end MessageFormat.Quoting
