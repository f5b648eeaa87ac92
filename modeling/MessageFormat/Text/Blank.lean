/-!
# Blank characters

The characters with the Unicode property `White_Space`, and the removal of such characters from
both ends of a text. The table is closed: the property has had these members since version 6.3.
-/

namespace MessageFormat.Text

/-- The `White_Space` characters as closed ranges, in ascending order. -/
def blankRanges : List (Char × Char) :=
  [('\x09', '\x0d'), (' ', ' '), ('\u0085', '\u0085'), ('\u00a0', '\u00a0'),
   ('\u1680', '\u1680'), ('\u2000', '\u200a'), ('\u2028', '\u2029'), ('\u202f', '\u202f'),
   ('\u205f', '\u205f'), ('\u3000', '\u3000')]

def isBlank (c : Char) : Bool :=
  blankRanges.any fun r => r.1 ≤ c && c ≤ r.2

def dropWhileEnd (p : Char → Bool) (t : List Char) : List Char :=
  (t.reverse.dropWhile p).reverse

def trim (t : List Char) : List Char :=
  dropWhileEnd isBlank (t.dropWhile isBlank)

@[simp] theorem trim_nil : trim [] = [] := rfl

theorem dropWhileEnd_append_singleton {p : Char → Bool} {c : Char} (t : List Char)
    (h : p c = false) : dropWhileEnd p (t ++ [c]) = t ++ [c] := by
  simp [dropWhileEnd, h]

/-- Trimming takes off exactly the blanks before a text that itself begins and ends with something
else. -/
theorem trim_append {s t : List Char} {a b : Char} (hs : ∀ c ∈ s, isBlank c = true)
    (hhead : t.head? = some a) (ha : isBlank a = false) (hlast : t.getLast? = some b)
    (hb : isBlank b = false) : trim (s ++ t) = t := by
  obtain ⟨u, rfl⟩ := List.getLast?_eq_some_iff.1 hlast
  obtain ⟨v, hv⟩ := List.head?_eq_some_iff.1 hhead
  have hstart : (s ++ (u ++ [b])).dropWhile isBlank = u ++ [b] := by
    rw [List.dropWhile_append_of_pos hs, hv]
    simp [ha]
  rw [trim, hstart]
  exact dropWhileEnd_append_singleton u hb

end MessageFormat.Text
