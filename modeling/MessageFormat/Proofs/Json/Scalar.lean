import MessageFormat.Json.Draft.Read
import MessageFormat.Json.Layout
import MessageFormat.Proofs.Agree

/-!
# Written strings and integers

What the writer puts down for a string or an integer is scanned to its end and no further, and read
as that string or integer again.
-/

namespace MessageFormat.Json

/-! ### Integers -/

/-- What may follow a numeral without being taken for a part of it. -/
def EndsNumeral (rest : List Char) : Prop :=
  ∀ c ∈ rest.head?, c.isDigit = false ∧ c ∉ ['.', 'e', 'E']

theorem isDigit_of_mem_natChars {n : Nat} {c : Char} (h : c ∈ natChars n) : c.isDigit = true :=
  Nat.isDigit_of_mem_toDigits (by decide) (by decide) h

/-- Only zero is written with a zero at the front. -/
theorem natChars_head (n : Nat) : ∃ c u, natChars n = c :: u ∧ (c = '0' → n = 0) := by
  induction n using Nat.strongRecOn with
  | ind n ih =>
    rw [natChars, Nat.toDigits_eq_if (by decide)]
    split
    · exact ⟨n.digitChar, [], rfl, fun h => Nat.digitChar_eq_zero.1 h⟩
    · next hlarge =>
      obtain ⟨c, u, hcons, hzero⟩ := ih (n / 10) (by omega)
      rw [natChars] at hcons
      refine ⟨c, u ++ [(n % 10).digitChar], by rw [hcons]; rfl, fun h => ?_⟩
      have := hzero h
      omega

theorem scanDigits_append {digits rest : List Char} (hdigits : ∀ c ∈ digits, c.isDigit = true)
    (hne : digits ≠ []) (hrest : EndsNumeral rest) :
    scanDigits (digits ++ rest) = .ok (digits, rest) := by
  have htake : (digits ++ rest).takeWhile Char.isDigit = digits := by
    rw [List.takeWhile_append_of_pos hdigits]
    cases rest with
    | nil => simp
    | cons c rest => simp [(hrest c rfl).1]
  have hdrop : (digits ++ rest).dropWhile Char.isDigit = rest := by
    rw [List.dropWhile_append_of_pos hdigits]
    cases rest with
    | nil => rfl
    | cons c rest => simp [(hrest c rfl).1]
  obtain ⟨c, u, rfl⟩ := List.exists_cons_of_ne_nil hne
  rw [scanDigits, htake, hdrop]

theorem scanWhole_natChars (n : Nat) {rest : List Char} (hrest : EndsNumeral rest) :
    scanWhole (natChars n ++ rest) = .ok (natChars n, rest) := by
  obtain ⟨c, u, hcons, hzero⟩ := natChars_head n
  by_cases hc : c = '0'
  · have hn := hzero hc
    subst hn
    cases rest with
    | nil => rfl
    | cons d rest =>
      have hd : d.isDigit = false := (hrest d rfl).1
      simp [natChars, scanWhole, hd]
  · have hdigits := scanDigits_append (fun c => isDigit_of_mem_natChars (n := n)) (by simp [hcons])
      hrest
    rw [← hdigits, hcons, List.cons_append, scanWhole]
    rintro t heq
    exact hc (List.cons.inj heq).1

theorem scanFraction_of_endsNumeral {u : List Char} (hu : EndsNumeral u) :
    scanFraction u = .ok ([], u) := by
  unfold scanFraction
  split
  · exact absurd (hu '.' rfl).2 (by decide)
  · rfl

theorem scanExponent_of_endsNumeral {u : List Char} (hu : EndsNumeral u) :
    scanExponent u = .ok (none, u) := by
  unfold scanExponent
  split
  · exact absurd (hu 'e' rfl).2 (by decide)
  · exact absurd (hu 'E' rfl).2 (by decide)
  · rfl

theorem scanUnsigned_natChars (negative : Bool) (n : Nat) {rest : List Char}
    (hrest : EndsNumeral rest) :
    scanUnsigned negative (natChars n ++ rest) = .ok (⟨negative, natChars n, [], none⟩, rest) := by
  rw [scanUnsigned, scanWhole_natChars n hrest, ok_bind]
  dsimp only
  rw [scanFraction_of_endsNumeral hrest, ok_bind]
  dsimp only
  rw [scanExponent_of_endsNumeral hrest, ok_bind]
  rfl

/-- The numeral that an integer is written as. -/
def intNumeral (n : Int) : Numeral :=
  ⟨n < 0, natChars n.natAbs, [], none⟩

theorem scanNumeral_intChars (n : Int) {rest : List Char} (hrest : EndsNumeral rest) :
    scanNumeral (intChars n ++ rest) = .ok (intNumeral n, rest) := by
  by_cases hn : n < 0
  · rw [intChars, if_pos hn, List.cons_append, scanNumeral, scanUnsigned_natChars true _ hrest]
    simp [intNumeral, hn]
  · obtain ⟨c, u, hcons, -⟩ := natChars_head n.natAbs
    have hminus : c ≠ '-' := by
      rintro rfl
      have := isDigit_of_mem_natChars (n := n.natAbs) (c := '-') (by simp [hcons])
      exact absurd this (by decide)
    rw [intChars, if_neg hn, intNumeral, decide_eq_false hn, ← scanUnsigned_natChars false _ hrest,
      hcons, List.cons_append, scanNumeral]
    rintro t heq
    exact hminus (List.cons.inj heq).1

/-- An integer begins with a character that nothing else in a list begins with. -/
theorem intChars_head (n : Int) :
    ∃ c u, intChars n = c :: u ∧ isSpace c = false ∧ (c = '-' ∨ c.isDigit = true) ∧
      ∀ d, d ≠ '-' → d.isDigit = false → c ≠ d := by
  obtain ⟨c, u, hcons, hc⟩ : ∃ c u, intChars n = c :: u ∧ (c = '-' ∨ c.isDigit = true) := by
    by_cases hn : n < 0
    · exact ⟨'-', natChars n.natAbs, by rw [intChars, if_pos hn], .inl rfl⟩
    · obtain ⟨c, u, hcons, -⟩ := natChars_head n.natAbs
      have hc := isDigit_of_mem_natChars (n := n.natAbs) (by rw [hcons]; exact List.mem_cons_self)
      exact ⟨c, u, by rw [intChars, if_neg hn, hcons], .inr hc⟩
  have hne : ∀ d, d ≠ '-' → d.isDigit = false → c ≠ d := by
    rintro d hminus hdigit rfl
    rcases hc with hc | hc
    · exact hminus hc
    · rw [hc] at hdigit
      cases hdigit
  have hspace : isSpace c = false := by
    simp [isSpace, hne ' ' (by decide) (by decide), hne '\n' (by decide) (by decide),
      hne '\t' (by decide) (by decide), hne '\r' (by decide) (by decide)]
  exact ⟨c, u, hcons, hspace, hc, hne⟩

theorem le_ofDigitChars (digits : List Char) (s : Nat) : s ≤ Nat.ofDigitChars 10 digits s := by
  induction digits generalizing s with
  | nil => exact Nat.le_refl s
  | cons c digits ih =>
    rw [Nat.ofDigitChars_cons]
    have := ih (10 * s + (c.toNat - '0'.toNat))
    omega

/-- Nothing is left out of a significand that has 64 bits in the end. -/
theorem appendDigits_eq {digits : List Char} {s : Nat}
    (h : Nat.ofDigitChars 10 digits s < UInt64.size) :
    appendDigits s digits = (Nat.ofDigitChars 10 digits s, 0) := by
  induction digits generalizing s with
  | nil => rfl
  | cons c digits ih =>
    rw [Nat.ofDigitChars_cons] at h ⊢
    have hstep : s * 10 + digitValue c = 10 * s + (c.toNat - '0'.toNat) := by
      rw [digitValue, Nat.mul_comm]
    have hle := le_ofDigitChars digits (10 * s + (c.toNat - '0'.toNat))
    rw [appendDigits, if_pos (by rw [hstep]; omega), hstep, ih h]

theorem read_intNumeral {n : Int} (h : IsWord n) : (intNumeral n).read = .ok (.int n h) := by
  have hsize : n.natAbs < UInt64.size := by
    simp only [IsWord, UInt64.size] at h ⊢
    omega
  have hdigits : appendDigits 0 (natChars n.natAbs) = (n.natAbs, 0) := by
    have hvalue : Nat.ofDigitChars 10 (natChars n.natAbs) 0 = n.natAbs :=
      Nat.ofDigitChars_ten_toDigits
    rw [appendDigits_eq (by rw [hvalue]; exact hsize), hvalue]
  have hint : (intNumeral n).int? = some n := by
    simp only [Numeral.int?, intNumeral, hdigits, List.isEmpty_nil, Option.isNone_none,
      Bool.and_true, if_true, decide_eq_true_eq]
    by_cases hn : n < 0
    · rw [if_pos hn, if_neg (by omega)]
      congr 1
      omega
    · rw [if_neg hn]
      congr 1
      omega
  rw [Numeral.read, Numeral.value?, hint]
  simp only [dif_pos h]

/-! ### Strings -/

/-- How a character of a string is scanned. -/
def pieceOf (c : Char) : Piece :=
  if c.toNat < 32 ∧ c ∉ ['\x08', '\x0c', '\n', '\r', '\t'] then .unit c.toNat else .char c

/-- A string as it is scanned. -/
def lexemeOf (s : String) : Lexeme :=
  ⟨s.toList.map pieceOf, none⟩

theorem scanString_plain {c : Char} (hquote : c ≠ '"') (hbackslash : c ≠ '\\')
    (hcontrol : ¬ c.toNat < 32) (t : List Char) :
    scanString (c :: t) = Lexeme.after (.char c) (scanString t) := by
  rw [scanString, if_neg hcontrol]
  all_goals simp [hquote, hbackslash]

theorem scanString_unit {c : Char} (hcontrol : c.toNat < 32) (t : List Char) :
    scanString (['\\', 'u', '0', '0', Text.hexDigit (c.toNat / 16), Text.hexDigit (c.toNat % 16)] ++
      t) = Lexeme.after (.unit c.toNat) (scanString t) := by
  have hunit : codeUnit? '0' '0' (Text.hexDigit (c.toNat / 16)) (Text.hexDigit (c.toNat % 16)) =
      some c.toNat := by
    have hzero : Text.hexValue? '0' = some 0 := by decide
    simp only [codeUnit?, hzero, Text.hexValue?_hexDigit (by omega : c.toNat / 16 < 16),
      Text.hexValue?_hexDigit (by omega : c.toNat % 16 < 16), Option.bind_eq_bind,
      Option.bind_some]
    change some (((0 * 16 + 0) * 16 + c.toNat / 16) * 16 + c.toNat % 16) = _
    congr 1
    omega
  simp only [List.cons_append, List.nil_append, scanString, hunit]

theorem scanString_escapeChar (c : Char) (t : List Char) :
    scanString (escapeChar c ++ t) = Lexeme.after (pieceOf c) (scanString t) := by
  by_cases hspecial : c ∈ ['"', '\\', '\x08', '\x0c', '\n', '\r', '\t']
  · simp only [List.mem_cons, List.not_mem_nil, or_false] at hspecial
    rcases hspecial with rfl | rfl | rfl | rfl | rfl | rfl | rfl <;> rfl
  · simp only [List.mem_cons, List.not_mem_nil, or_false, not_or] at hspecial
    obtain ⟨hquote, hbackslash, hshort⟩ := hspecial
    by_cases hcontrol : c.toNat < 32
    · have hpiece : pieceOf c = .unit c.toNat := by simp [pieceOf, hcontrol, hshort]
      rw [hpiece, ← scanString_unit hcontrol]
      simp [escapeChar, hquote, hbackslash, hshort, hcontrol]
    · have hpiece : pieceOf c = .char c := by simp [pieceOf, hcontrol]
      rw [hpiece, ← scanString_plain hquote hbackslash hcontrol]
      simp [escapeChar, hquote, hbackslash, hshort, hcontrol]

theorem scanString_escape (t rest : List Char) :
    scanString (t.flatMap escapeChar ++ '"' :: rest) = (⟨t.map pieceOf, none⟩, rest) := by
  induction t with
  | nil => rfl
  | cons c t ih =>
    rw [List.flatMap_cons, List.append_assoc, scanString_escapeChar, ih]
    rfl

theorem readPieces_unit {u : Nat} (hu : u < 0xd800) (flaw : Option Flaw) (pieces : List Piece) :
    readPieces flaw (.unit u :: pieces) =
      (readPieces flaw pieces).map (Char.ofNat u :: ·) := by
  have htrailing : isTrailing u = false := by simp [isTrailing]; omega
  have hleading : isLeading u = false := by simp [isLeading]; omega
  rcases pieces with _ | ⟨c | v, pieces⟩ <;> simp [readPieces, htrailing, hleading]

theorem readPieces_pieceOf (t : List Char) : readPieces none (t.map pieceOf) = .ok t := by
  induction t with
  | nil => rfl
  | cons c t ih =>
    rw [List.map_cons, pieceOf]
    split
    · next hc =>
      rw [readPieces_unit (by omega), ih]
      simp [Except.map]
    · rw [readPieces, ih]
      rfl

theorem read_lexemeOf (s : String) : (lexemeOf s).read = .ok s := by
  rw [Lexeme.read, lexemeOf, readPieces_pieceOf]
  exact congrArg Except.ok String.ofList_toList

end MessageFormat.Json
