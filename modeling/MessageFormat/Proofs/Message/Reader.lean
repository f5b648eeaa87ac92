import Mathlib.Data.List.DropRight
import MessageFormat.Proofs.Message.Layout

/-!
# A reader of printed messages

The reader goes from left to right and decides by the next live character what stands there. An
apostrophe only opens or closes quotes. The layout of a block belongs to the block, so the reader
takes it off the text in front of it. The reader has fuel for twice as many steps as there are
characters, which no printed message exhausts.
-/

namespace MessageFormat.Reader

/-- Text up to the first live character outside of quotes, and the rest from there on. -/
def readText (live : Char → Bool) : Bool → List Char → List Char × List Char
  | _, [] => ([], [])
  | quoted, c :: s =>
    if c = '\'' then readText live (!quoted) s
    else if !quoted && live c then ([], c :: s)
    else (c :: (readText live quoted s).1, (readText live quoted s).2)

/-- The characters that end literal text. -/
def isLive (scope : Scope) (c : Char) : Bool :=
  Quoting.isBrace c || c = '<' || (scope.inPlural && c = '#')

/-- A word up to the first of the characters that can follow it, and the rest. -/
def readWord (stops s : List Char) : String × List Char :=
  (String.ofList (s.takeWhile (· ∉ stops)), s.dropWhile (· ∉ stops))

def readToken (s : List Char) : SkeletonToken :=
  match s.splitOn '/' with
  | [] => default
  | stem :: options => ⟨String.ofList stem, options.map String.ofList⟩

def readTokens (s : List Char) : List SkeletonToken :=
  if s = [] then [] else (s.splitOn ' ').map readToken

/-- A style and what follows it: a skeleton runs to the next brace, a text to the next live one. -/
def readStyle (format : ArgFormat) (s : List Char) : ArgStyle × List Char :=
  if [':', ':'] <+: s then
    let skeleton := (s.drop 2).takeWhile (!Quoting.isBrace ·)
    (if format = .number then .number (readTokens skeleton)
      else .dateTime (String.ofList skeleton), (s.drop 2).dropWhile (!Quoting.isBrace ·))
  else
    let (text, rest) := readText Quoting.isBrace false s
    (.text (String.ofList text), rest)

def readOffset (s : List Char) : Option UInt32 × List Char :=
  match s.dropPrefix? "offset:".toList with
  | none => (none, s)
  | some s => (some (UInt32.ofNat (Nat.ofDigitChars 10 (s.takeWhile Char.isDigit) 0)),
      s.dropWhile Char.isDigit)

/-- What a keyword announces. -/
inductive Kind where
  | formatted (format : ArgFormat)
  | plural (kind : PluralKind)
  | select

def Kind.ofKeyword : String → Option Kind
  | "number" => some (.formatted .number)
  | "date" => some (.formatted .date)
  | "time" => some (.formatted .time)
  | "plural" => some (.plural .cardinal)
  | "selectordinal" => some (.plural .ordinal)
  | "select" => some .select
  | _ => none

def readFormatted (format : ArgFormat) (name : String) : List Char → Option (Node × List Char)
  | '\x7d' :: s => some (.formatted format name none, s)
  | ',' :: ' ' :: s =>
    match readStyle format s with
    | (style, '\x7d' :: s) => some (.formatted format name (some style), s)
    | _ => none
  | _ => none

/-- The separator in front of offset and branches, which may end in a blank. -/
def readSeparator : List Char → List Char
  | ',' :: ' ' :: s => s
  | ',' :: s => s
  | s => s

/-- What stands in braces from its kind on, with a reader for the branches of a block. -/
def readKind (branches : Scope → List Char → Option (Branches × List Char)) (name : String)
    (kind : Kind) (s : List Char) : Option (Node × List Char) :=
  match kind with
  | .formatted format => readFormatted format name s
  | .plural kind => do
    let (offset, s) := readOffset (readSeparator s)
    let (bs, s) ← branches .pluralBody s
    some (.plural name kind offset bs, s)
  | .select => do
    let (bs, s) ← branches .selectBody (readSeparator s)
    some (.select name bs, s)

/-- What stands in braces, without the opening one. -/
def readArgument (branches : Scope → List Char → Option (Branches × List Char))
    (s : List Char) : Option (Node × List Char) :=
  match readWord [',', '\x7d'] s with
  | (name, '\x7d' :: s) => some (.argument name, s)
  | (name, ',' :: ' ' :: s) => do
    let (keyword, s) := readWord [',', '\x7d'] s
    let kind ← Kind.ofKeyword keyword
    readKind branches name kind s
  | _ => none

/-- Whether the nodes of a message, a branch or a tag are over. -/
def endsBody : List Char → Bool
  | [] | '\x7d' :: _ | '<' :: '/' :: _ => true
  | _ => false

mutual

def readNodes (fuel : Nat) (scope : Scope) (s : List Char) : Option (Message × List Char) :=
  match fuel with
  | 0 => none
  | fuel + 1 =>
    let (text, s) := readText (isLive scope) false s
    if endsBody s then some (Message.literal text, s)
    else do
      let (node, s) ← readNode fuel scope s
      let (nodes, s) ← readNodes fuel scope s
      some (Message.literal (text.rdrop node.layout.length) ++ node :: nodes, s)
termination_by structural fuel

def readNode (fuel : Nat) (scope : Scope) (s : List Char) : Option (Node × List Char) :=
  match fuel, s with
  | _ + 1, '#' :: s => some (.pound, s)
  | fuel + 1, '<' :: s => do
    let (name, s) := readWord ['>'] s
    let s ← s.dropPrefix? ['>']
    let (children, s) ← readNodes fuel scope s
    let s ← s.dropPrefix? (['<', '/'] ++ name.toList ++ ['>'])
    some (.tag name children, s)
  | fuel + 1, '\x7b' :: s => readArgument (readBranches fuel) s
  | _, _ => none
termination_by structural fuel

def readBranches (fuel : Nat) (scope : Scope) (s : List Char) : Option (Branches × List Char) :=
  match fuel, s with
  | _ + 1, '\x7d' :: s => some ([], s)
  | fuel + 1, '\n' :: s => do
    let (key, s) := readWord [' '] (s.dropWhile (· = ' '))
    let s ← s.dropPrefix? [' ', '\x7b']
    let (body, s) ← readNodes fuel scope s
    let s ← s.dropPrefix? ['\x7d']
    let (branches, s) ← readBranches fuel scope s
    some ((key, body) :: branches, s)
  | _, _ => none
termination_by structural fuel

end

/-- The message whose text is `s`, if the reader gets to the end of it. -/
def read (s : List Char) : Option Message :=
  match readNodes (2 * s.length + 1) .message s with
  | some (m, []) => some m
  | _ => none

/-! ### Text -/

/-- The written text `x` says `s`, whatever comes after it. -/
def Reads (live : Char → Bool) (x s : List Char) : Prop :=
  ∀ rest, readText live false (x ++ rest) =
    (s ++ (readText live false rest).1, (readText live false rest).2)

namespace Reads

variable {live : Char → Bool}

theorem nil : Reads live [] [] := fun _ => rfl

theorem append {x y s t : List Char} (hx : Reads live x s) (hy : Reads live y t) :
    Reads live (x ++ y) (s ++ t) := by
  intro rest
  rw [List.append_assoc, hx, hy, List.append_assoc]

theorem plain {t : List Char} (h : ∀ c ∈ t, c ≠ '\'' ∧ live c = false) : Reads live t t := by
  induction t with
  | nil => exact nil
  | cons c t ih =>
    obtain ⟨hquote, hlive⟩ := h c List.mem_cons_self
    have ht := ih fun d hd => h d (List.mem_cons_of_mem c hd)
    intro rest
    simp only [List.cons_append, readText, hquote, hlive, ht rest, if_false, Bool.not_false,
      Bool.and_false, Bool.false_eq_true]

/-- Between quotes every character stands for itself. -/
theorem quoted {t : List Char} (h : '\'' ∉ t) : Reads live ('\'' :: t ++ ['\'']) t := by
  intro rest
  suffices hinside : readText live true (t ++ '\'' :: rest) =
      (t ++ (readText live false rest).1, (readText live false rest).2) by
    simpa [readText] using hinside
  induction t with
  | nil => simp [readText]
  | cons c t ih =>
    rw [List.mem_cons, not_or] at h
    simp only [List.cons_append, readText, Ne.symm h.1, ih h.2, if_false, Bool.not_true,
      Bool.false_and, Bool.false_eq_true]

theorem quotePounds {t : List Char} (h : ∀ c ∈ t, c ≠ '\'' ∧ (live c = true → c = '#')) :
    Reads live (Quoting.quotePounds t) t := by
  induction t with
  | nil => exact nil
  | cons c t ih =>
    obtain ⟨hquote, hlive⟩ := h c List.mem_cons_self
    have ht := ih fun d hd => h d (List.mem_cons_of_mem c hd)
    rw [← List.singleton_append, Quoting.quotePounds_append]
    refine append ?_ ht
    by_cases hpound : c = '#'
    · subst hpound
      exact quoted (t := ['#']) (by decide)
    · have hsingle : Quoting.quotePounds [c] = [c] := by simp [Quoting.quotePounds, hpound]
      rw [hsingle]
      refine plain fun d hd => ?_
      rw [List.mem_singleton.1 hd]
      exact ⟨hquote, Bool.eq_false_iff.2 fun hc => hpound (hlive hc)⟩

/-- Escaped text says the text, if only braces and, in a plural, pound signs are live in it. -/
theorem escape {inPlural : Bool} {t : List Char} (hquote : '\'' ∉ t)
    (hlive : ∀ c ∈ t, live c = true → Quoting.isBrace c = true ∨ inPlural = true ∧ c = '#')
    (hspan : inPlural = true → '#' ∉ (Quoting.braceSpan t).2.1) :
    Reads live (Quoting.escape inPlural t) t := by
  -- text without braces, as it is found at both sides of their span
  have hfree : ∀ u, (∀ c ∈ u, c ∈ t) → (∀ c ∈ u, Quoting.isBrace c = false) →
      Reads live (if inPlural then Quoting.quotePounds u else u) u := by
    intro u hsub hbrace
    have hne : ∀ c ∈ u, c ≠ '\'' := fun c hc heq => hquote (heq ▸ hsub c hc)
    have hpound : ∀ c ∈ u, live c = true → inPlural = true ∧ c = '#' := by
      intro c hc hc'
      refine (hlive c (hsub c hc) hc').resolve_left ?_
      rw [hbrace c hc]
      exact Bool.false_ne_true
    cases inPlural with
    | true => exact quotePounds fun c hc => ⟨hne c hc, fun hc' => (hpound c hc hc').2⟩
    | false =>
      refine plain fun c hc => ⟨hne c hc, Bool.eq_false_iff.2 fun hc' => ?_⟩
      exact Bool.false_ne_true (hpound c hc hc').1
  rcases Quoting.free_or_spans t with hbrace | ⟨before, span, after, h⟩
  · rw [Quoting.escape, Quoting.quoteBraces_of_no_brace hbrace]
    exact hfree t (fun _ hc => hc) hbrace
  · have hmem : ∀ c ∈ span, c ∈ t := by
      intro c hc
      rw [h.split]
      simp [hc]
    have hbefore := hfree before (fun c hc => by rw [h.split]; simp [hc]) h.before_free
    have hafter := hfree after (fun c hc => by rw [h.split]; simp [hc]) h.after_free
    have hmiddle : Reads live ('\'' :: span ++ ['\'']) span := quoted fun hc => hquote (hmem _ hc)
    have hall := (hbefore.append hmiddle).append hafter
    rw [← h.split] at hall
    rw [h.braceSpan_eq] at hspan
    rw [Quoting.escape, h.quoteBraces_eq]
    cases inPlural with
    | true =>
      have hquoted : Quoting.quotePounds ('\'' :: span ++ ['\'']) = '\'' :: span ++ ['\''] := by
        apply Quoting.quotePounds_of_not_mem
        simpa using hspan rfl
      rw [if_pos rfl, if_pos rfl, ← hquoted, ← Quoting.quotePounds_append,
        ← Quoting.quotePounds_append] at hall
      simpa using hall
    | false => simpa using hall

end Reads

theorem readText_live {live : Char → Bool} {c : Char} (hlive : live c = true) (hquote : c ≠ '\'')
    (rest : List Char) : readText live false (c :: rest) = ([], c :: rest) := by
  simp [readText, hlive, hquote]

/-! ### Words, styles and offsets -/

theorem dropPrefix?_append (p s : List Char) : (p ++ s).dropPrefix? p = some s :=
  List.dropPrefix?_append_of_beq s (by simp)

theorem readWord_append {stops w : List Char} {c : Char} (hw : ∀ d ∈ w, d ∉ stops)
    (hc : c ∈ stops) (rest : List Char) :
    readWord stops (w ++ c :: rest) = (String.ofList w, c :: rest) := by
  have hpos : ∀ d ∈ w, decide (d ∉ stops) = true := fun d hd => decide_eq_true (hw d hd)
  rw [readWord, List.takeWhile_append_of_pos hpos, List.dropWhile_append_of_pos hpos]
  simp [hc]

theorem readWord_name {name : String} (h : IsName name) {stops : List Char} {c : Char}
    (hc : c ∈ stops)
    (hstops : stops.all (fun d => Text.isBlank d || reservedChars.contains d) = true)
    (rest : List Char) : readWord stops (name.toList ++ c :: rest) = (name, c :: rest) := by
  rw [readWord_append _ hc, String.ofList_toList]
  intro d hd hstop
  obtain ⟨hblank, hreserved⟩ := h.2 d hd
  have hstop' := List.all_eq_true.1 hstops d hstop
  simp [hblank, hreserved] at hstop'

theorem Kind.not_mem_keyword {keyword : String} {kind : Kind} (h : ofKeyword keyword = some kind) :
    ∀ d ∈ keyword.toList, d ∉ [',', '\x7d'] := by
  unfold ofKeyword at h
  split at h
  case h_7 => cases h
  all_goals simp

theorem ofKeyword_format (format : ArgFormat) :
    Kind.ofKeyword format.keyword = some (.formatted format) := by
  cases format <;> rfl

theorem ofKeyword_plural (kind : PluralKind) :
    Kind.ofKeyword kind.keyword = some (.plural kind) := by
  cases kind <;> rfl

theorem ofKeyword_select : Kind.ofKeyword "select" = some .select := rfl

theorem chars_token_eq_intercalate (token : SkeletonToken) :
    token.chars = List.intercalate ['/'] ((token.stem :: token.options).map String.toList) := by
  obtain ⟨stem, options⟩ := token
  simp only [SkeletonToken.chars]
  induction options generalizing stem with
  | nil => simp
  | cons option options ih =>
    rw [List.map_cons, List.map_cons, List.intercalate_cons_cons, ← List.map_cons, ← ih option]
    simp

theorem readToken_chars {token : SkeletonToken} (h : token.WellFormed) :
    readToken token.chars = token := by
  have hsplit : token.chars.splitOn '/' = (token.stem :: token.options).map String.toList := by
    rw [chars_token_eq_intercalate]
    refine List.splitOn_intercalate '/' ?_ (by simp)
    intro part hpart hslash
    obtain ⟨s, hs, rfl⟩ := List.mem_map.1 hpart
    exact (h.2 s hs _ hslash).2.1 rfl
  rw [readToken, hsplit, List.map_cons]
  simp [Function.comp_def]

theorem forall_mem_chars {token : SkeletonToken} (h : token.WellFormed) :
    ∀ c ∈ token.chars, c ≠ ' ' ∧ Quoting.isBrace c = false := by
  refine token.forall_mem_chars (by decide) ?_
  intro s hs c hc
  obtain ⟨hblank, -, hbrace⟩ := h.2 s hs c hc
  exact ⟨hblank, hbrace⟩

theorem chars_token_ne_nil {token : SkeletonToken} (h : token.WellFormed) : token.chars ≠ [] := by
  intro hnil
  rw [SkeletonToken.chars, List.append_eq_nil_iff] at hnil
  exact h.1 (String.toList_eq_nil_iff.1 hnil.1)

theorem readTokens_chars {tokens : List SkeletonToken} (h : ∀ token ∈ tokens, token.WellFormed) :
    readTokens (List.intercalate [' '] (tokens.map SkeletonToken.chars)) = tokens := by
  cases tokens with
  | nil => rfl
  | cons token tokens =>
    have hne : List.intercalate [' '] ((token :: tokens).map SkeletonToken.chars) ≠ [] := by
      have htoken := chars_token_ne_nil (h token List.mem_cons_self)
      cases tokens <;> simp [List.intercalate_cons_cons, htoken]
    have hblank : ∀ part ∈ (token :: tokens).map SkeletonToken.chars, ' ' ∉ part := by
      intro part hpart hmem
      obtain ⟨t, ht, rfl⟩ := List.mem_map.1 hpart
      exact (forall_mem_chars (h t ht) _ hmem).1 rfl
    have hread : ∀ t ∈ token :: tokens, (readToken ∘ SkeletonToken.chars) t = id t :=
      fun t ht => readToken_chars (h t ht)
    rw [readTokens, if_neg hne, List.splitOn_intercalate ' ' hblank (by simp), List.map_map,
      List.map_congr_left hread, List.map_id]

theorem not_isBrace_of_mem_intercalate {tokens : List SkeletonToken}
    (h : ∀ token ∈ tokens, token.WellFormed) :
    ∀ c ∈ List.intercalate [' '] (tokens.map SkeletonToken.chars), Quoting.isBrace c = false := by
  refine SkeletonToken.forall_mem_intercalate (by decide) ?_
  intro token htoken c hc
  exact (forall_mem_chars (h token htoken) c hc).2

theorem takeWhile_not_brace {s : List Char} (h : ∀ c ∈ s, Quoting.isBrace c = false)
    (rest : List Char) :
    (s ++ '\x7d' :: rest).takeWhile (!Quoting.isBrace ·) = s ∧
      (s ++ '\x7d' :: rest).dropWhile (!Quoting.isBrace ·) = '\x7d' :: rest := by
  have hpos : ∀ c ∈ s, (!Quoting.isBrace c) = true := fun c hc => by simp [h c hc]
  rw [List.takeWhile_append_of_pos hpos, List.dropWhile_append_of_pos hpos]
  simp [Quoting.isBrace]

theorem readStyle_skeleton {format : ArgFormat} {s rest : List Char}
    (h : ∀ c ∈ s, Quoting.isBrace c = false) :
    readStyle format (':' :: ':' :: s ++ '\x7d' :: rest) =
      (if format = .number then .number (readTokens s) else .dateTime (String.ofList s),
        '\x7d' :: rest) := by
  obtain ⟨htake, hdrop⟩ := takeWhile_not_brace h rest
  have hstart : [':', ':'] <+: ':' :: ':' :: s ++ '\x7d' :: rest :=
    ⟨s ++ '\x7d' :: rest, rfl⟩
  rw [readStyle, if_pos hstart]
  simp only [List.cons_append, List.drop_succ_cons, List.drop_zero, htake, hdrop]

/-- Quoting does not make a text look like a skeleton. -/
theorem not_prefix_quoteBraces {t rest : List Char} (h : ¬ [':', ':'] <+: t) :
    ¬ [':', ':'] <+: Quoting.quoteBraces t ++ '\x7d' :: rest := by
  rcases Quoting.free_or_spans t with hfree | ⟨before, span, after, hspans⟩
  · rw [Quoting.quoteBraces_of_no_brace hfree]
    rcases t with _ | ⟨a, _ | ⟨b, t⟩⟩
    · simp
    · simp
    · simpa using h
  · rw [hspans.quoteBraces_eq]
    rw [hspans.split] at h
    rcases before with _ | ⟨a, _ | ⟨b, before⟩⟩
    · simp
    · simp
    · simpa using h

theorem readStyle_chars {format : ArgFormat} {style : ArgStyle} (h : style.WellFormed format)
    (rest : List Char) :
    readStyle format (style.chars ++ '\x7d' :: rest) = (style, '\x7d' :: rest) := by
  cases style with
  | text t =>
    obtain ⟨hquote, hstart⟩ := h
    have hreads : Reads Quoting.isBrace (Quoting.escape false t.toList) t.toList :=
      Reads.escape hquote (fun c _ hc => .inl hc) (fun hfalse => by cases hfalse)
    have hskeleton : ¬ [':', ':'] <+: Quoting.escape false t.toList ++ '\x7d' :: rest :=
      not_prefix_quoteBraces hstart
    rw [readStyle, ArgStyle.chars, if_neg hskeleton, hreads,
      readText_live (by decide) (by decide)]
    simp
  | number tokens =>
    obtain ⟨rfl, htokens⟩ := h
    rw [ArgStyle.chars, readStyle_skeleton (not_isBrace_of_mem_intercalate htokens), if_pos rfl,
      readTokens_chars htokens]
  | dateTime pattern =>
    rw [ArgStyle.chars, readStyle_skeleton h.2, if_neg h.1, String.ofList_toList]

/-- A written offset is read back, and one that is zero is read as none. -/
theorem readOffset_chars (offset : Option UInt32) {rest : List Char} {c : Char}
    (hdigit : c.isDigit = false) (hstart : c ≠ 'o') :
    readOffset (offsetChars offset ++ c :: rest) = (offset.filter (· ≠ 0), c :: rest) := by
  have hnone : readOffset (c :: rest) = (none, c :: rest) := by
    simp [readOffset, List.dropPrefix?, hstart]
  cases offset with
  | none => exact hnone
  | some n =>
    rw [offsetChars]
    split
    · next hzero => simpa [hzero, Option.filter] using hnone
    · next hne =>
      have hdigits : ∀ d ∈ Nat.toDigits 10 n.toNat, d.isDigit = true :=
        fun d hd => Nat.isDigit_of_mem_toDigits (by decide) (by decide) hd
      have hprefix : ("offset:".toList ++ Nat.toDigits 10 n.toNat ++ c :: rest).dropPrefix?
          "offset:".toList = some (Nat.toDigits 10 n.toNat ++ c :: rest) := by
        rw [List.append_assoc]
        exact dropPrefix?_append _ _
      rw [readOffset, hprefix]
      simp only [List.takeWhile_append_of_pos hdigits, List.dropWhile_append_of_pos hdigits]
      simp [hdigit, hne, Nat.ofDigitChars_ten_toDigits, Option.filter]

theorem readSeparator_header (tail rest : List Char) :
    readSeparator (headerSeparator tail ++ tail ++ rest) = tail ++ rest := by
  rcases tail with _ | ⟨c, tail⟩
  · rfl
  · by_cases hc : c = '\n'
    · subst hc
      rfl
    · have hsep : headerSeparator (c :: tail) = [',', ' '] := by simp [headerSeparator, hc]
      rw [hsep]
      rfl

end MessageFormat.Reader
