import MessageFormat.Text.Hexadecimal

/-!
# Lexical rules of TOML

Blanks, comments, line ends, strings and keys. Every scanner takes the rest of a text and gives
what it found and the rest after it, or nothing.
-/

namespace MessageFormat.Toml

def isBlank (c : Char) : Bool :=
  c = ' ' || c = '\t'

def skipBlank (t : List Char) : List Char :=
  t.dropWhile isBlank

/-- The characters of comments and strings: the tab and everything that is no control. -/
def isText (c : Char) : Bool :=
  c = '\t' || (' ' ≤ c && c ≤ '~') || '\u0080' ≤ c

def lineEnd? : List Char → Option (List Char)
  | '\n' :: t => some t
  | '\r' :: '\n' :: t => some t
  | _ => none

def endStatement? (t : List Char) : Option (List Char) :=
  let rest := match skipBlank t with
    | '#' :: t => t.dropWhile isText
    | t => t
  match rest with
  -- the text may end without the end of a line
  | [] => some []
  | rest => lineEnd? rest

/-- Skips blanks, line ends and comments; `comment` says whether the text starts in a comment. -/
def skipLines (comment : Bool) : List Char → List Char
  | [] => []
  | '\n' :: t => skipLines false t
  | '\r' :: '\n' :: t => skipLines false t
  | c :: t =>
    if comment then if isText c then skipLines true t else c :: t
    else if c = '#' then skipLines true t
    else if isBlank c then skipLines false t
    else c :: t

/-! ### Strings -/

def scalar? (digits : List Char) : Option Char := do
  let n ← digits.foldlM (fun n c => (Text.hexValue? c).map (n * 16 + ·)) 0
  if Nat.isValidChar n then some (Char.ofNat n) else none

def escape? : List Char → Option (Char × List Char)
  | 'b' :: t => some ('\x08', t)
  | 't' :: t => some ('\t', t)
  | 'n' :: t => some ('\n', t)
  | 'f' :: t => some ('\x0c', t)
  | 'r' :: t => some ('\r', t)
  | '"' :: t => some ('"', t)
  | '\\' :: t => some ('\\', t)
  | 'u' :: a :: b :: c :: d :: t => (scalar? [a, b, c, d]).map (·, t)
  | 'U' :: a :: b :: c :: d :: e :: f :: g :: h :: t =>
    (scalar? [a, b, c, d, e, f, g, h]).map (·, t)
  | _ => none

abbrev Read := Option (List Char × List Char)

def Read.cons (c : Char) (r : Read) : Read :=
  r.map fun r => (c :: r.1, r.2)

def basicString? : Nat → List Char → Read
  | 0, _ => none
  | fuel + 1, t =>
    match t with
    | [] => none
    | '"' :: t => some ([], t)
    | '\\' :: t => do
      let (c, t) ← escape? t
      Read.cons c (basicString? fuel t)
    | c :: t => if isText c then Read.cons c (basicString? fuel t) else none

def literalString? : List Char → Read
  | [] => none
  | '\'' :: t => some ([], t)
  | c :: t => if isText c then Read.cons c (literalString? t) else none

def skipBlankLines : List Char → List Char
  | [] => []
  | '\n' :: t => skipBlankLines t
  | '\r' :: '\n' :: t => skipBlankLines t
  | c :: t => if isBlank c then skipBlankLines t else c :: t

-- a backslash ends a line together with the blanks and blank lines that follow
def continuedLine? (t : List Char) : Option (List Char) :=
  (lineEnd? (skipBlank t)).map skipBlankLines

/-- A string over several lines after its quotes. Of the quotes at its end up to two belong to
it. -/
def longString? (quote : Char) : Nat → List Char → Read
  | 0, _ => none
  | fuel + 1, t =>
    match t.takeWhile (· = quote) with
    | _ :: _ :: _ :: more =>
      let own := more.take 2
      some (own, t.drop (3 + own.length))
    | _ =>
      match t with
      | [] => none
      | '\n' :: t => Read.cons '\n' (longString? quote fuel t)
      | '\r' :: '\n' :: t => Read.cons '\n' (longString? quote fuel t)
      | c :: t =>
        if c = '\\' ∧ quote = '"' then
          match continuedLine? t with
          | some t => longString? quote fuel t
          | none => do
            let (c, t) ← escape? t
            Read.cons c (longString? quote fuel t)
        else if isText c then Read.cons c (longString? quote fuel t)
        else none

def afterFirstLineEnd (t : List Char) : List Char :=
  (lineEnd? t).getD t

def string? (t : List Char) : Read :=
  match t with
  | '"' :: '"' :: '"' :: t =>
    longString? '"' (t.length + 1) (afterFirstLineEnd t)
  | '\'' :: '\'' :: '\'' :: t =>
    longString? '\'' (t.length + 1) (afterFirstLineEnd t)
  | '"' :: t => basicString? (t.length + 1) t
  | '\'' :: t => literalString? t
  | _ => none

/-! ### Keys -/

def isKeyChar (c : Char) : Bool :=
  c.isAlphanum || c = '-' || c = '_'

def simpleKey? (t : List Char) : Read :=
  match t with
  | '"' :: t => basicString? (t.length + 1) t
  | '\'' :: t => literalString? t
  | t =>
    match t.takeWhile isKeyChar with
    | [] => none
    | key => some (key, t.dropWhile isKeyChar)

def keyPath? : Nat → List Char → Option (List String × List Char)
  | 0, _ => none
  | fuel + 1, t => do
    let (key, t) ← simpleKey? (skipBlank t)
    match skipBlank t with
    | '.' :: t => do
      let (path, t) ← keyPath? fuel t
      return (String.ofList key :: path, t)
    | t => return ([String.ofList key], t)

/-- Paths, like values, must not be nested this deep. -/
def nestingLimit : Nat := 80

def key? (t : List Char) : Option (List String × List Char) := do
  let (path, t) ← keyPath? (t.length + 1) t
  if path.length < nestingLimit then some (path, t) else none

end MessageFormat.Toml
