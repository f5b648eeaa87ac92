import MessageFormat.Toml.Scalar
import MessageFormat.Toml.Table

/-!
# TOML documents

A document is a list of statements, one a line: headers and pairs of a key and a value. A value
that is an array may go over several lines, an inline table may not. Arrays and inline tables must
not be nested too deep. A reader gives what it has read together with the rest of the text, or just
the rest where nothing of what is read is kept.
-/

namespace MessageFormat.Toml

def word? (word t : List Char) : Rest :=
  if word.isPrefixOf t then some (t.drop word.length) else none

mutual

/-- A value and the rest; `depth` more arrays and inline tables may lie in each other. -/
def value? : Nat → Nat → List Char → Option (Value × List Char)
  | 0, _, _ => none
  | fuel + 1, depth, t =>
    match t with
    | '"' :: _ | '\'' :: _ => (string? t).map fun r => (.string (String.ofList r.1), r.2)
    | 't' :: _ => (word? ['t', 'r', 'u', 'e'] t).map (.boolean true, ·)
    | 'f' :: _ => (word? ['f', 'a', 'l', 's', 'e'] t).map (.boolean false, ·)
    | '[' :: t =>
      match depth with
      | 0 => none
      | depth + 1 => (array? fuel depth (skipLines false t)).map (.other, ·)
    | '\x7b' :: t =>
      match depth with
      | 0 => none
      | depth + 1 =>
        match skipBlank t with
        | '\x7d' :: t => some (.other, t)
        | t => do
          let (pairs, t) ← pairs? fuel depth t
          let _ ← buildInline [] pairs
          return (.other, t)
    | t => (scalarEnd? t).map (.other, ·)

def array? : Nat → Nat → List Char → Rest
  | 0, _, _ => none
  | _ + 1, _, ']' :: t => some t
  | fuel + 1, depth, t => do
    let (_, t) ← value? fuel depth t
    -- a comma may also stand after the last item
    match skipLines false t with
    | ']' :: t => return t
    | ',' :: t => array? fuel depth (skipLines false t)
    | _ => none

def pairs? : Nat → Nat → List Char → Option (List (List String × Value) × List Char)
  | 0, _, _ => none
  | fuel + 1, depth, t => do
    let (path, t) ← key? t
    let (value, t) ← value? fuel depth (skipBlank (← literal? '=' t))
    match skipBlank t with
    | '\x7d' :: t => return ([(path, value)], t)
    | ',' :: t => do
      let (pairs, t) ← pairs? fuel depth t
      return ((path, value) :: pairs, t)
    | _ => none

end

def statement? (t : List Char) : Option (Statement × List Char) :=
  match t with
  | '[' :: '[' :: t => do
    let (path, t) ← key? t
    let t ← endStatement? (← word? [']', ']'] t)
    return (.arrayHeader path, t)
  | '[' :: t => do
    let (path, t) ← key? t
    let t ← endStatement? (← literal? ']' t)
    return (.header path, t)
  | t => do
    let (path, t) ← key? t
    let t := skipBlank (← literal? '=' t)
    let (value, t) ← value? (2 * t.length + 2) (nestingLimit - 1) t
    let t ← endStatement? t
    return (.pair path value, t)

def statements? : Nat → List Char → Option (List Statement)
  | 0, _ => none
  | fuel + 1, t =>
    match skipBlank t with
    | [] => some []
    | '\n' :: t => statements? fuel t
    | '\r' :: '\n' :: t => statements? fuel t
    | '#' :: t => do
      let t ← endStatement? ('#' :: t)
      statements? fuel t
    | t => do
      let (statement, t) ← statement? t
      let statements ← statements? fuel t
      return statement :: statements

/-! ### Whole documents -/

-- a byte order mark is no part of the document
def withoutMark : List Char → List Char
  | '\ufeff' :: t => t
  | t => t

/-- The root table of a document; none if the text is no TOML. -/
def ofText? (text : String) : Option (Members Item) := do
  let t := withoutMark text.toList
  build [] [] (← statements? (t.length + 1) t)

end MessageFormat.Toml
