import MessageFormat.Json.Basic
import MessageFormat.Text.Hexadecimal

/-!
# Writing JSON values

A value is written in one of two layouts. The compact one has no blanks. The pretty one puts every
item and every member on a line of its own, indented by two blanks for each container around it,
and a blank after each colon. An empty container is its two brackets in both. Of the characters of
a string only the quote, the backslash and those below the blank are escaped.
-/

namespace MessageFormat.Json

inductive Layout where
  | compact
  | pretty
deriving DecidableEq, Repr

namespace Layout

/-- What is put before an item, a member or a closing bracket with `level` containers around it. -/
def lineStart : Layout → Nat → List Char
  | .compact, _ => []
  | .pretty, level => '\n' :: List.replicate (2 * level) ' '

def colon : Layout → List Char
  | .compact => [':']
  | .pretty => [':', ' ']

end Layout

def escapeChar (c : Char) : List Char :=
  if c = '"' then ['\\', '"']
  else if c = '\\' then ['\\', '\\']
  else if c = '\x08' then ['\\', 'b']
  else if c = '\x0c' then ['\\', 'f']
  else if c = '\n' then ['\\', 'n']
  else if c = '\r' then ['\\', 'r']
  else if c = '\t' then ['\\', 't']
  else if c.toNat < 32 then
    ['\\', 'u', '0', '0', Text.hexDigit (c.toNat / 16), Text.hexDigit (c.toNat % 16)]
  else [c]

def stringChars (s : String) : List Char :=
  '"' :: s.toList.flatMap escapeChar ++ ['"']

def boolChars (b : Bool) : List Char :=
  if b then ['t', 'r', 'u', 'e'] else ['f', 'a', 'l', 's', 'e']

def nullChars : List Char :=
  ['n', 'u', 'l', 'l']

mutual

/-- A value with `level` containers around it. -/
def chars (layout : Layout) (level : Nat) : Json → List Char
  | .null => nullChars
  | .bool b => boolChars b
  | .number n => n.chars
  | .string s => stringChars s
  | .array [] => ['[', ']']
  | .array (item :: items) =>
    '[' :: layout.lineStart (level + 1) ++ chars layout (level + 1) item ++
      itemsChars layout level items
  | .object [] => ['\x7b', '\x7d']
  | .object ((key, value) :: members) =>
    '\x7b' :: layout.lineStart (level + 1) ++ stringChars key ++ layout.colon ++
      chars layout (level + 1) value ++ membersChars layout level members
termination_by structural j => j

/-- The items after the first one and the closing bracket. -/
def itemsChars (layout : Layout) (level : Nat) : List Json → List Char
  | [] => layout.lineStart level ++ [']']
  | item :: items =>
    ',' :: layout.lineStart (level + 1) ++ chars layout (level + 1) item ++
      itemsChars layout level items
termination_by structural items => items

/-- The members after the first one and the closing brace. -/
def membersChars (layout : Layout) (level : Nat) : List (String × Json) → List Char
  | [] => layout.lineStart level ++ ['\x7d']
  | (key, value) :: members =>
    ',' :: layout.lineStart (level + 1) ++ stringChars key ++ layout.colon ++
      chars layout (level + 1) value ++ membersChars layout level members
termination_by structural members => members

end

def render (layout : Layout) (j : Json) : String :=
  String.ofList (j.chars layout 0)

def compact (j : Json) : String :=
  j.render .compact

end MessageFormat.Json
