import MessageFormat.Json.Error
import MessageFormat.Json.Numeral

/-!
# Drafts of JSON values

A draft is what can be seen of a JSON text before anything is asked of it: the tree of its values
up to the first place where it breaks off, if there is one. Numerals are not evaluated, escaped
code units are not joined to characters and repeated names are kept. Whoever reads a draft in the
order of the text therefore meets each fault, of syntax or of data, where the text has it.

A flaw says how the text breaks off. Which fault this is depends on the reader: values that are
read and values that are only skipped have different words for some of them.
-/

namespace MessageFormat.Json

inductive Flaw where
  | valueEnd
  | valueExpected
  | wordExpected
  | number
  | numberEnd
  | stringEnd
  | control
  | escapeLetter
  | hexDigit
  | listEnd
  | listSeparator
  | listComma
  | objectEnd
  | objectSeparator
  | objectComma
  | objectCommaEnd
  | keyExpected
  | colonExpected
deriving DecidableEq, Repr

namespace Flaw

/-- The fault for a reader that needs the value. -/
def fault : Flaw → SyntaxFault
  | .valueEnd | .numberEnd | .objectCommaEnd => .valueEnd
  | .valueExpected => .valueExpected
  | .wordExpected => .wordExpected
  | .number => .invalidNumber
  | .stringEnd => .stringEnd
  | .control => .controlCharacter
  | .escapeLetter | .hexDigit => .invalidEscape
  | .listEnd => .listEnd
  | .listSeparator => .listSeparatorExpected
  | .listComma | .objectComma => .trailingComma
  | .objectEnd => .objectEnd
  | .objectSeparator => .objectSeparatorExpected
  | .keyExpected => .keyExpected
  | .colonExpected => .colonExpected

/-- The fault for a reader that passes over the value. -/
def skipFault : Flaw → SyntaxFault
  | .numberEnd => .invalidNumber
  | .listComma => .valueExpected
  | .objectComma => .keyExpected
  | .objectCommaEnd => .objectEnd
  | flaw => flaw.fault

end Flaw

/-- A part of a string: a character, written as such or by a short escape, or an escaped code
unit of 16 bits. -/
inductive Piece where
  | char (c : Char)
  | unit (value : Nat)
deriving DecidableEq, Repr

structure Lexeme where
  pieces : List Piece
  flaw : Option Flaw
deriving DecidableEq, Repr

inductive Draft where
  | null
  | bool (value : Bool)
  | numeral (numeral : Numeral)
  | string (lexeme : Lexeme)
  | array (items : List Draft) (flaw : Option Flaw)
  | object (members : List (Lexeme × Draft)) (flaw : Option Flaw)
  | broken (flaw : Flaw)

end MessageFormat.Json
