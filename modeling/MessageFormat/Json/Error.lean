import MessageFormat.Text.Quoted
import MessageFormat.Json.Number

/-!
# What can be wrong with a JSON text or value

A fault of syntax says why a text is no JSON; the first four are those of a text that only stops
too early. A fault of data says why a value is not what was asked for. Neither says where: the place
in a text, ` at line L column C` at the end of a message, is left out of all messages.
-/

namespace MessageFormat.Json

inductive SyntaxFault where
  | valueEnd
  | stringEnd
  | listEnd
  | objectEnd
  | valueExpected
  | wordExpected
  | invalidNumber
  | numberOutOfRange
  | controlCharacter
  | invalidEscape
  | loneSurrogate
  | unpairedSurrogate
  | listSeparatorExpected
  | objectSeparatorExpected
  | trailingComma
  | keyExpected
  | colonExpected
  | tooDeep
  | trailingCharacters
deriving DecidableEq, Repr

namespace SyntaxFault

def message : SyntaxFault → String
  | .valueEnd => "EOF while parsing a value"
  | .stringEnd => "EOF while parsing a string"
  | .listEnd => "EOF while parsing a list"
  | .objectEnd => "EOF while parsing an object"
  | .valueExpected => "expected value"
  | .wordExpected => "expected ident"
  | .invalidNumber => "invalid number"
  | .numberOutOfRange => "number out of range"
  | .controlCharacter => "control character (\\u0000-\\u001F) found while parsing a string"
  | .invalidEscape => "invalid escape"
  | .loneSurrogate => "lone leading surrogate in hex escape"
  | .unpairedSurrogate => "unexpected end of hex escape"
  | .listSeparatorExpected => "expected `,` or `]`"
  | .objectSeparatorExpected => "expected `,` or `\x7d`"
  | .trailingComma => "trailing comma"
  | .keyExpected => "key must be a string"
  | .colonExpected => "expected `:`"
  | .tooDeep => "recursion limit exceeded"
  | .trailingCharacters => "trailing characters"

end SyntaxFault

/-- The records that a value can be asked to be. -/
inductive RecordKind where
  | element
  | branch
  | extracted
  | entry
deriving DecidableEq, Repr

namespace RecordKind

def title : RecordKind → String
  | .element => "struct RawElement"
  | .branch => "struct RawOption"
  | .extracted => "struct ExtractedMessage"
  | .entry => "struct CatalogEntry"

/-- The number of fields of a record that is written as an array. -/
def size : RecordKind → Nat
  | .element => 7
  | .branch => 1
  | .extracted => 2
  | .entry => 2

def sizeText (kind : RecordKind) : String :=
  kind.title ++ " with " ++ toString kind.size ++
    if kind.size = 1 then " element" else " elements"

end RecordKind

/-- What was asked for. -/
inductive Wanted where
  | byte
  | word
  | text
  | list
  | object
  | record (kind : RecordKind)
deriving DecidableEq, Repr

namespace Wanted

def message : Wanted → String
  | .byte => "u8"
  | .word => "u32"
  | .text => "a string"
  | .list => "a sequence"
  | .object => "a map"
  | .record kind => kind.title

end Wanted

/-- What stood there instead. -/
inductive Found where
  | null
  | bool (value : Bool)
  | number (value : Number)
  | text (value : String)
  | list
  | object
deriving DecidableEq, Repr

namespace Found

def message : Found → String
  | .null => "null"
  | .bool b => "boolean `" ++ (if b then "true" else "false") ++ "`"
  | .number (.int n _) => "integer `" ++ String.ofList (intChars n) ++ "`"
  | .number (.float x) => "floating point `" ++ String.ofList (doubleChars x) ++ "`"
  | .text s => "string " ++ Text.quoted s
  | .list => "sequence"
  | .object => "map"

end Found

inductive DataFault where
  | wrongType (found : Found) (wanted : Wanted)
  | outOfRange (value : Int) (wanted : Wanted)
  | missingField (name : String)
  | duplicateField (name : String)
  | tooFew (count : Nat) (kind : RecordKind)
  | tooMany (count : Nat)
  | unmatchedStyle
deriving DecidableEq, Repr

namespace DataFault

def message : DataFault → String
  | .wrongType found wanted =>
    "invalid type: " ++ found.message ++ ", expected " ++ wanted.message
  | .outOfRange n wanted =>
    "invalid value: integer `" ++ String.ofList (intChars n) ++ "`, expected " ++ wanted.message
  | .missingField name => "missing field `" ++ name ++ "`"
  | .duplicateField name => "duplicate field `" ++ name ++ "`"
  | .tooFew count kind =>
    "invalid length " ++ toString count ++ ", expected " ++ kind.sizeText
  | .tooMany count =>
    "invalid length " ++ toString count ++ ", expected fewer elements in array"
  | .unmatchedStyle => "data did not match any variant of untagged enum RawStyle"

end DataFault

inductive ReadError where
  | syntaxFault (fault : SyntaxFault)
  | dataFault (fault : DataFault)
deriving DecidableEq, Repr

namespace ReadError

/-- What is wrong, without the line and the column that end the message when a text is read. They
are left out also where such an error is a part of another one. -/
def message : ReadError → String
  | .syntaxFault fault => fault.message
  | .dataFault fault => fault.message

end ReadError

end MessageFormat.Json
