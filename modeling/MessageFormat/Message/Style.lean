import MessageFormat.Message.Basic
import MessageFormat.Message.Quoting

/-!
# Written form of argument styles

A skeleton is announced by two colons. The tokens of a number skeleton are separated by one blank
and each carries its options after slashes; a date-time pattern is written as it is. A style given
as text is quoted like a literal outside of plurals.
-/

namespace MessageFormat

namespace SkeletonToken

def chars (token : SkeletonToken) : List Char :=
  token.stem.toList ++ token.options.flatMap fun option => '/' :: option.toList

def render (token : SkeletonToken) : String :=
  String.ofList token.chars

end SkeletonToken

namespace ArgStyle

def chars : ArgStyle → List Char
  | .text t => Quoting.escape false t.toList
  | .number tokens => ':' :: ':' :: List.intercalate [' '] (tokens.map SkeletonToken.chars)
  | .dateTime pattern => ':' :: ':' :: pattern.toList

def render (style : ArgStyle) : String :=
  String.ofList style.chars

end ArgStyle

end MessageFormat
