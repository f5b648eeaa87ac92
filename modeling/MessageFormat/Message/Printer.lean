import MessageFormat.Message.Style
import MessageFormat.Text.Blank

/-!
# The printer of messages

A block opens on a line of its own, `select` after one blank and the plurals after two, and every
branch of it takes a further line. What stands around a node matters in two ways, both held by its
`Scope`: pound signs in text are quoted in the body of a plural, and the branches of a block are
indented by two more blanks when the block lies in a body of the other kind. Tags change neither.
-/

namespace MessageFormat

/-- Where a node stands: which kind of block has it in a body, looking through tags. -/
inductive Scope where
  | message
  | selectBody
  | pluralBody
deriving DecidableEq, Repr

namespace Scope

def inPlural (s : Scope) : Bool :=
  s = .pluralBody

/-- What is put before the branches of a block that stands in `outer` and opens bodies of scope
`inner`. -/
def indent (outer inner : Scope) : List Char :=
  match outer, inner with
  | .pluralBody, .selectBody | .selectBody, .pluralBody => [' ', ' ']
  | _, _ => []

end Scope

/-- The written offset of a plural; an offset of zero is not written. -/
def offsetChars : Option UInt32 → List Char
  | none => []
  | some n => if n = 0 then [] else "offset:".toList ++ Nat.toDigits 10 n.toNat

/-- The separator before the last part of a block's header: no blank follows the comma when that
part starts on a new line. -/
def headerSeparator : List Char → List Char
  | '\n' :: _ => [',']
  | _ => [',', ' ']

/-- A block from what it opens with, its argument, its keyword and its offset and branches. -/
def blockChars (opening name keyword : String) (tail : List Char) : List Char :=
  opening.toList ++ name.toList ++ [',', ' '] ++ keyword.toList ++ headerSeparator tail ++ tail ++
    ['}']

def formattedChars (format : ArgFormat) (name : String) (style : Option ArgStyle) : List Char :=
  '{' :: name.toList ++ [',', ' '] ++ format.keyword.toList ++
    (match style with
      | none => []
      | some style => [',', ' '] ++ style.chars) ++ ['}']

mutual

def Node.chars (scope : Scope) : Node → List Char
  | .literal text => Quoting.escape scope.inPlural text.toList
  | .argument name => '{' :: name.toList ++ ['}']
  | .formatted format name style => formattedChars format name style
  | .pound => ['#']
  | .plural name kind offset branches =>
    blockChars "\n  \x7b" name kind.keyword
      (offsetChars offset ++ Branches.chars .pluralBody (scope.indent .pluralBody) branches)
  | .select name branches =>
    blockChars "\n \x7b" name "select"
      (Branches.chars .selectBody (scope.indent .selectBody) branches)
  | .tag name children =>
    '<' :: name.toList ++ ['>'] ++ Message.chars scope children ++
      ['<', '/'] ++ name.toList ++ ['>']
termination_by structural node => node

def Message.chars (scope : Scope) : List Node → List Char
  | [] => []
  | node :: nodes => node.chars scope ++ Message.chars scope nodes
termination_by structural nodes => nodes

def Branches.chars (scope : Scope) (indent : List Char) : List (String × List Node) → List Char
  | [] => []
  | (key, body) :: branches =>
    ['\n', ' '] ++ indent ++ key.toList ++ [' ', '{'] ++ Message.chars scope body ++ ['}'] ++
      Branches.chars scope indent branches
termination_by structural branches => branches

end

/-- The text of a message, without the blanks at its ends. -/
def Message.print (message : Message) : String :=
  String.ofList (Text.trim (Message.chars .message message))

@[simp] theorem Message.chars_append (scope : Scope) (m n : Message) :
    Message.chars scope (m ++ n) = Message.chars scope m ++ Message.chars scope n := by
  induction m with
  | nil => rfl
  | cons node m ih => simp [Message.chars, ih]

@[simp] theorem Branches.chars_append (scope : Scope) (indent : List Char) (bs cs : Branches) :
    Branches.chars scope indent (bs ++ cs) =
      Branches.chars scope indent bs ++ Branches.chars scope indent cs := by
  induction bs with
  | nil => rfl
  | cons b bs ih => simp [Branches.chars, ih]

end MessageFormat
