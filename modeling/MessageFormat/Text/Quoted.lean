import MessageFormat.Text.Hidden

/-!
# Quoted text

The form in which an error shows a text: between quotes, with a backslash before a quote or a
backslash, the usual short escapes for four controls, and every other hidden character by its code
point in braces.
-/

namespace MessageFormat.Text

def quotedChar (c : Char) : List Char :=
  if c = '\x00' then ['\\', '0']
  else if c = '\t' then ['\\', 't']
  else if c = '\r' then ['\\', 'r']
  else if c = '\n' then ['\\', 'n']
  else if c = '\\' then ['\\', '\\']
  else if c = '"' then ['\\', '"']
  else if isHidden c then ['\\', 'u', '\x7b'] ++ Nat.toDigits 16 c.toNat ++ ['\x7d']
  else [c]

def quoted (s : String) : String :=
  String.ofList ('"' :: s.toList.flatMap quotedChar ++ ['"'])

end MessageFormat.Text
