import MessageFormat.Json.Basic
import MessageFormat.Json.Error

/-!
# Values of a given type

Taking a JSON value for a text, a byte or a word of 32 bits. A number with a point or an exponent
is never taken for an integer, and `null` stands for a value that is missing.
-/

namespace MessageFormat.Json

def found : Json → Found
  | .null => .null
  | .bool b => .bool b
  | .number n => .number n
  | .string s => .text s
  | .array _ => .list
  | .object _ => .object

def mismatch (wanted : Wanted) (j : Json) : DataFault :=
  .wrongType j.found wanted

def asText (j : Json) : Except DataFault String :=
  match j with
  | .string s => .ok s
  | j => .error (j.mismatch .text)

/-- A natural number below `bound`. -/
def asNat (wanted : Wanted) (bound : Nat) (j : Json) : Except DataFault Nat :=
  match j with
  | .number (.int n _) =>
    if 0 ≤ n ∧ n < bound then .ok n.toNat else .error (.outOfRange n wanted)
  | j => .error (j.mismatch wanted)

def asByte (j : Json) : Except DataFault UInt8 :=
  (j.asNat .byte UInt8.size).map UInt8.ofNat

def asWord (j : Json) : Except DataFault UInt32 :=
  (j.asNat .word UInt32.size).map UInt32.ofNat

def asOptional {α : Type} (as : Json → Except DataFault α) (j : Json) :
    Except DataFault (Option α) :=
  match j with
  | .null => .ok none
  | j => (as j).map some

end MessageFormat.Json
