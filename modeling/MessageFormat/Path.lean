/-!
# Paths

A path is a text whose parts are separated by slashes. The functions here work on the text alone:
they know nothing of what is stored under a path and leave the spelling inside it as it is. Empty
parts and parts that are a single point count for nothing, except that a point at the very start
is a part of its own. The last part is looked for from the end, in the reversed text.
-/

namespace MessageFormat.Path

def splitSlash : List Char → List (List Char)
  | [] => [[]]
  | c :: t =>
    if c = '/' then [] :: splitSlash t
    else match splitSlash t with
      | [] => [[c]]
      | p :: ps => (c :: p) :: ps

theorem splitSlash_ne_nil (t : List Char) : splitSlash t ≠ [] := by
  cases t with
  | nil => simp [splitSlash]
  | cons c t =>
    rw [splitSlash]
    split
    · simp
    · split <;> simp

/-- The parts of a path: no empty ones and no points, and the root as a part of its own. -/
def components (path : String) : List String :=
  let parts := (splitSlash path.toList).filter fun p => p ≠ [] && p ≠ ['.']
  let names := parts.map String.ofList
  if path.toList.head? = some '/' then "/" :: names else names

def isAbsolute (path : String) : Bool :=
  path.toList.head? = some '/'

-- the root or a point at the start is kept whatever is taken off the end
def anchor : List Char → List Char × List Char
  | '/' :: t => (['/'], t)
  | ['.'] => (['.'], [])
  | '.' :: '/' :: t => (['.'], '/' :: t)
  | t => ([], t)

def dropIdle : List Char → List Char
  | '/' :: t => dropIdle t
  | ['.'] => []
  | '.' :: '/' :: t => dropIdle t
  | t => t

def dropPart (t : List Char) : List Char :=
  (t.dropWhile (· ≠ '/')).drop 1

/-- The text before the last part, without slashes and points at its end. The root and the empty
path have none. -/
def parent? (path : String) : Option String :=
  let (start, rest) := anchor path.toList
  match dropIdle rest.reverse with
  | [] => if start = ['.'] then some "" else none
  | t => some (String.ofList (start ++ (dropIdle (dropPart t)).reverse))

def join (base path : String) : String :=
  if isAbsolute path then path
  else if base.toList = [] || base.toList.getLast? = some '/' then base ++ path
  else base ++ "/" ++ path

example : parent? "cfg//x" = some "cfg" := by decide +kernel
example : parent? "/x/." = some "/" := by decide +kernel
example : parent? "./a" = some "." := by decide +kernel
example : parent? "a" = some "" := by decide +kernel
example : parent? "/" = none := by decide +kernel
example : join "cfg" "" = "cfg/" := by decide +kernel

end MessageFormat.Path
