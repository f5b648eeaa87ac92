import MessageFormat.Command.Run

/-!
# The command line

Runs on the files of the machine. An error goes to the standard error stream, and the status tells
whether there was one.
-/

namespace MessageFormat.Machine

/-- The cause of a failure as the machine reports it. -/
def cause : IO.Error → IoError
  | .noFileOrDirectory .. => .notFound
  | .alreadyExists .. => .alreadyExists
  | .inappropriateType _ 21 _ => .isDirectory
  | .inappropriateType .. => .notDirectory
  | .invalidArgument _ 22 _ => .nulInPath
  | .invalidArgument _ code text =>
    if code = 36 || code = -36 then .nameTooLong else .other text
  | error => .other (toString error)

def attempt {α : Type} (action : IO α) : IO (Except IoError α) := do
  match ← action.toBaseIO with
  | .ok a => return .ok a
  | .error error => return .error (cause error)

def isDirectory (path : String) : IO Bool := do
  match ← (IO.FS.realPath path).toBaseIO with
  | .ok place => place.isDir
  | .error _ => return false

def makeDirectory (path : String) : IO Unit := do
  try IO.FS.createDir path
  catch error => unless ← isDirectory path do throw error

/-- Makes a directory and those before it that are missing, at most `fuel` of them. -/
def makeChain : Nat → String → IO Unit
  | 0, _ => pure ()
  | fuel + 1, path =>
    if path = "" then pure ()
    else
      try makeDirectory path
      catch
        | .noFileOrDirectory name code text =>
          match Path.parent? path with
          | none => throw (.noFileOrDirectory name code text)
          | some parent => do
            makeChain fuel parent
            makeDirectory path
        | error => throw error

def write (job : Job) : IO Unit := do
  match Path.parent? job.path with
  | some parent => makeChain (parent.length + 1) parent
  | none => pure ()
  IO.FS.writeFile job.path (fileText job.layout job.output)

def run (args : List String) : IO (Except RunError Unit) := do
  match ← prepare (fun path => attempt (IO.FS.readBinFile path)) args with
  | .error error => return .error error
  | .ok job =>
    match ← attempt (write job) with
    | .ok () => return .ok ()
    | .error error => return .error (.failed job.command (.output error))

end MessageFormat.Machine

def main (args : List String) : IO UInt32 := do
  match ← MessageFormat.Machine.run args with
  | .ok () => return 0
  | .error error =>
    IO.eprintln error.message
    return 1
