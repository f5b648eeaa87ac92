import MessageFormat.Catalog.Format
import MessageFormat.Command.Arguments

/-!
# Runs

A run reads the configuration and the input, makes one value of them and writes it to a file. All
that is read is read before anything is written, so a run that fails earlier leaves everything as it
was. What is read and what is made of it does not depend on where files are: the part that writes
comes in two forms, one for a file system as a value and one for the machine.
-/

namespace MessageFormat

inductive CommandError where
  | input (error : IoError)
  | catalog (error : CatalogError)
  | output (error : IoError)
deriving DecidableEq, Repr

namespace CommandError

def message : CommandError → String
  | .input error => "io error: " ++ error.message
  | .catalog error => error.message
  | .output error => "output error: io error: " ++ error.message

end CommandError

inductive RunError where
  | usage (error : UsageError)
  | config (error : ConfigError)
  | failed (command : Command) (error : CommandError)
deriving DecidableEq, Repr

namespace RunError

def message : RunError → String
  | .usage error => error.message
  | .config error => "config error: " ++ error.message
  | .failed _ error => error.message

end RunError

def fileText (layout : Json.Layout) (j : Json) : String :=
  j.render layout ++ "\n"

def Command.output : Command → String → Except CatalogError Json
  | .format, text => do
    let messages ← (ExtractedMessage.ofText text).mapError .unreadable
    let catalog ← (formatCatalog MessageParser.unsupported Hoister.unchanged messages).outcome
    return catalog.toJson CatalogEntry.toJson
  | .print, text => do
    let trees ← (readTrees text).mapError .unreadable
    let catalog ← (printTrees trees).outcome
    return catalog.toJson Json.string

structure Job where
  command : Command
  path : String
  layout : Json.Layout
  output : Json

/-- The file of an invocation, from what reading its input gave. -/
def Invocation.job (invocation : Invocation) (config : Config)
    (input : Except IoError ByteArray) : Except RunError Job :=
  match input.bind decodeText with
  | .error error => .error (.failed invocation.command (.input error))
  | .ok text =>
    match invocation.command.output text with
    | .error error => .error (.failed invocation.command (.catalog error))
    | .ok j =>
      .ok ⟨invocation.command, invocation.options.outPath config, config.layout, j⟩

/-- The file that a run is to write, given how files are read. -/
def prepare {m : Type → Type} [Monad m] (read : String → m (Except IoError ByteArray))
    (args : List String) : m (Except RunError Job) :=
  match Invocation.ofArguments args with
  | .error error => pure (.error (.usage error))
  | .ok invocation => do
    match Config.ofFileOrDefault (← read invocation.options.config) with
    | .error error => return .error (.config error)
    | .ok config => return invocation.job config (← read invocation.options.input)

namespace FileSystem

def writeJson (fs : FileSystem) (path : String) (layout : Json.Layout) (j : Json) :
    Except IoError Unit × FileSystem :=
  fs.writeNested path (fileText layout j).toUTF8

def run (fs : FileSystem) (args : List String) : Except RunError Unit × FileSystem :=
  match Id.run (prepare (fun path => pure (fs.readFile path)) args) with
  | .error error => (.error error, fs)
  | .ok job =>
    match fs.writeJson job.path job.layout job.output with
    | (.ok (), fs) => (.ok (), fs)
    | (.error error, fs) => (.error (.failed job.command (.output error)), fs)

end FileSystem

end MessageFormat
