import MessageFormat.Config

/-!
# Arguments

After the command come pairs of a flag and its value. The last value of a flag counts, whatever
value stands there is taken, and an input must be named.
-/

namespace MessageFormat

inductive Command where
  | format
  | print
deriving DecidableEq, Repr

inductive Flag where
  | input
  | out
  | config
deriving DecidableEq, Repr

namespace Flag

def name : Flag → String
  | .input => "--input"
  | .out => "--out"
  | .config => "--config"

def ofName? (s : String) : Option Flag :=
  if s = Flag.input.name then some .input
  else if s = Flag.out.name then some .out
  else if s = Flag.config.name then some .config
  else none

end Flag

inductive UsageError where
  | malformed
  | missingValue (flag : Flag)
deriving DecidableEq, Repr

namespace UsageError

def usage : String :=
  "usage: icu-print-cli format --input <extracted.json> [--out <path>] [--config <path>]\n" ++
  "       icu-print-cli print --input <compiled.json> [--out <path>] [--config <path>]"

def message : UsageError → String
  | .malformed => usage
  | .missingValue flag => flag.name ++ " requires a value\n\n" ++ usage

end UsageError

structure Options where
  input : String
  out : Option String
  config : String
deriving DecidableEq, Repr

namespace Options

/-- The values of the flags so far. -/
structure Given where
  input : Option String
  out : Option String
  config : String

def Given.set (given : Given) (value : String) : Flag → Given
  | .input => { given with input := some value }
  | .out => { given with out := some value }
  | .config => { given with config := value }

def readPairs (given : Given) : List String → Except UsageError Given
  | [] => .ok given
  | [arg] =>
    match Flag.ofName? arg with
    | some flag => .error (.missingValue flag)
    | none => .error .malformed
  | arg :: value :: args =>
    match Flag.ofName? arg with
    | some flag => readPairs (given.set value flag) args
    | none => .error .malformed

def ofArguments (args : List String) : Except UsageError Options := do
  let given ← readPairs ⟨none, none, "icu-print.toml"⟩ args
  match given.input with
  | some input => return ⟨input, given.out, given.config⟩
  | none => throw .malformed

/-- Where the output goes: to the path that is named, or else to the configured file, which is
relative to the directory of the configuration file. -/
def outPath (options : Options) (config : Config) : String :=
  match options.out with
  | some out => out
  | none => Path.join ((Path.parent? options.config).getD ".") config.outFile

end Options

/-- A command with its options. -/
structure Invocation where
  command : Command
  options : Options
deriving DecidableEq, Repr

def Invocation.ofArguments : List String → Except UsageError Invocation
  | "format" :: args => (Options.ofArguments args).map fun options => ⟨.format, options⟩
  | "print" :: args => (Options.ofArguments args).map fun options => ⟨.print, options⟩
  | _ => .error .malformed

end MessageFormat
