import MessageFormat.FileSystem
import MessageFormat.Json.Layout
import MessageFormat.Toml.Document

/-!
# Configuration

Three settings, each with a default, are taken from a TOML file. Other keys are ignored, but the
file must be TOML and a setting must have its type. No file is the same as an empty one.
-/

namespace MessageFormat

structure Config where
  /-- The file to write when no other is named, relative to the configuration file. -/
  outFile : String
  /-- Whether to write JSON over several lines. -/
  pretty : Bool
  /-- Which events to show. -/
  logFilter : String
deriving DecidableEq, Repr

inductive ConfigError where
  | io (error : IoError)
  | invalid
deriving DecidableEq, Repr

namespace ConfigError

def message : ConfigError → String
  | .io error => "io error: " ++ error.message
  | .invalid => "toml error: invalid configuration"

end ConfigError

namespace Config

def default : Config :=
  ⟨"lang/messages.json", true, "warn"⟩

open Toml (Item)

def text? (key : String) (missing : String) (table : Members Item) : Option String :=
  match Keyed.get? key table with
  | none => some missing
  | some (.value (.string s)) => some s
  | some _ => none

def flag? (key : String) (missing : Bool) (table : Members Item) : Option Bool :=
  match Keyed.get? key table with
  | none => some missing
  | some (.value (.boolean b)) => some b
  | some _ => none

def ofTable? (table : Members Item) : Option Config := do
  let outFile ← text? "out_file" default.outFile table
  let pretty ← flag? "pretty" default.pretty table
  let logFilter ← text? "log_filter" default.logFilter table
  return ⟨outFile, pretty, logFilter⟩

def ofText (text : String) : Except ConfigError Config :=
  match (Toml.ofText? text).bind ofTable? with
  | some config => .ok config
  | none => .error .invalid

/-- The settings in a file, from what reading it gave. -/
def ofFile (content : Except IoError ByteArray) : Except ConfigError Config :=
  match content.bind decodeText with
  | .ok text => ofText text
  | .error error => .error (.io error)

/-- The settings in a file that need not be there. -/
def ofFileOrDefault (content : Except IoError ByteArray) : Except ConfigError Config :=
  match content with
  | .error error => if error.leadsNowhere then .ok default else .error (.io error)
  | content => ofFile content

def layout (config : Config) : Json.Layout :=
  if config.pretty then .pretty else .compact

end Config

end MessageFormat
