import MessageFormat.Keyed
import MessageFormat.Path

/-!
# Files and directories

A file system is a current directory and what is stored at which location. There are directories
and files and no links. A path is followed from part to part: everything before its last part must
be a directory that exists, and so must whatever is followed by a slash. Paths and the names in
them have a greatest length. Reading changes nothing, and an operation that fails leaves everything
as it was, except that making a chain of directories keeps those it has made.
-/

namespace MessageFormat

inductive IoError where
  | notFound
  | alreadyExists
  | notDirectory
  | isDirectory
  | nameTooLong
  | nulInPath
  | notText
  | other (text : String)
deriving DecidableEq, Repr

namespace IoError

def message : IoError → String
  | .notFound => "No such file or directory (os error 2)"
  | .alreadyExists => "File exists (os error 17)"
  | .notDirectory => "Not a directory (os error 20)"
  | .isDirectory => "Is a directory (os error 21)"
  | .nameTooLong => "File name too long (os error 36)"
  | .nulInPath => "file name contained an unexpected NUL byte"
  | .notText => "stream did not contain valid UTF-8"
  | .other text => text

def leadsNowhere : IoError → Bool
  | .notFound | .notDirectory | .nameTooLong | .nulInPath => true
  | _ => false

end IoError

def decodeText (content : ByteArray) : Except IoError String :=
  match String.fromUTF8? content with
  | some text => .ok text
  | none => .error .notText

abbrev Location := List String

inductive Entry where
  | directory
  | file (content : ByteArray)

structure FileSystem where
  current : Location
  entries : Keyed Location Entry

namespace FileSystem

/-- What is stored at a location; the root is always a directory. -/
def entry? (fs : FileSystem) (loc : Location) : Option Entry :=
  if loc = [] then some .directory else Keyed.get? loc fs.entries

def isDirectory (fs : FileSystem) (loc : Location) : Bool :=
  match fs.entry? loc with
  | some .directory => true
  | _ => false

def put (fs : FileSystem) (loc : Location) (entry : Entry) : FileSystem :=
  { fs with entries := Keyed.set loc entry fs.entries }

def maxName : Nat := 255

def maxPath : Nat := 4095

/-- Where a path leads: to something, or to a name that is free in a directory. -/
inductive Target where
  | found (loc : Location) (entry : Entry)
  | free (loc : Location)

def follow (fs : FileSystem) (loc : Location) : List String → Except IoError Target
  | [] =>
    match fs.entry? loc with
    | some entry => .ok (.found loc entry)
    | none => .error .notFound
  | part :: parts =>
    if !fs.isDirectory loc then .error .notDirectory
    else if part = "" ∨ part = "." then fs.follow loc parts
    else if part = ".." then fs.follow loc.dropLast parts
    else if maxName < part.utf8ByteSize then .error .nameTooLong
    else
      let next := loc ++ [part]
      match fs.entry? next with
      | some _ => fs.follow next parts
      | none => if parts.all (· = "") then .ok (.free next) else .error .notFound

/-- The parts of a path that can be followed at all. The length counts as it is written, with
all that leads nowhere new. -/
def parts (path : String) : Except IoError (List String) :=
  if path.toList.contains '\x00' then .error .nulInPath
  else if maxPath < path.utf8ByteSize then .error .nameTooLong
  else if path = "" then .error .notFound
  else .ok ((Path.splitSlash path.toList).map String.ofList)

def start (fs : FileSystem) (path : String) : Location :=
  if Path.isAbsolute path then [] else fs.current

def target (fs : FileSystem) (path : String) : Except IoError Target :=
  (parts path).bind (fs.follow (fs.start path))

def readFile (fs : FileSystem) (path : String) : Except IoError ByteArray :=
  match fs.target path with
  | .ok (.found _ (.file content)) => .ok content
  | .ok (.found _ .directory) => .error .isDirectory
  | .ok (.free _) => .error .notFound
  | .error e => .error e

def leadsToDirectory (fs : FileSystem) (path : String) : Bool :=
  match fs.target path with
  | .ok (.found _ .directory) => true
  | _ => false

def makeDirectory (fs : FileSystem) (path : String) : Except IoError FileSystem :=
  match fs.target path with
  | .ok (.found ..) => .error .alreadyExists
  | .ok (.free loc) => .ok (fs.put loc .directory)
  | .error e => .error e

/-- Makes a directory and those before it that are missing, at most `fuel` of them. -/
def makeChain : Nat → FileSystem → String → Except IoError Unit × FileSystem
  | 0, fs, _ => (.ok (), fs)
  | fuel + 1, fs, path =>
    if path = "" then (.ok (), fs)
    else match fs.makeDirectory path with
      | .ok fs => (.ok (), fs)
      | .error .notFound =>
        match Path.parent? path with
        | none => (.error .notFound, fs)
        | some parent =>
          match makeChain fuel fs parent with
          | (.error e, fs) => (.error e, fs)
          | (.ok (), fs) =>
            match fs.makeDirectory path with
            | .ok fs => (.ok (), fs)
            | .error e => if fs.leadsToDirectory path then (.ok (), fs) else (.error e, fs)
      | .error e => if fs.leadsToDirectory path then (.ok (), fs) else (.error e, fs)

/-- Makes a directory and those before it that are missing. A path has fewer parts than
characters. -/
def makeDirectories (fs : FileSystem) (path : String) : Except IoError Unit × FileSystem :=
  makeChain (path.toList.length + 1) fs path

/-- The parts to be followed before a file is written. If a slash stands at the end, the last name
is not looked at: what holds it is a directory, and a directory is no file. -/
def writtenParts (parts : List String) : List String :=
  if parts.getLast? = some "" then ((parts.reverse.dropWhile (· = "")).drop 1).reverse ++ ["."]
  else parts

def writeFile (fs : FileSystem) (path : String) (content : ByteArray) :
    Except IoError FileSystem :=
  match (parts path).bind fun parts => fs.follow (fs.start path) (writtenParts parts) with
  | .ok (.found _ .directory) => .error .isDirectory
  | .ok (.found loc (.file _)) | .ok (.free loc) => .ok (fs.put loc (.file content))
  | .error e => .error e

/-- Writes a file after making the directories that its path needs. -/
def writeNested (fs : FileSystem) (path : String) (content : ByteArray) :
    Except IoError Unit × FileSystem :=
  let (made, fs) := match Path.parent? path with
    | some parent => fs.makeDirectories parent
    | none => (.ok (), fs)
  match made with
  | .error e => (.error e, fs)
  | .ok () =>
    match fs.writeFile path content with
    | .ok fs => (.ok (), fs)
    | .error e => (.error e, fs)

end FileSystem

end MessageFormat
