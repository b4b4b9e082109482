import TimeTrials.Host.Fault
import TimeTrials.Text.Utf8

/-!
# Files

The part of a file system that the program can see: files, directories, two devices, and the places
where programs are installed.  An entry is found under the components of its absolute path.

A path is followed component by component, and every step needs a directory to take it from; nothing is
simplified beforehand, so a path through something that does not exist leads nowhere even if it comes
back later.  A path that ends in a slash means a directory.
-/

namespace TimeTrials.Host

open Text (Bytes)

/-- What can be found under a path. -/
inductive Entry where
  | file (content : Bytes)
  | directory
  /-- The device that is always empty and takes anything. -/
  | null
  /-- The device that takes nothing. -/
  | full
  /-- An installed program. -/
  | program (name : String)
  deriving DecidableEq

/-- The components of an absolute path. -/
abbrev Location := List String

/-- Entries by location, and where relative paths start. -/
structure FileSystem where
  workingDir : Location
  entries : List (Location × Entry)
  deriving DecidableEq

namespace FileSystem

/-- The entry at a location; the root is always there. -/
def lookup (fs : FileSystem) : Location → Option Entry
  | [] => some .directory
  | location => fs.entries.lookup location

/-- Puts an entry at a location, in place of the one that is there. -/
def insert (fs : FileSystem) (location : Location) (entry : Entry) : FileSystem :=
  if (fs.entries.lookup location).isSome then
    { fs with
      entries := fs.entries.map fun (l, e) => if l = location then (l, entry) else (l, e) }
  else { fs with entries := fs.entries ++ [(location, entry)] }

/-! ## Paths -/

/-- Where a path leads. -/
inductive Target where
  | existing (location : Location) (entry : Entry)
  /-- Nothing is there, but the directory is in which it would be; `asDirectory` if the path means a
  directory. -/
  | missing (location : Location) (asDirectory : Bool)
  deriving DecidableEq

/-- How many bytes a name can have. -/
def nameLimit : Nat := 255

/-- How many bytes a path can have. -/
def pathLimit : Nat := 4095

/-- Follows components from a location with the given entry. -/
def walk (fs : FileSystem) (location : Location) (entry : Entry) :
    List String → Except SystemFault Target
  | [] => .ok (.existing location entry)
  | component :: rest =>
    if entry ≠ .directory then .error .notADirectory
    else if nameLimit < component.utf8ByteSize then .error .nameTooLong
    else if component = "" ∨ component = "." then walk fs location entry rest
    else if component = ".." then walk fs location.dropLast .directory rest
    else
      match fs.lookup (location ++ [component]) with
      | some entry' => walk fs (location ++ [component]) entry' rest
      | none =>
        if rest.all (·.isEmpty) then .ok (.missing (location ++ [component]) (!rest.isEmpty))
        else .error .notFound

/-- The components of a path. -/
def components (path : String) : List String :=
  (path.toList.splitOn '/').map String.ofList

/-- Follows a path. -/
def resolve (fs : FileSystem) (path : String) : Except SystemFault Target :=
  if path.toList.contains '\x00' then .error .nulInPath
  else if pathLimit < path.utf8ByteSize then .error .nameTooLong
  else
    match path.toList with
    | [] => .error .notFound
    | '/' :: _ => fs.walk [] .directory (components path)
    | _ => fs.walk fs.workingDir .directory (components path)

/-! ## Reading -/

/-- Opens what a path leads to. -/
def open? (fs : FileSystem) (path : String) : Except SystemFault Entry := do
  match ← fs.resolve path with
  | .existing _ entry => return entry
  | .missing _ _ => throw .notFound

end FileSystem

/-- The content of an entry that has been opened. -/
def Entry.content : Entry → Except SystemFault Bytes
  | .file content => .ok content
  | .null => .ok []
  | .full => .ok []
  | .directory => .error .isADirectory
  | .program _ => .error .permissionDenied

namespace FileSystem

/-- The content under a path. -/
def read (fs : FileSystem) (path : String) : Except SystemFault Bytes := do
  (← fs.open? path).content

/-! ## Writing -/

/-- An open file, and how far it has been written. -/
structure Handle where
  location : Location
  offset : Nat
  deriving DecidableEq

/-- Opens a file for writing.  It is made if it is not there, and emptied if it is. -/
def create (fs : FileSystem) (path : String) : Except SystemFault (FileSystem × Handle) := do
  match ← fs.resolve path with
  | .missing location false => return (fs.insert location (.file []), ⟨location, 0⟩)
  | .missing _ true => throw .isADirectory
  | .existing location (.file _) => return (fs.insert location (.file []), ⟨location, 0⟩)
  | .existing location .null => return (fs, ⟨location, 0⟩)
  | .existing location .full => return (fs, ⟨location, 0⟩)
  | .existing _ .directory => throw .isADirectory
  | .existing _ (.program _) => throw .permissionDenied

/-- The content after bytes are written at an offset; a gap before them is filled with zeros. -/
def splice (content : Bytes) (offset : Nat) (bytes : Bytes) : Bytes :=
  content.take offset ++ List.replicate (offset - content.length) 0 ++ bytes
    ++ content.drop (offset + bytes.length)

/-- Writes bytes where an open file stands. -/
def write (fs : FileSystem) (handle : Handle) (bytes : Bytes) :
    Except SystemFault (FileSystem × Handle) :=
  let moved := { handle with offset := handle.offset + bytes.length }
  match fs.lookup handle.location with
  | some (.file content) =>
    .ok (fs.insert handle.location (.file (splice content handle.offset bytes)), moved)
  | some .full => .error .noSpace
  | _ => .ok (fs, moved)

/-! ## Preparing -/

/-- Makes a directory and those above it. -/
def makeDirectories (fs : FileSystem) (location : Location) : FileSystem :=
  (List.range location.length).foldl
    (fun fs n =>
      let above := location.take (n + 1)
      if (fs.lookup above).isSome then fs else fs.insert above .directory) fs

/-- Where a path leads if nothing on it needs to be there. -/
def locate (fs : FileSystem) (path : String) : Location :=
  let start := if path.toList.head? = some '/' then [] else fs.workingDir
  (components path).foldl
    (fun location component =>
      if component = "" ∨ component = "." then location
      else if component = ".." then location.dropLast
      else location ++ [component]) start

/-- Puts a file under a path, and makes the directories on the way. -/
def put (fs : FileSystem) (path : String) (content : Bytes) : FileSystem :=
  let location := fs.locate path
  (fs.makeDirectories location.dropLast).insert location (.file content)

/-- The files below the working directory, by the paths that lead to them from there. -/
def files (fs : FileSystem) : List (String × Bytes) :=
  fs.entries.filterMap fun (location, entry) =>
    match entry with
    | .file content =>
      if fs.workingDir.isPrefixOf location then
        some ("/".intercalate (location.drop fs.workingDir.length), content)
      else none
    | _ => none

/-- The programs that are installed. -/
def installed : List String :=
  ["sh", "dash", "echo", "printf", "true", "false", "cat", "test", "[", "sleep", "seq", "env"]

/-- The directories that are searched for programs. -/
def searchPath : List Location := [["usr", "bin"], ["bin"]]

/-- A system with an empty working directory. -/
def empty : FileSystem where
  workingDir := ["tmp", "work"]
  entries :=
    [(["dev"], .directory), (["dev", "null"], .null), (["dev", "full"], .full),
      (["etc"], .directory), (["usr"], .directory), (["tmp"], .directory),
      (["tmp", "work"], .directory)]
    ++ searchPath.map (·, .directory)
    ++ searchPath.flatMap fun dir => installed.map fun name => (dir ++ [name], .program name)

end FileSystem
end TimeTrials.Host
