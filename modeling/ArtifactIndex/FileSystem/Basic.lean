import ArtifactIndex.FileSystem.Path
import ArtifactIndex.Sorting
import ArtifactIndex.Text.Utf8
/-!
A file system held in memory: regular files with content, modification time and mode, and
directories. An entry stands under its location, the names that lead to it from the working
directory. Paths are walked name by name, so a missing directory and a file in the way are told
apart.
-/

set_option autoImplicit false

namespace ArtifactIndex

open Text (Bytes)

abbrev Location := List String

/-- Times in milliseconds. -/
abbrev Timestamp := Int

/-- The nine permission bits. -/
abbrev Mode := BitVec 9

structure File where
  content : Bytes
  modified : Timestamp
  mode : Mode
  deriving DecidableEq, Repr

inductive Entry where
  | file (f : File)
  | directory (mode : Mode)
  deriving DecidableEq, Repr

/-- The directory that relative paths start from. `base` is the location by which it is shown, and
`size` the number of bytes that its absolute path takes. -/
structure WorkingDirectory where
  base : Location
  size : Nat
  mode : Mode
  deriving DecidableEq, Repr

/-- `entries` holds what lies below the working directory, and `now` is the time given to what is
written. -/
structure FileSystem where
  entries : List (Location × Entry)
  working : WorkingDirectory
  now : Timestamp

namespace FileSystem

inductive Fault where
  | notFound
  | notADirectory
  | isADirectory
  | nameTooLong
  | invalidName
  deriving DecidableEq, Repr

def directoryMode : Mode := 0o755#9

def fileMode : Mode := 0o644#9

/-! ### Entries -/

def entryAt (fs : FileSystem) (loc : Location) : Option Entry :=
  if loc = [] then some (.directory fs.working.mode) else fs.entries.lookup loc

def fileAt (fs : FileSystem) (loc : Location) : Option File :=
  match fs.entryAt loc with
  | some (.file f) => some f
  | _ => none

def erase (fs : FileSystem) (loc : Location) : FileSystem :=
  { fs with entries := fs.entries.filter (·.1 ≠ loc) }

def put (fs : FileSystem) (loc : Location) (e : Entry) : FileSystem :=
  { fs with entries := (loc, e) :: fs.entries.filter (·.1 ≠ loc) }

/-! ### Walking -/

/-- The longest name, in bytes. -/
def nameLimit : Nat := 255

/-- The longest path that a call accepts, in bytes. -/
def pathLimit : Nat := 4095

def isTooLong (name : String) : Bool :=
  nameLimit < name.utf8ByteSize

/-- One name further; two dots lead back. -/
def next (dir : Location) (name : String) : Location :=
  if name = "." then dir
  else if name = ".." then dir.dropLast
  else dir ++ [name]

/-- The location that the names lead to; all but the last must be directories. -/
def walk (fs : FileSystem) (dir : Location) : List String → Except Fault Location
  | [] => .ok dir
  | name :: rest =>
    if isTooLong name then .error .nameTooLong
    else if rest = [] then .ok (next dir name)
    else
      match fs.entryAt (next dir name) with
      | none => .error .notFound
      | some (.file _) => .error .notADirectory
      | some (.directory _) => walk fs (next dir name) rest

/-- Paths that no call accepts. -/
def checkPath (path : String) : Except Fault Unit :=
  if path.toList.contains (Char.ofNat 0) then .error .invalidName
  else if path = "" then .error .notFound
  else if pathLimit < path.utf8ByteSize then .error .nameTooLong
  else .ok ()

/-- The number of bytes of the absolute path that a relative path stands for. -/
def absoluteSize (fs : FileSystem) (path : String) : Nat :=
  fs.working.size + 1 + path.utf8ByteSize

def locate (fs : FileSystem) (path : String) : Except Fault Location :=
  match checkPath path with
  | .error fault => .error fault
  | .ok () => fs.walk [] (Path.names path)

/-- What a path names; a path that ends in a separator names no file. -/
def find (fs : FileSystem) (path : String) : Except Fault (Location × Entry) :=
  match fs.locate path with
  | .error fault => .error fault
  | .ok loc =>
    match fs.entryAt loc with
    | none => .error .notFound
    | some (.file f) =>
      if Path.endsInSeparator path then .error .notADirectory else .ok (loc, .file f)
    | some e => .ok (loc, e)

/-! ### Queries -/

def isFile (fs : FileSystem) (path : String) : Bool :=
  match fs.find path with
  | .ok (_, .file _) => true
  | _ => false

def read (fs : FileSystem) (path : String) : Except Fault Bytes :=
  match fs.find path with
  | .ok (_, .file f) => .ok f.content
  | .ok (_, .directory _) => .error .isADirectory
  | .error fault => .error fault

/-- When a path was last modified, `none` if nothing is there. -/
def modified? (fs : FileSystem) (path : String) : Except Fault (Option Timestamp) :=
  match fs.find path with
  | .ok (_, .file f) => .ok (some f.modified)
  | .ok (_, .directory _) => .ok (some fs.now)
  | .error .notFound => .ok none
  | .error fault => .error fault

def mode (fs : FileSystem) (path : String) : Except Fault Mode :=
  match fs.find path with
  | .ok (_, .file f) => .ok f.mode
  | .ok (_, .directory mode) => .ok mode
  | .error fault => .error fault

/-- The absolute location of what a path names; its own path must not be too long either. -/
def canonical (fs : FileSystem) (path : String) : Except Fault Location :=
  match fs.find path with
  | .error fault => .error fault
  | .ok (loc, _) =>
    if pathLimit < fs.absoluteSize ("/".intercalate loc) then .error .nameTooLong
    else .ok (fs.working.base ++ loc)

/-- The relative paths of all files, sorted. -/
def listing (fs : FileSystem) : List String :=
  sortBy compare (fs.entries.filterMap fun (loc, e) ↦
    match e with
    | .file _ => some ("/".intercalate loc)
    | .directory _ => none)

/-! ### Changes -/

/-- Removes a file; whether there was one. -/
def remove (fs : FileSystem) (path : String) : Except Fault Bool × FileSystem :=
  match fs.find path with
  | .ok (loc, .file _) => (.ok true, fs.erase loc)
  | .ok (_, .directory _) => (.error .isADirectory, fs)
  | .error .notFound => (.ok false, fs)
  | .error fault => (.error fault, fs)

/-- Makes the directories that are missing on the way; those made before a fault stay. -/
def makeDirectories (fs : FileSystem) (dir : Location) :
    List String → Except Fault Location × FileSystem
  | [] => (.ok dir, fs)
  | name :: rest =>
    if isTooLong name then (.error .nameTooLong, fs)
    else
      match fs.entryAt (next dir name) with
      | some (.directory _) => fs.makeDirectories (next dir name) rest
      | some (.file _) => (.error .notADirectory, fs)
      | none =>
        (fs.put (next dir name) (.directory directoryMode)).makeDirectories (next dir name) rest

/-- Makes the directory that a path names and those above it; the empty path names the working
directory. A path that ends in a dot asks for a directory that is there already, so only those above
it are made. -/
def createDirectory (fs : FileSystem) (path : String) : Except Fault Location × FileSystem :=
  if path = "" then (.ok [], fs)
  else
    match checkPath path with
    | .error fault => (.error fault, fs)
    | .ok () =>
      if Path.endsInDot path then
        match fs.makeDirectories [] (Path.components path).dropLast with
        | (.error fault, fs) => (.error fault, fs)
        | (.ok _, fs) =>
          match fs.find path with
          | .ok (loc, .directory _) => (.ok loc, fs)
          | .ok (_, .file _) => (.error .notADirectory, fs)
          | .error fault => (.error fault, fs)
      else fs.makeDirectories [] (Path.components path)

/-- Writes a file in place. A new file gets the usual mode, an existing one keeps its own. -/
def write (fs : FileSystem) (path : String) (content : Bytes) : Except Fault Unit × FileSystem :=
  match fs.locate path with
  | .error fault => (.error fault, fs)
  | .ok loc =>
    match fs.entryAt loc with
    | some (.directory _) => (.error .isADirectory, fs)
    | some (.file f) =>
      if Path.endsInSeparator path then (.error .notADirectory, fs)
      else (.ok (), fs.put loc (.file ⟨content, fs.now, f.mode⟩))
    | none =>
      if Path.endsInSeparator path then (.error .isADirectory, fs)
      else (.ok (), fs.put loc (.file ⟨content, fs.now, fileMode⟩))

def setMode (fs : FileSystem) (path : String) (mode : Mode) : Except Fault Unit × FileSystem :=
  match fs.find path with
  | .ok (loc, .file f) => (.ok (), fs.put loc (.file { f with mode := mode }))
  | .ok ([], .directory _) => (.ok (), { fs with working := { fs.working with mode := mode } })
  | .ok (loc, .directory _) => (.ok (), fs.put loc (.directory mode))
  | .error fault => (.error fault, fs)

def setModified (fs : FileSystem) (path : String) (time : Timestamp) :
    Except Fault Unit × FileSystem :=
  match fs.find path with
  | .ok (loc, .file f) => (.ok (), fs.put loc (.file { f with modified := time }))
  | .ok _ => (.ok (), fs)
  | .error fault => (.error fault, fs)

end FileSystem
end ArtifactIndex
