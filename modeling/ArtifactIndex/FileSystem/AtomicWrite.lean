import ArtifactIndex.FileSystem.Basic
import ArtifactIndex.Error
/-!
Replacing a file as a whole. The new content goes into a temporary file beside the target, which is
then renamed over it, so at no time is there a file with part of the content. A file that was there
before passes its mode on.
-/

set_option autoImplicit false

namespace ArtifactIndex.FileSystem

open Text (Bytes)

/-- The mode of temporary files. -/
def privateMode : Mode := 0o600#9

/-- The bytes of the name of a temporary file. -/
def temporarySize : Nat := 10

/-- A temporary file is made under its absolute path, which must not be too long. -/
def hasRoom (fs : FileSystem) (directory : String) : Bool :=
  fs.absoluteSize directory + 1 + temporarySize ≤ pathLimit

def longestName (fs : FileSystem) : Nat :=
  fs.entries.foldl (fun n (loc, _) ↦ max n ((loc.getLast?.map String.length).getD 0)) 0

/-- A name longer than every name in use, hence free in every directory. -/
def temporaryName (fs : FileSystem) : String :=
  String.ofList ('.' :: List.replicate fs.longestName 't')

/-- Renames a file over whatever file is at the path. -/
def rename (fs : FileSystem) (source : Location) (path : String) :
    Except Fault Unit × FileSystem :=
  match fs.fileAt source, fs.locate path with
  | none, _ => (.error .notFound, fs)
  | _, .error fault => (.error fault, fs)
  | some f, .ok loc =>
    match fs.entryAt loc with
    | some (.directory _) => (.error .isADirectory, fs)
    | _ =>
      if Path.endsInSeparator path then (.error .notADirectory, fs)
      else (.ok (), (fs.erase source).put loc (.file f))

/-- Gives the path its former mode again, if it had one. -/
def restoreMode (fs : FileSystem) (path : String) : Except Fault Mode → FileSystem
  | .ok mode => (fs.setMode path mode).2
  | .error _ => fs

/-- Writes into a temporary file in `dir` and puts that in the place of the target. -/
def replaceVia (fs : FileSystem) (dir : Location) (path : String) (content : Bytes) :
    Except Error Unit × FileSystem :=
  let former := fs.mode path
  let temporary := dir ++ [fs.temporaryName]
  let written := fs.put temporary (.file ⟨content, fs.now, privateMode⟩)
  match written.rename temporary path with
  | (.ok (), renamed) => (.ok (), renamed.restoreMode path former)
  | (.error _, _) => (.error .files, written.erase temporary)

def atomicWrite (fs : FileSystem) (path : String) (content : Bytes) :
    Except Error Unit × FileSystem :=
  match Path.directory? path with
  | none => (.error (.noParent path), fs)
  | some directory =>
    match fs.createDirectory directory with
    | (.error _, fs) => (.error .files, fs)
    | (.ok dir, fs) =>
      if fs.hasRoom (if directory = "" then "." else directory) then fs.replaceVia dir path content
      else (.error .files, fs)

end ArtifactIndex.FileSystem
