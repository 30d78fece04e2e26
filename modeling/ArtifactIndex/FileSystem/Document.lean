import ArtifactIndex.FileSystem.AtomicWrite
import ArtifactIndex.Json.Reader
import ArtifactIndex.Json.Printer
/-!
JSON documents in files: written whole and one entry a line, read in any layout.
-/

set_option autoImplicit false

namespace ArtifactIndex.FileSystem

def writeDocument (fs : FileSystem) (path : String) (j : Json) : Except Error Unit × FileSystem :=
  fs.atomicWrite path j.pretty

/-- Reads a document and takes from it what `value?` accepts. A path that names no file is a fault
of the file system if nothing can be opened there, and a fault of the document if it can. -/
def readDocument {α : Type} (value? : Json → Option α) (fs : FileSystem) (path : String) :
    Except Error α :=
  match fs.find path with
  | .error _ => .error .files
  | .ok (_, .directory _) => .error .document
  | .ok (_, .file f) =>
    match (Json.ofBytes? f.content).bind value? with
    | some value => .ok value
    | none => .error .document

end ArtifactIndex.FileSystem
