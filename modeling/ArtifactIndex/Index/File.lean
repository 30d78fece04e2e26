import ArtifactIndex.FileSystem.Document
import ArtifactIndex.Resource.Json
/-!
The index file: the name of an index and its resources, in the order they are stored.
-/

set_option autoImplicit false

namespace ArtifactIndex

structure IndexFile where
  name : String
  resources : List Resource
  deriving DecidableEq

namespace IndexFile

def toJson (f : IndexFile) : Json :=
  .ofMembers [("name", .ofString f.name), ("resources", .array (f.resources.map Resource.toJson))]

def ofJson? (j : Json) : Option IndexFile :=
  match j.fields? ["name", "resources"] with
  | some [some name, resources] => do
    let name ← name.text?
    let resources ← Json.orDefault [] (Json.list? Resource.ofJson?) resources
    return ⟨name, resources⟩
  | _ => none

def save (fs : FileSystem) (path : String) (f : IndexFile) : Except Error Unit × FileSystem :=
  fs.writeDocument path f.toJson

def load (fs : FileSystem) (path : String) : Except Error IndexFile :=
  fs.readDocument ofJson? path

end IndexFile
end ArtifactIndex
