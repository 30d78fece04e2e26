import ArtifactIndex.Digest.Sha256
import ArtifactIndex.Error
import ArtifactIndex.FileSystem.Url
import ArtifactIndex.Resource.Basic
/-!
The resource that describes an archive by its file: who it is, what it holds, and where the
description comes from.
-/

set_option autoImplicit false

namespace ArtifactIndex.Resource

open Text (Bytes)

def identity (a : Archive) : Capability :=
  .ofAttributes identitySpace
    [(identitySpace, .string a.revision.program.text),
      ("version", .version a.revision.version.literal),
      ("type", .string "maven.artifact")]

/-- Archives with the usual extension are bundles. -/
def mimeType (a : Archive) : String :=
  if a.extension = Archive.defaultExtension then "application/vnd.osgi.bundle"
  else "application/octet-stream"

/-- A size as a long, the greatest one when it does not fit. -/
def longSize (n : Nat) : Int64 :=
  if n < 1 <<< 63 then Int64.ofNat n else Int64.maxValue

def contentOf (a : Archive) (url : String) (content : Bytes) : Capability :=
  .ofAttributes contentSpace
    [(contentSpace, .string (Sha256.hexDigest content)),
      ("url", .string url),
      ("size", .long (longSize content.length)),
      ("mime", .string (mimeType a))]

def information (a : Archive) : Capability :=
  .ofAttributes informationSpace
    [(nameKey, .string a.text), (fromKey, .string a.revision.text)]

/-- Describes an archive; the path has to name a regular file. -/
def ofFile (fs : FileSystem) (path : String) (a : Archive) : Except Error Resource :=
  match fs.find path with
  | .ok (_, .file f) =>
    match fs.canonical path with
    | .error _ => .error .files
    | .ok loc =>
      .ok ⟨[identity a, contentOf a (Url.ofLocation loc) f.content, information a], []⟩
  | _ => .error (.resource a s!"{path} is not a regular file")

end ArtifactIndex.Resource
