import ArtifactIndex.Repository.Basic
import ArtifactIndex.Resource.OfFile
/-!
A repository that answers from a script. Each artifact says what it answers and at which calls it
fails or crashes; lookups of archives and downloads are counted.
-/

set_option autoImplicit false

namespace ArtifactIndex

open Text (Bytes)

namespace Script

/-- What a call does in place of its usual answer. -/
inductive Twist where
  | usual
  | absent
  | fails
  | crashes
  deriving DecidableEq, Repr

structure Artifact where
  revision : Revision
  archive : Option Archive
  dependencies : Option (List Dependency)
  content : Option Bytes
  onResolve : Twist
  onDescriptor : Twist
  onFetch : Twist
  onBuild : Twist

structure Source where
  id : String
  timestamps : List (String × Timestamp)
  fails : Bool

/-- Counters by text, in the order of their first use. -/
abbrev Counters := List (String × Nat)

def count (key : String) : Counters → Counters
  | [] => [(key, 1)]
  | (k, n) :: rest => if k = key then (k, n + 1) :: rest else (k, n) :: count key rest

end Script

/-- The script; artifacts are told apart by the texts of their revisions. -/
structure Script where
  artifacts : List Script.Artifact
  versions : List (Program × Option (List Revision))
  sources : List Script.Source
  fetchTime : Timestamp
  resolved : Script.Counters
  downloads : Script.Counters

namespace Script

def empty : Script :=
  ⟨[], [], [], 0, [], []⟩

/-! ### Changes of the script -/

def forget (s : Script) (revision : String) : Script :=
  { s with artifacts := s.artifacts.filter (·.revision.text ≠ revision) }

def addArtifact (s : Script) (a : Artifact) : Script :=
  let s := s.forget a.revision.text
  { s with artifacts := s.artifacts ++ [a] }

def setVersions (s : Script) (p : Program) (revisions : Option (List Revision)) : Script :=
  { s with versions := (p, revisions) :: s.versions.filter (·.1 ≠ p) }

def artifact? (s : Script) (r : Revision) : Option Artifact :=
  s.artifacts.find? (·.revision.text == r.text)

/-- More revisions than one resolution of `seeds` seeds can meet: every declared dependency stands
for at most one further revision. -/
def budget (s : Script) (seeds : Nat) : Nat :=
  s.artifacts.foldl (fun n a ↦ n + (a.dependencies.getD []).length) (seeds + 1)

/-! ### Answers -/

def resolveArchive (r : Revision) : Call Script (Except Error (Option Archive)) :=
  fun w ↦
    let w := { w with state := { w.state with resolved := count r.text w.state.resolved } }
    match w.state.artifact? r with
    | none => (.done (.ok none), w)
    | some a =>
      match a.onResolve with
      | .usual => (.done (.ok (some (a.archive.getD (.jar r)))), w)
      | .absent => (.done (.ok none), w)
      | .fails => (.done (.error (.repository s!"cannot resolve {r.text}")), w)
      | .crashes => (.crashed, w)

def metadataTimestamp (id : String) (r : Revision) :
    Call Script (Except Error (Option Timestamp)) :=
  fun w ↦
    match w.state.sources.find? (·.id == id) with
    | none => (.done (.ok none), w)
    | some source =>
      if source.fails then (.done (.error (.repository s!"cannot read {id}")), w)
      else (.done (.ok (source.timestamps.lookup r.text)), w)

def localFile (a : Archive) : String :=
  String.ofList (a.path.toList.dropWhile (· = '/'))

/-- Writes a file together with the directories above it. -/
def store (fs : FileSystem) (path : String) (content : Bytes) :
    Except FileSystem.Fault Unit × FileSystem :=
  match Path.directory? path with
  | none => (.error .notFound, fs)
  | some directory =>
    match fs.createDirectory directory with
    | (.error fault, fs) => (.error fault, fs)
    | (.ok _, fs) => fs.write path content

/-- Stores a file with a modification time of its own. -/
def storeAt (fs : FileSystem) (path : String) (content : Bytes) (time : Timestamp) :
    Except FileSystem.Fault Unit × FileSystem :=
  match store fs path content with
  | (.ok (), fs) => fs.setModified path time
  | failed => failed

def download (a : Archive) (content : Bytes) : Call Script (Except Error String) :=
  fun w ↦
    let path := localFile a
    match storeAt w.files path content w.state.fetchTime with
    | (.error _, files) => (.done (.error .files), { w with files := files })
    | (.ok (), files) =>
      let state := { w.state with downloads := count a.text w.state.downloads }
      (.done (.ok path), ⟨files, state⟩)

def fetch (a : Archive) : Call Script (Except Error String) :=
  fun w ↦
    let path := localFile a
    let missing : Error := .repository s!"cannot download {a.text}"
    if w.files.isFile path then (.done (.ok path), w)
    else
      match w.state.artifact? a.revision with
      | none => (.done (.error missing), w)
      | some artifact =>
        match artifact.onFetch, artifact.content with
        | .absent, _ => (.done (.ok path), w)
        | .crashes, _ => (.crashed, w)
        | .usual, some content => download a content w
        | _, _ => (.done (.error missing), w)

def buildDescriptor (r : Revision) : Call Script (Except Error (Option BuildDescriptor)) :=
  fun w ↦
    match w.state.artifact? r with
    | none => (.done (.ok none), w)
    | some a =>
      match a.onDescriptor with
      | .fails => (.done (.error (.repository s!"cannot read descriptor of {r.text}")), w)
      | .crashes => (.crashed, w)
      | _ => (.done (.ok (a.dependencies.map (⟨·⟩))), w)

def availableRevisions (p : Program) : Call Script (Except Error (List Revision)) :=
  fun w ↦
    match w.state.versions.lookup p with
    | some (some revisions) => (.done (.ok revisions), w)
    | some none => (.done (.error (.repository s!"cannot list {p.text}")), w)
    | none =>
      let known := w.state.artifacts.map (·.revision)
      (.done (.ok (known.filter (·.program == p))), w)

def repository : Repository Script where
  resolveArchive := resolveArchive
  snapshotSources := fun w ↦ (.done (w.state.sources.map (·.id)), w)
  metadataTimestamp := metadataTimestamp
  localFile := fun a ↦ Call.done (localFile a)
  fetch := fetch
  buildDescriptor := buildDescriptor
  availableRevisions := availableRevisions

/-- Describes archives by their files unless the script says otherwise. -/
def builder : Builder Script :=
  fun path a w ↦
    match ((w.state.artifact? a.revision).map (·.onBuild)).getD .usual with
    | .fails => (.done (.error (.resource a "scripted")), w)
    | .crashes => (.crashed, w)
    | _ => (.done (Resource.ofFile w.files path a), w)

end Script
end ArtifactIndex
