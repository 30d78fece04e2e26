import ArtifactIndex.Closure.Resolver
import ArtifactIndex.Index.File
import ArtifactIndex.Text.Quoted
/-!
An index: a name, a place for its file, and resources. Content that is replaced is put in order
first, by source and then by written form, so the index file depends on what was found and not on
when.
-/

set_option autoImplicit false

namespace ArtifactIndex

structure Index where
  name : String
  location : String
  resources : List Resource
  deriving DecidableEq

namespace Index

variable {ρ : Type}

def new (name location : String) : Index :=
  ⟨name, location, []⟩

/-! ### Order of the content -/

/-- Resources without a source come first. -/
def cmpSource : Option Revision → Option Revision → Ordering
  | none, none => .eq
  | none, some _ => .lt
  | some _, none => .gt
  | some r, some s => compare r s

def cmpResource (r s : Resource) : Ordering :=
  (cmpSource r.source s.source).then (compare r.toJson.compact s.toJson.compact)

/-- The resources in the order of the content. Sources whose versions are not totally preordered have
no such order; the arrangement is then one of several. -/
def arrange (resources : List Resource) : List Resource :=
  sortBy cmpResource resources

/-! ### Files -/

def isPersisted (x : Index) (fs : FileSystem) : Bool :=
  fs.isFile x.location

/-- Reads the index file if there is one; whether there was. -/
def load (x : Index) (fs : FileSystem) : Except Error (Bool × Index) :=
  if x.isPersisted fs then
    (IndexFile.load fs x.location).map fun f ↦ (true, { x with resources := f.resources })
  else
    .ok (false, x)

def save (x : Index) (fs : FileSystem) : Except Error Unit × FileSystem :=
  IndexFile.save fs x.location ⟨x.name, x.resources⟩

/-- Replaces the content, then writes the index file. -/
def replace (x : Index) (resources : List Resource) (fs : FileSystem) :
    Except Error Unit × Index × FileSystem :=
  let x := { x with resources := arrange resources }
  let (result, fs) := x.save fs
  (result, x, fs)

/-- Resolves the seeds and replaces the content by what was found. -/
def refresh (x : Index) (resolver : Resolver) (repository : Repository ρ)
    (builder : Builder ρ) (budget : Nat) (seeds : List Revision) (w : World ρ) :
    Except Error Stats × Index × Resolver × World ρ :=
  match resolver.resolve repository builder budget seeds w with
  | (.error e, resolver, w) => (.error e, x, resolver, w)
  | (.ok closure, resolver, w) =>
    let (result, x, files) := x.replace closure.resources w.files
    (result.map fun _ ↦ closure.stats, x, resolver, { w with files := files })

/-! ### Queries -/

/-- The resources built from some revision of the program. -/
def find (x : Index) (p : Program) : List Resource :=
  x.resources.filter (·.isFrom p)

def dropRepeats : List Revision → List Revision
  | r :: s :: rest => if r = s then dropRepeats (s :: rest) else r :: dropRepeats (s :: rest)
  | rs => rs

/-- The revisions that the resources were built from, in order and without repeats. -/
def revisions (x : Index) : Ending (List Revision) :=
  (Ending.ofOption (sort? compare (x.resources.filterMap Resource.source))).map dropRepeats

def summary (x : Index) : String :=
  s!"IndexStore \x7b name: {Text.quote x.name}, location: {Text.quote x.location}, " ++
    s!"resources: {x.resources.length} \x7d"

end Index
end ArtifactIndex
