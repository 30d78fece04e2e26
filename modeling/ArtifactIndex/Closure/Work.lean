import ArtifactIndex.Closure.Binding
import ArtifactIndex.Closure.Event
/-!
The work on one revision: drop stale snapshot files, report the dependencies, build the resource.
Events are sent as the work goes on, so those before a crash stay sent; the closing event follows
in every case and comes last.
-/

set_option autoImplicit false

namespace ArtifactIndex

/-- A piece of work that has come to its end, with the events it sent. -/
structure Worked (ρ α : Type) where
  ending : Ending α
  events : List Event
  world : World ρ

def Work (ρ α : Type) : Type :=
  World ρ → Worked ρ α

namespace Work

variable {ρ α β : Type}

def done (value : α) : Work ρ α :=
  fun w ↦ ⟨.done value, [], w⟩

def andThen (work : Work ρ α) (next : α → Work ρ β) : Work ρ β :=
  fun w ↦
    match work w with
    | ⟨.crashed, events, w⟩ => ⟨.crashed, events, w⟩
    | ⟨.done value, events, w⟩ =>
      let rest := next value w
      ⟨rest.ending, events ++ rest.events, rest.world⟩

instance : Monad (Work ρ) where
  pure := done
  bind := andThen

def send (e : Event) : Work ρ Unit :=
  fun w ↦ ⟨.done (), [e], w⟩

def call (c : Call ρ α) : Work ρ α :=
  fun w ↦
    match c w with
    | (ending, w) => ⟨ending, [], w⟩

end Work

/-! ### Stale snapshots -/

/-- Removes the file at the path if it was modified before `time`; faults are passed over. -/
def FileSystem.dropOlder (fs : FileSystem) (path : String) (time : Timestamp) : FileSystem :=
  match fs.modified? path with
  | .ok (some modified) => if modified < time then (fs.remove path).2 else fs
  | _ => fs

namespace Repository

variable {ρ : Type} (repository : Repository ρ)

def dropCached (time : Timestamp) (a : Archive) : Call ρ Unit :=
  (repository.localFile a).andThen fun path ↦
    .changeFiles fun fs ↦ ((), fs.dropOlder path time)

/-- Asks the sources in turn; the first that gives a time decides for the archive and its build
descriptor. -/
def dropStaleFrom (a : Archive) : List String → Call ρ Unit
  | [] => .done ()
  | source :: rest =>
    (repository.metadataTimestamp source a.revision).andThen fun answer ↦
      match answer with
      | .ok (some time) =>
        (repository.dropCached time a).andThen fun _ ↦ repository.dropCached time a.pom
      | _ => dropStaleFrom a rest

def dropStale (a : Archive) : Call ρ Unit :=
  if a.isSnapshot then repository.snapshotSources.andThen (repository.dropStaleFrom a)
  else .done ()

end Repository

/-! ### Dependencies -/

/-- The event for a dependency that has been bound, or could not be. -/
def Event.ofBinding (source : Revision) : Except Error Binding × Dependency → Event
  | (.error _, d) => .unbound source d.text
  | (.ok .unbound, d) => .unbound source d.text
  | (.ok _, d) =>
    match d.revision with
    | .ok revision => .discovered source revision
    | .error _ => .unbound source d.text

namespace Repository

variable {ρ : Type} (repository : Repository ρ)

def report (source : Revision) (d : Dependency) : Work ρ Unit :=
  (Work.call (repository.bind d)).andThen fun bound ↦ .send (.ofBinding source bound)

def reportAll (source : Revision) : List Dependency → Work ρ Unit
  | [] => .done ()
  | d :: ds => (repository.report source d).andThen fun _ ↦ reportAll source ds

def discover (source : Revision) : Work ρ Unit :=
  (Work.call (repository.buildDescriptor source)).andThen fun answer ↦
    match answer with
    | .ok (some descriptor) => repository.reportAll source descriptor.followed
    | _ => .done ()

end Repository

/-! ### The whole work -/

/-- How the work on a revision ended, with the resource if one was built. -/
abbrev Conclusion : Type := Outcome × Option Resource

def Conclusion.ofBuilt : Except Error Resource → Conclusion
  | .ok resource => (.indexed, some resource)
  | .error _ => (.failed, none)

def Event.ofEnding (r : Revision) : Ending Conclusion → Event
  | .done (outcome, resource) => .finished r outcome resource
  | .crashed => .finished r .aborted none

namespace Repository

variable {ρ : Type} (repository : Repository ρ)

def build (builder : Builder ρ) (a : Archive) : Call ρ (Except Error Resource) :=
  (repository.fetch a).andThen fun answer ↦
    match answer with
    | .ok path => builder path a
    | .error e => .done (.error e)

def conclude (builder : Builder ρ) (r : Revision) : Work ρ Conclusion :=
  (Work.call (repository.resolveArchive r)).andThen fun answer ↦
    match answer with
    | .ok (some a) =>
      (Work.call (repository.dropStale a)).andThen fun _ ↦
        (repository.discover a.revision).andThen fun _ ↦
          (Work.call (repository.build builder a)).andThen fun built ↦ .done (.ofBuilt built)
    | _ => .done (.missing, none)

/-- Works on a revision and closes with the event that says how it ended. -/
def process (builder : Builder ρ) (r : Revision) : Work ρ Unit :=
  fun w ↦
    let worked := repository.conclude builder r w
    ⟨worked.ending.map fun _ ↦ (), worked.events ++ [.ofEnding r worked.ending], worked.world⟩

end Repository
end ArtifactIndex
