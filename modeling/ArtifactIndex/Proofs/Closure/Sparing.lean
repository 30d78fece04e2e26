import ArtifactIndex.Closure.Resolver
import ArtifactIndex.Proofs.FileSystem.Pruning

/-!
# Files that a resolution spares

A resolution changes files in two ways: its collaborators do, and outdated copies of snapshots are
removed from where the repository says they are. So a file that no collaborator touches, and whose
place the repository never gives for an archive, is the same after the resolution as before it,
however the resolution ends (`Resolver.spares_resolve`). `Call.Spares` and `Work.Spares` say this of
calls and of work, crashes included, and are kept by every way in which work is put together.
-/

set_option autoImplicit false
set_option relaxedAutoImplicit false

namespace ArtifactIndex

variable {ρ α β : Type} {loc : Location}

/-! ### Removals -/

namespace FileSystem

theorem fileAt_dropOlder_of_ne {fs : FileSystem} {path : String} (h : fs.locate path ≠ .ok loc)
    (time : Timestamp) : (fs.dropOlder path time).fileAt loc = fs.fileAt loc := by
  have hkept : (fs.dropOlder path time).entryAt loc = fs.entryAt loc := by
    refine (pruned_dropOlder fs time path).kept loc ?_
    rintro path' hpath ⟨f, hfind, -⟩
    obtain rfl := List.mem_singleton.1 hpath
    exact h (of_find_file hfind).1
  unfold fileAt
  rw [hkept]

end FileSystem

/-! ### Calls and work -/

/-- However the call ends, the file at the location is as before. -/
def Call.Spares (call : Call ρ α) (loc : Location) : Prop :=
  ∀ w, (call w).2.files.fileAt loc = w.files.fileAt loc

/-- However the work ends, the file at the location is as before. -/
def Work.Spares (work : Work ρ α) (loc : Location) : Prop :=
  ∀ w, (work w).world.files.fileAt loc = w.files.fileAt loc

namespace Call.Spares

theorem done (value : α) : (Call.done value : Call ρ α).Spares loc :=
  fun _ ↦ rfl

theorem ofEnding (ending : Ending α) : (Call.ofEnding ending : Call ρ α).Spares loc :=
  fun _ ↦ rfl

/-- What follows a call has to spare the file only after answers that the call can give. -/
theorem andThen {call : Call ρ α} {next : α → Call ρ β} (h : call.Spares loc)
    (hnext : ∀ w value, (call w).1 = .done value → (next value).Spares loc) :
    (call.andThen next).Spares loc := by
  intro w
  have hw := h w
  have hanswer := hnext w
  unfold Call.andThen
  rcases hcall : call w with ⟨value | _, after⟩
  all_goals rw [hcall] at hw hanswer
  · exact (hanswer value rfl after).trans hw
  · exact hw

end Call.Spares

namespace Work.Spares

theorem done (value : α) : (Work.done value : Work ρ α).Spares loc :=
  fun _ ↦ rfl

theorem send (e : Event) : (Work.send e : Work ρ Unit).Spares loc :=
  fun _ ↦ rfl

theorem call {c : Call ρ α} (h : c.Spares loc) : (Work.call c).Spares loc :=
  h

theorem andThen {work : Work ρ α} {next : α → Work ρ β} (h : work.Spares loc)
    (hnext : ∀ value, (next value).Spares loc) : (work.andThen next).Spares loc := by
  intro w
  have hw := h w
  unfold Work.andThen
  rcases hwork : work w with ⟨value | _, events, after⟩
  all_goals rw [hwork] at hw
  · exact (hnext value after).trans hw
  · exact hw

end Work.Spares

/-- No collaborator changes the file at the location, and the repository never gives a path to it as
the place of an archive. -/
structure Repository.Spares (repository : Repository ρ) (builder : Builder ρ) (loc : Location) :
    Prop where
  resolveArchive : ∀ r, (repository.resolveArchive r).Spares loc
  snapshotSources : repository.snapshotSources.Spares loc
  metadataTimestamp : ∀ source r, (repository.metadataTimestamp source r).Spares loc
  localFile : ∀ a, (repository.localFile a).Spares loc
  elsewhere : ∀ a w path, (repository.localFile a w).1 = .done path →
    ∀ fs : FileSystem, fs.locate path ≠ .ok loc
  fetch : ∀ a, (repository.fetch a).Spares loc
  buildDescriptor : ∀ r, (repository.buildDescriptor r).Spares loc
  availableRevisions : ∀ p, (repository.availableRevisions p).Spares loc
  builder : ∀ path a, (builder path a).Spares loc

/-! ### The work on a revision -/

namespace Repository.Spares

variable {repository : Repository ρ} {builder : Builder ρ}

theorem dropCached (h : repository.Spares builder loc) (time : Timestamp) (a : Archive) :
    (repository.dropCached time a).Spares loc := by
  refine (h.localFile a).andThen fun w path hpath ↦ ?_
  exact fun after ↦ FileSystem.fileAt_dropOlder_of_ne (h.elsewhere a w path hpath after.files) time

theorem dropStaleFrom (h : repository.Spares builder loc) (a : Archive) (sources : List String) :
    (repository.dropStaleFrom a sources).Spares loc := by
  induction sources with
  | nil => exact .done ()
  | cons source rest ih =>
    refine (h.metadataTimestamp source a.revision).andThen fun _ answer _ ↦ ?_
    rcases answer with e | _ | time
    · exact ih
    · exact ih
    · exact (h.dropCached time a).andThen fun _ _ _ ↦ h.dropCached time a.pom

theorem dropStale (h : repository.Spares builder loc) (a : Archive) :
    (repository.dropStale a).Spares loc := by
  unfold Repository.dropStale
  split
  · exact h.snapshotSources.andThen fun _ sources _ ↦ h.dropStaleFrom a sources
  · exact .done ()

theorem bind (h : repository.Spares builder loc) (d : Dependency) :
    (repository.bind d).Spares loc := by
  unfold Repository.bind
  split
  · exact .done _
  · exact .done _
  · refine (h.availableRevisions d.program).andThen fun _ answer _ ↦ ?_
    rcases answer with e | candidates
    · exact .done _
    · exact .ofEnding _

theorem reportAll (h : repository.Spares builder loc) (source : Revision) (ds : List Dependency) :
    (repository.reportAll source ds).Spares loc := by
  induction ds with
  | nil => exact .done ()
  | cons d ds ih =>
    have hreport : (repository.report source d).Spares loc :=
      (Work.Spares.call (h.bind d)).andThen fun answer ↦ .send _
    exact hreport.andThen fun _ ↦ ih

theorem discover (h : repository.Spares builder loc) (source : Revision) :
    (repository.discover source).Spares loc := by
  refine (Work.Spares.call (h.buildDescriptor source)).andThen fun answer ↦ ?_
  rcases answer with e | _ | descriptor
  · exact .done ()
  · exact .done ()
  · exact h.reportAll source descriptor.followed

theorem build (h : repository.Spares builder loc) (a : Archive) :
    (repository.build builder a).Spares loc := by
  refine (h.fetch a).andThen fun _ answer _ ↦ ?_
  rcases answer with e | path
  · exact .done _
  · exact h.builder path a

theorem conclude (h : repository.Spares builder loc) (r : Revision) :
    (repository.conclude builder r).Spares loc := by
  refine (Work.Spares.call (h.resolveArchive r)).andThen fun answer ↦ ?_
  rcases answer with e | _ | a
  · exact .done _
  · exact .done _
  · refine (Work.Spares.call (h.dropStale a)).andThen fun _ ↦ ?_
    refine (h.discover a.revision).andThen fun _ ↦ ?_
    exact (Work.Spares.call (h.build a)).andThen fun built ↦ .done _

theorem process (h : repository.Spares builder loc) (r : Revision) :
    (repository.process builder r).Spares loc :=
  fun w ↦ h.conclude r w

end Repository.Spares

/-! ### The resolution -/

namespace Resolver

variable {repository : Repository ρ} {builder : Builder ρ}

theorem spares_round (h : repository.Spares builder loc) (limit : ℕ) (c : Coordination)
    (w : World ρ) :
    (round limit repository builder c w).2.files.fileAt loc = w.files.fileAt loc := by
  unfold round
  simp only
  split
  · rfl
  · exact h.process _ w

theorem spares_run (h : repository.Spares builder loc) (limit budget : ℕ) (c : Coordination)
    (w : World ρ) :
    (run limit repository builder budget c w).2.files.fileAt loc = w.files.fileAt loc := by
  induction budget generalizing c w with
  | zero =>
    rw [run]
    split <;> rfl
  | succ budget ih =>
    rw [run]
    split
    · rfl
    · exact (ih _ _).trans (spares_round h limit c w)

/-- A resolution leaves the file as it is, whether it comes to an end or runs out of its budget. -/
theorem spares_resolve (h : repository.Spares builder loc) (resolver : Resolver) (budget : ℕ)
    (seeds : List Revision) (w : World ρ) :
    (resolver.resolve repository builder budget seeds w).2.2.files.fileAt loc =
      w.files.fileAt loc := by
  have hrun := spares_run h resolver.maxParallel budget (.ofSeeds resolver.revisions seeds) w
  unfold resolve
  simp only
  split
  all_goals
    next hend => rwa [hend] at hrun

end Resolver
end ArtifactIndex
