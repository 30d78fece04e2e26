import ArtifactIndex.Repository.Basic
import ArtifactIndex.Sorting.Runs
/-!
Binding a dependency to a version. A range is bound to the highest version in it that the repository
offers; an exact version needs no binding and no repository. Offered versions that are not in order
may crash the binding, when they are sorted.
-/

set_option autoImplicit false

namespace ArtifactIndex

/-- The highest candidate in the range, by program, component order and literal. -/
def Range.highest? (range : Range) (candidates : List Revision) : Ending (Option Revision) :=
  (Ending.ofOption (sort? compare (candidates.filter fun r ↦ range.contains r.version))).map
    List.getLast?

inductive Binding where
  | exact
  | bound (version : Version)
  | unbound
  deriving DecidableEq

/-- A dependency whose range is bound to a revision, if one was found. -/
def Dependency.bindTo (d : Dependency) : Option Revision → Except Error Binding × Dependency
  | some r => (.ok (.bound r.version), { d with version := r.version.literal })
  | none => (.ok .unbound, d)

namespace Repository

variable {ρ : Type}

/-- Binds a dependency; what came of it, and the dependency that is left. -/
def bind (repository : Repository ρ) (d : Dependency) :
    Call ρ (Except Error Binding × Dependency) :=
  match Constraint.parse d.version with
  | .error e => .done (.error (.ofConstraint e), d)
  | .ok (.exact _) => .done (.ok .exact, d)
  | .ok (.range range) =>
    (repository.availableRevisions d.program).andThen fun answer ↦
      match answer with
      | .error e => .done (.error e, d)
      | .ok candidates => .ofEnding ((range.highest? candidates).map d.bindTo)

end Repository
end ArtifactIndex
