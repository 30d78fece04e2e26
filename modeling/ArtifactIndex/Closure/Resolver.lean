import ArtifactIndex.Closure.Lifecycle
import ArtifactIndex.Closure.Work
/-!
The closure of some seeds: every seed and every revision that dependencies lead to is worked on
once. The coordinator owns the life cycle and the counters and changes them by events alone, so it
does not matter where and in which order the work is done; `Resolver.resolve` does it one revision
at a time, the one longest in flight first.
-/

set_option autoImplicit false

namespace ArtifactIndex

structure Stats where
  seeded : Nat
  dispatched : Nat
  indexed : Nat
  missing : Nat
  failed : Nat
  aborted : Nat
  unbound : Nat
  /-- The most revisions in flight at the same time. -/
  peak : Nat
  deriving DecidableEq, Repr

namespace Stats

def zero : Stats :=
  ⟨0, 0, 0, 0, 0, 0, 0, 0⟩

def countOutcome (s : Stats) : Outcome → Stats
  | .indexed => { s with indexed := s.indexed + 1 }
  | .missing => { s with missing := s.missing + 1 }
  | .failed => { s with failed := s.failed + 1 }
  | .aborted => { s with aborted := s.aborted + 1 }

end Stats

/-- What a resolution has found; no resource stands twice. -/
structure Closure where
  resources : List Resource
  stats : Stats
  deriving DecidableEq

namespace Closure

def empty : Closure :=
  ⟨[], .zero⟩

def addResource (c : Closure) : Option Resource → Closure
  | none => c
  | some r => if r ∈ c.resources then c else { c with resources := c.resources ++ [r] }

end Closure

/-! ### Coordination -/

structure Coordination where
  revisions : Lifecycle
  closure : Closure
  deriving DecidableEq

namespace Coordination

def ofSeeds (l : Lifecycle) (seeds : List Revision) : Coordination :=
  let (count, l) := l.clear.seed seeds
  ⟨l, { Closure.empty with stats := { Stats.zero with seeded := count } }⟩

/-- Takes note of an event. -/
def apply (c : Coordination) : Event → Coordination
  | .discovered _ revision => { c with revisions := (c.revisions.offer revision).2 }
  | .unbound _ _ =>
    let stats := { c.closure.stats with unbound := c.closure.stats.unbound + 1 }
    { c with closure := { c.closure with stats := stats } }
  | .finished revision outcome resource =>
    let closure := { c.closure with stats := c.closure.stats.countOutcome outcome }
    ⟨(c.revisions.finish revision).2, closure.addResource resource⟩

/-- Dispatches as many pending revisions as the limit allows. -/
def dispatch (c : Coordination) (limit : Nat) : Coordination :=
  let (started, revisions) := c.revisions.startAll limit
  let stats := c.closure.stats
  let stats :=
    { stats with
      dispatched := stats.dispatched + started.length
      peak := max stats.peak revisions.inFlight.length }
  ⟨revisions, { c.closure with stats := stats }⟩

end Coordination

/-! ### Resolution -/

structure Resolver where
  maxParallel : Nat
  revisions : Lifecycle
  deriving DecidableEq

namespace Resolver

variable {ρ : Type}

/-- A resolver works on at least one revision at a time. -/
def new (maxParallel : Nat) : Resolver :=
  ⟨max maxParallel 1, .empty⟩

/-- Dispatches, works on the revision longest in flight and takes note of its events. -/
def round (limit : Nat) (repository : Repository ρ) (builder : Builder ρ) (c : Coordination)
    (w : World ρ) : Coordination × World ρ :=
  let c := c.dispatch limit
  match c.revisions.inFlight with
  | [] => (c, w)
  | r :: _ =>
    let worked := repository.process builder r w
    (worked.events.foldl Coordination.apply c, worked.world)

/-- Goes on for at most `budget` rounds; none when revisions are left after that. -/
def run (limit : Nat) (repository : Repository ρ) (builder : Builder ρ) :
    Nat → Coordination → World ρ → Option Coordination × World ρ
  | budget, c, w =>
    if c.revisions.isSettled then (some c, w)
    else
      match budget with
      | 0 => (none, w)
      | budget + 1 =>
        let (c, w) := round limit repository builder c w
        run limit repository builder budget c w

/-- Resolves the closure of the seeds. Whatever an earlier resolution left behind is forgotten
first. -/
def resolve (resolver : Resolver) (repository : Repository ρ) (builder : Builder ρ)
    (budget : Nat) (seeds : List Revision) (w : World ρ) :
    Except Error Closure × Resolver × World ρ :=
  let start := Coordination.ofSeeds resolver.revisions seeds
  match run resolver.maxParallel repository builder budget start w with
  | (some c, w) => (.ok c.closure, { resolver with revisions := c.revisions.clearDone }, w)
  | (none, w) => (.error .budget, { resolver with revisions := .empty }, w)

/-- Between two resolutions all sets are empty. -/
def summary (r : Resolver) : String :=
  let noRevisions := "\x7b\x7d"
  s!"ClosureResolver \x7b max_parallel: {r.maxParallel}, sets: RevisionSets \x7b " ++
    s!"pending: {noRevisions}, in_flight: {noRevisions}, done: {noRevisions} \x7d, .. \x7d"

end Resolver
end ArtifactIndex
