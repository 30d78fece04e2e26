import ArtifactIndex.Coordinate.Basic
/-!
The life of a revision during a resolution: it is pending, then in flight, then done, and never
comes in again. Each of the three lists holds its revisions in the order they came.
-/

set_option autoImplicit false

namespace ArtifactIndex

inductive Stage where
  | pending
  | inFlight
  | done
  deriving DecidableEq, Repr

structure Lifecycle where
  pending : List Revision
  inFlight : List Revision
  done : List Revision
  deriving DecidableEq

namespace Lifecycle

def empty : Lifecycle :=
  ⟨[], [], []⟩

def stage? (l : Lifecycle) (r : Revision) : Option Stage :=
  if r ∈ l.pending then some .pending
  else if r ∈ l.inFlight then some .inFlight
  else if r ∈ l.done then some .done
  else none

def knows (l : Lifecycle) (r : Revision) : Bool :=
  (l.stage? r).isSome

/-- Adds a revision that is not known yet; whether it was added. -/
def offer (l : Lifecycle) (r : Revision) : Bool × Lifecycle :=
  if l.knows r then (false, l) else (true, { l with pending := l.pending ++ [r] })

/-- Offers every revision; how many were added. -/
def seed (l : Lifecycle) : List Revision → Nat × Lifecycle
  | [] => (0, l)
  | r :: rs =>
    let (added, l) := l.offer r
    let (count, l) := l.seed rs
    (count + added.toNat, l)

/-- Moves a given pending revision in flight, provided fewer than `limit` are. -/
def start? (l : Lifecycle) (limit : Nat) (r : Revision) : Option Lifecycle :=
  if l.inFlight.length < limit ∧ r ∈ l.pending then
    some { l with pending := l.pending.erase r, inFlight := l.inFlight ++ [r] }
  else
    none

/-- Moves the revision that has been pending longest in flight. -/
def startNext (l : Lifecycle) (limit : Nat) : Option (Revision × Lifecycle) :=
  l.pending.head?.bind fun r ↦ (l.start? limit r).map (r, ·)

/-- Starts pending revisions as far as the limit allows; those started, and the state after. -/
def startAll (l : Lifecycle) (limit : Nat) : List Revision × Lifecycle :=
  go l.pending.length l
where
  go : Nat → Lifecycle → List Revision × Lifecycle
    | 0, l => ([], l)
    | n + 1, l =>
      match l.startNext limit with
      | none => ([], l)
      | some (r, l) =>
        let (started, l) := go n l
        (r :: started, l)

/-- Moves a revision from in flight to done; whether it was in flight. -/
def finish (l : Lifecycle) (r : Revision) : Bool × Lifecycle :=
  if r ∈ l.inFlight then
    (true, { l with inFlight := l.inFlight.erase r, done := l.done ++ [r] })
  else
    (false, l)

/-- Nothing is pending or in flight. -/
def isSettled (l : Lifecycle) : Bool :=
  l.pending.isEmpty && l.inFlight.isEmpty

def clear (_ : Lifecycle) : Lifecycle :=
  empty

def clearDone (l : Lifecycle) : Lifecycle :=
  { l with done := [] }

end Lifecycle
end ArtifactIndex
