import ArtifactIndex.Range.Interval
import ArtifactIndex.Sorting
/-!
Ranges of versions: lists of intervals, read as their union. Complements count from `0` upwards, so
the complement of every version is written with one interval below `0`.
-/

set_option autoImplicit false

namespace ArtifactIndex

structure Range where
  intervals : List Interval
  deriving DecidableEq

namespace Range

/-- Every version from `0` on. -/
def everything : Range :=
  ⟨[⟨some .zero, true, none, false⟩]⟩

/-- What lies below `0`; the complement of `everything`. -/
def nothing : Range :=
  ⟨[⟨none, true, some .zero, false⟩]⟩

/-! ### Membership -/

def contains (r : Range) (v : Version) : Bool :=
  r.intervals.any (·.contains v)

instance : Membership Version Range :=
  ⟨fun r v ↦ r.contains v⟩

instance (v : Version) (r : Range) : Decidable (v ∈ r) :=
  inferInstanceAs (Decidable (r.contains v = true))

theorem mem_iff {v : Version} {r : Range} : v ∈ r ↔ ∃ i ∈ r.intervals, v ∈ i :=
  List.any_eq_true

/-- No interval admits a version at or above `0`. -/
def isEmpty (r : Range) : Bool :=
  !r.intervals.any (·.reachesZero)

/-! ### Intersection -/

/-- The intervals in the order of their lower ends, which is one where versions at these ends are
totally preordered; elsewhere nothing is said of how a library sorts them. -/
def sortByLower (is : List Interval) : List Interval :=
  sortBy Interval.cmpLower is

def inter (r s : Range) : Range :=
  ⟨sortByLower (r.intervals.flatMap fun i ↦ s.intervals.filterMap fun j ↦ i.inter? j)⟩

/-! ### Coverage -/

/-- Each interval but the last meets the one after it. -/
def isGapless : List Interval → Bool
  | i :: j :: rest => i.meets j && isGapless (j :: rest)
  | _ => true

/-- The range covers the interval: its share of the interval starts where the interval starts, has
no gap, and ends where the interval ends. -/
def covers (r : Range) (i : Interval) : Bool :=
  let pieces := sortByLower (r.intervals.filterMap fun j ↦ i.inter? j)
  match pieces.head?, pieces.getLast? with
  | some first, some last =>
    first.cmpLower i == .eq && last.cmpUpper i == .eq && isGapless pieces
  | _, _ => false

def subsumes (r s : Range) : Bool :=
  s.intervals.all fun i ↦ r.covers i

/-! ### Complement -/

/-- The gaps from `position` on, which is itself covered when `passed` holds. An interval that ends
below the position does not move it back, and one without an end closes the last gap. -/
def gapsFrom (position : Version) (passed : Bool) : List Interval → List Interval
  | [] => [⟨some position, !passed, none, false⟩]
  | i :: rest =>
    let gap : Interval := ⟨some position, !passed, i.lower, !i.lowerIncluded⟩
    let opens :=
      match i.lower with
      | none => false
      | some l =>
        match position.cmp l with
        | .lt => true
        | .eq => !(passed || i.lowerIncluded)
        | .gt => false
    let later :=
      match i.upper with
      | none => []
      | some u =>
        if u.cmp position = .lt then gapsFrom position passed rest
        else gapsFrom u i.upperIncluded rest
    if opens then gap :: later else later

def complement (r : Range) : Range :=
  match gapsFrom .zero false (sortByLower r.intervals) with
  | [] => nothing
  | gaps => ⟨gaps⟩

/-! ### Text -/

def text (r : Range) : String :=
  ",".intercalate (r.intervals.map Interval.text)

end Range
end ArtifactIndex
