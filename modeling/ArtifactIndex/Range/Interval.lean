import ArtifactIndex.Version.Basic
/-!
Intervals of versions, the pieces of a range. An end without a version is unbounded; its flag is
kept all the same, because the written form shows it. All comparisons use the component order, so
spelling decides nothing but the text.
-/

set_option autoImplicit false

namespace ArtifactIndex

structure Interval where
  lower : Option Version
  lowerIncluded : Bool
  upper : Option Version
  upperIncluded : Bool
  deriving DecidableEq

namespace Interval

/-! ### Membership -/

def admitsFromBelow (i : Interval) (v : Version) : Bool :=
  match i.lower with
  | none => true
  | some l =>
    match v.cmp l with
    | .lt => false
    | .eq => i.lowerIncluded
    | .gt => true

def admitsFromAbove (i : Interval) (v : Version) : Bool :=
  match i.upper with
  | none => true
  | some u =>
    match v.cmp u with
    | .lt => true
    | .eq => i.upperIncluded
    | .gt => false

def contains (i : Interval) (v : Version) : Bool :=
  i.admitsFromBelow v && i.admitsFromAbove v

instance : Membership Version Interval :=
  ⟨fun i v ↦ i.contains v⟩

instance (v : Version) (i : Interval) : Decidable (v ∈ i) :=
  inferInstanceAs (Decidable (i.contains v = true))

theorem mem_iff {v : Version} {i : Interval} :
    v ∈ i ↔ i.admitsFromBelow v ∧ i.admitsFromAbove v :=
  Bool.and_eq_true_iff

/-! ### Ends -/

/-- A single version, written without a comma. -/
def isPin (i : Interval) : Bool :=
  match i.lower, i.upper with
  | some l, some u => i.lowerIncluded && i.upperIncluded && l.cmp u == .eq
  | _, _ => false

/-- The ends leave room: they do not cross, and equal ends are both included. -/
def isOrdered (i : Interval) : Bool :=
  match i.lower, i.upper with
  | some l, some u =>
    match l.cmp u with
    | .lt => true
    | .eq => i.lowerIncluded && i.upperIncluded
    | .gt => false
  | _, _ => true

/-- Lower ends by where they start; an included end starts before an excluded one. -/
def cmpLower (i j : Interval) : Ordering :=
  match i.lower, j.lower with
  | none, none => .eq
  | none, some _ => .lt
  | some _, none => .gt
  | some a, some b => (a.cmp b).then (compare j.lowerIncluded i.lowerIncluded)

/-- Upper ends by where they stop; an included end stops after an excluded one. -/
def cmpUpper (i j : Interval) : Ordering :=
  match i.upper, j.upper with
  | none, none => .eq
  | none, some _ => .gt
  | some _, none => .lt
  | some a, some b => (a.cmp b).then (compare i.upperIncluded j.upperIncluded)

/-- The interval ends where `next` starts, and nothing lies between them. -/
def meets (i next : Interval) : Bool :=
  match i.upper, next.lower with
  | some u, some l => u.cmp l == .eq && (i.upperIncluded || next.lowerIncluded)
  | _, _ => false

/-- No version is in both intervals because `next` starts after the end of `i`. -/
def precedes (i next : Interval) : Bool :=
  match i.upper, next.lower with
  | some u, some l =>
    match l.cmp u with
    | .lt => false
    | .eq => !(i.upperIncluded && next.lowerIncluded)
    | .gt => true
  | _, _ => false

/-- The interval admits a version at or above `0`, as far as its upper end goes. -/
def reachesZero (i : Interval) : Bool :=
  match i.upper with
  | none => true
  | some u =>
    match u.cmp .zero with
    | .lt => false
    | .eq => i.upperIncluded
    | .gt => true

/-! ### Intersection -/

/-- The end that is further inside, where `further` is the comparison by which the second end
wins; at equal versions the first spelling stays. -/
def innerEnd (further : Ordering) (a : Option Version) (aIncluded : Bool) (b : Option Version)
    (bIncluded : Bool) : Option Version × Bool :=
  match a, b with
  | none, none => (none, aIncluded && bIncluded)
  | some v, none => (some v, aIncluded)
  | none, some w => (some w, bIncluded)
  | some v, some w =>
    match v.cmp w with
    | .eq => (some v, aIncluded && bIncluded)
    | order => if order = further then (some w, bIncluded) else (some v, aIncluded)

/-- The common part of two intervals, `none` when the ends leave no room for one. -/
def inter? (i j : Interval) : Option Interval :=
  let (lower, lowerIncluded) := innerEnd .lt i.lower i.lowerIncluded j.lower j.lowerIncluded
  let (upper, upperIncluded) := innerEnd .gt i.upper i.upperIncluded j.upper j.upperIncluded
  let common : Interval := ⟨lower, lowerIncluded, upper, upperIncluded⟩
  if common.isOrdered then some common else none

/-! ### Text -/

def endText : Option Version → String
  | some v => v.literal
  | none => ""

def text (i : Interval) : String :=
  if i.isPin then "[" ++ endText i.lower ++ "]"
  else
    (if i.lowerIncluded then "[" else "(") ++ endText i.lower ++ "," ++ endText i.upper ++
      (if i.upperIncluded then "]" else ")")

end Interval
end ArtifactIndex
