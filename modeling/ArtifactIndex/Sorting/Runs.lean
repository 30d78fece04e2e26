import ArtifactIndex.Sorting.Merging
/-!
A stable sort that makes use of order it finds. A list is cut into runs; a run that is long enough
and already ascending, or strictly descending, is taken as it is. Neighbouring runs are merged in
the order of a binary tree over their places. Runs may be left unsorted until they meet a sorted
one, or to the end; they are then sorted around pivots, and short parts by insertion and one merge
from both ends.

That merge is the only place where the sort can fail. It fails only if the comparison is no order on
the elements, and then only in some cases; lists of up to 20 elements are sorted by insertion alone.
-/

set_option autoImplicit false

namespace ArtifactIndex

namespace RunSort

variable {α : Type}

/-! ### Runs -/

structure Run (α : Type) where
  elements : List α
  isSorted : Bool

/-- How many elements from the front on are in this relation, each to the next. -/
def stretch (relates : α → α → Bool) : List α → Nat
  | a :: b :: rest => if relates a b then stretch relates (b :: rest) + 1 else 1
  | xs => xs.length

/-- The ascending run at the front, or the strictly descending one turned around, and the rest. -/
def splitRun (cmp : α → α → Ordering) (xs : List α) : List α × List α :=
  let falls (a b : α) : Bool := cmp b a == .lt
  let falling := stretch falls xs
  if 2 ≤ falling then
    ((xs.take falling).reverse, xs.drop falling)
  else
    let rising := stretch (fun a b ↦ !falls a b) xs
    (xs.take rising, xs.drop rising)

/-- The longest list that is sorted without being divided. -/
def shortLength : Nat := 32

/-- A run found at the front if it is of good length; otherwise elements are sorted to make one, or
left for later. -/
def nextRun? (cmp : α → α → Ordering) (good : Nat) (eager : Bool) (xs : List α) :
    Option (Run α × List α) :=
  let (front, rest) := splitRun cmp xs
  if good ≤ front.length then
    some (⟨front, true⟩, rest)
  else if eager then
    (sortShort? cmp (xs.take shortLength)).map fun ys ↦ (⟨ys, true⟩, xs.drop shortLength)
  else
    some (⟨xs.take good, false⟩, xs.drop good)

/-- Cuts a list into runs; as each of them takes an element, `n` need not exceed the length. -/
def runs? (cmp : α → α → Ordering) (good : Nat) (eager : Bool) :
    Nat → List α → Option (List (Run α))
  | _, [] => some []
  | 0, xs => some [⟨xs, false⟩]
  | n + 1, xs => do
    let (run, rest) ← nextRun? cmp good eager xs
    let runs ← runs? cmp good eager n rest
    return run :: runs

/-- The length from which on a run is taken as it is: half of a short list, and about the square
root of a long one. -/
def goodLength (n : Nat) : Nat :=
  if n ≤ 4096 then
    min (n - n / 2) 64
  else
    let shift := (1 + n.log2) / 2
    (1 <<< shift + n >>> shift) / 2

/-! ### Merging runs -/

/-- How far from the root the runs that meet at `mid` are merged, among `n` elements: the number of
leading binary digits that the middles of both runs have in common, as fractions of 64 digits. -/
def mergeDepth (n left mid right : Nat) : Nat :=
  let scale := (1 <<< 62 + n - 1) / n
  let differing := (scale * (left + mid)) ^^^ (scale * (mid + right))
  if differing = 0 then 64 else 63 - differing.log2

section Merging

variable (cmp : α → α → Ordering) (settle : List α → Option (List α)) (room n : Nat)

def Run.settled? (run : Run α) : Option (List α) :=
  if run.isSorted then some run.elements else settle run.elements

/-- Merges two runs. Two unsorted ones stay unsorted as long as there is room to sort them both. -/
def join? (left right : Run α) : Option (Run α) :=
  if left.isSorted || right.isSorted ||
      room < left.elements.length + right.elements.length then do
    let ls ← left.settled? settle
    let rs ← right.settled? settle
    return ⟨merge cmp ls rs, true⟩
  else
    some ⟨left.elements ++ right.elements, false⟩

/-- Merges the runs on the stack that belong at least as deep into the one that follows them. -/
def collapse? (depth : Nat) : List (Run α × Nat) → Run α → Option (Run α × List (Run α × Nat))
  | (top, below) :: stack, run =>
    if depth ≤ below then do
      let run ← join? cmp settle room top run
      collapse? depth stack run
    else
      some (run, (top, below) :: stack)
  | [], run => some (run, [])

/-- Goes through the runs behind `run`, which ends at `mid`, and merges all of them. -/
def climb? : List (Run α × Nat) → Run α → Nat → List (Run α) → Option (Run α)
  | stack, run, _, [] => (collapse? cmp settle room 0 stack run).map Prod.fst
  | stack, run, mid, next :: rest => do
    let depth :=
      mergeDepth n (mid - run.elements.length) mid (mid + next.elements.length)
    let (run, stack) ← collapse? cmp settle room depth stack run
    climb? ((run, depth) :: stack) next (mid + next.elements.length) rest

end Merging

/-- Sorts by runs; `settle` sorts those that were left unsorted. -/
def sortRuns? (cmp : α → α → Ordering) (settle : List α → Option (List α)) (room : Nat)
    (eager : Bool) (xs : List α) : Option (List α) := do
  match ← runs? cmp (goodLength xs.length) eager xs.length xs with
  | [] => some []
  | first :: rest =>
    let whole ← climb? cmp settle room xs.length [] first first.elements.length rest
    whole.settled? settle

/-! ### Pivots -/

/-- The middle one of three elements. -/
def median (cmp : α → α → Ordering) (a b c : α) : α :=
  let below : Bool := cmp a b == .lt
  if below == (cmp a c == .lt) then
    if (cmp b c == .lt) != below then c else b
  else
    a

/-- An element from the `n` at place `i`: the first of less than eight, and otherwise the median of
three that are found in the first, the fifth and the last of eight parts. -/
def sample (cmp : α → α → Ordering) (xs : List α) (x : α) (n i : Nat) : α :=
  if n < 8 then
    xs.getD i x
  else
    median cmp (sample cmp xs x (n / 8) i) (sample cmp xs x (n / 8) (i + 4 * (n / 8)))
      (sample cmp xs x (n / 8) (i + 7 * (n / 8)))
termination_by n

/-- Divides a list around pivots, `limit` times at most. No element is less than `ancestor`, the
last pivot that the elements went to the right of; a pivot that ties with it, or is itself a least
element, is divided from the greater ones together with all that tie with it. -/
def sortAround? (cmp : α → α → Ordering) : Nat → Option α → List α → Option (List α)
  | _, _, [] => some []
  | 0, _, x :: xs =>
    if (x :: xs).length ≤ shortLength then sortShort? cmp (x :: xs)
    -- no run is left unsorted here, so that nothing is asked to sort one
    else sortRuns? cmp (fun ys ↦ some (sortBy cmp ys)) (x :: xs).length true (x :: xs)
  | limit + 1, ancestor, x :: xs =>
    if (x :: xs).length ≤ shortLength then
      sortShort? cmp (x :: xs)
    else
      let pivot := sample cmp (x :: xs) x (x :: xs).length 0
      let isLess (y : α) : Bool := cmp y pivot == .lt
      let isGreater (y : α) : Bool := cmp pivot y == .lt
      let less := (x :: xs).filter isLess
      if less.isEmpty || ancestor.any fun a ↦ cmp a pivot != .lt then do
        let greater ← sortAround? cmp limit none ((x :: xs).filter isGreater)
        return (x :: xs).filter (fun y ↦ !isGreater y) ++ greater
      else do
        let right ← sortAround? cmp limit (some pivot) ((x :: xs).filter fun y ↦ !isLess y)
        let left ← sortAround? cmp limit ancestor less
        return left ++ right

/-- As many revisions have room in eight million bytes. -/
def maxRoom : Nat := 83333

end RunSort

open RunSort in
/-- Sorts a list, equal elements in the order they come. There is no result if the sort notices that
the comparison is no order on the elements. -/
def sort? {α : Type} (cmp : α → α → Ordering) (xs : List α) : Option (List α) :=
  if xs.length ≤ 20 then
    some (sortBy cmp xs)
  else
    let settle (ys : List α) := sortAround? cmp (2 * ys.length.log2) none ys
    let room := max (xs.length - xs.length / 2) (min xs.length maxRoom)
    sortRuns? cmp settle room (xs.length ≤ 2 * shortLength) xs

end ArtifactIndex
