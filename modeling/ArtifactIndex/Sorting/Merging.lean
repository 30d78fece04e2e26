import ArtifactIndex.Sorting
/-!
Ascending lists are merged from the front, from the back, or from both ends at once. The third way
takes half of the elements from each end without looking at the other; if the comparison is no
order the two halves may use an element twice and leave another one out, which is noticed by where
they end.
-/

set_option autoImplicit false

namespace ArtifactIndex.RunSort

variable {α : Type}

/-- What was taken from two lists, and what was left of them. -/
structure Draw (α : Type) where
  taken : List α
  left : List α
  right : List α

/-- Takes `n` elements from the fronts of two lists, the left front first unless the right one is
less. -/
def draw (cmp : α → α → Ordering) : Nat → List α → List α → Draw α
  | n + 1, l :: ls, r :: rs =>
    if cmp r l = .lt then
      let rest := draw cmp n (l :: ls) rs
      { rest with taken := r :: rest.taken }
    else
      let rest := draw cmp n ls (r :: rs)
      { rest with taken := l :: rest.taken }
  | n + 1, l :: ls, [] =>
    let rest := draw cmp n ls []
    { rest with taken := l :: rest.taken }
  | n + 1, [], r :: rs =>
    let rest := draw cmp n [] rs
    { rest with taken := r :: rest.taken }
  | _, ls, rs => ⟨[], ls, rs⟩

/-- Takes `n` elements from the backs of two lists, the right back first unless it is less than the
left one. -/
def drawBack (cmp : α → α → Ordering) (n : Nat) (ls rs : List α) : Draw α :=
  let d := draw (fun a b ↦ cmp b a) n rs.reverse ls.reverse
  ⟨d.taken.reverse, d.right.reverse, d.left.reverse⟩

/-- Merges from the side of the shorter list. -/
def merge (cmp : α → α → Ordering) (ls rs : List α) : List α :=
  let drawn := if ls.length ≤ rs.length then draw cmp else drawBack cmp
  (drawn (ls.length + rs.length) ls rs).taken

/-- Goes on for `n` elements in one of the two lists. -/
def Draw.moveOn (d : Draw α) (fromLeft : Bool) (n : Nat) : Draw α :=
  if fromLeft then ⟨d.left.take n, d.left.drop n, d.right⟩
  else ⟨d.right.take n, d.left, d.right.drop n⟩

/-- Merges from both ends at once; the right list may be longer by one. There is no result if the
elements taken from the two ends do not make up the lists. -/
def mergeInward? (cmp : α → α → Ordering) (ls rs : List α) : Option (List α) :=
  let front := draw cmp ls.length ls rs
  let back := drawBack cmp ls.length ls rs
  -- an odd element is the next of the left list, unless front and back have met there
  let fromLeft : Bool := ls.length < front.left.length + back.left.length
  let middle := front.moveOn fromLeft (rs.length - ls.length)
  if middle.left.length + back.left.length = ls.length ∧
      middle.right.length + back.right.length = rs.length then
    some (front.taken ++ (middle.taken ++ back.taken))
  else
    none

/-! ### Short lists -/

def pair (cmp : α → α → Ordering) (a b : α) : α × α :=
  if cmp b a = .lt then (b, a) else (a, b)

/-- The two elements in the middle are put in order. -/
def enclose (cmp : α → α → Ordering) (least a b greatest : α) : List α :=
  let (low, high) := pair cmp a b
  [least, low, high, greatest]

/-- Two pairs are put in order; one of their first elements is the least, one of their second
elements the greatest, and the other two are compared with each other. -/
def sortFour (cmp : α → α → Ordering) (w x y z : α) : List α :=
  let (a, b) := pair cmp w x
  let (c, d) := pair cmp y z
  if cmp c a = .lt then
    if cmp d b = .lt then enclose cmp c a d b else enclose cmp c a b d
  else
    if cmp d b = .lt then enclose cmp a c d b else enclose cmp a b c d

/-- Sorts by insertion, behind the first four elements if these are put in order on their own. -/
def sortHalf (cmp : α → α → Ordering) (byFour : Bool) : List α → List α
  | w :: x :: y :: z :: rest =>
    if byFour then (sortDown cmp rest (sortFour cmp w x y z).reverse).reverse
    else sortBy cmp (w :: x :: y :: z :: rest)
  | xs => sortBy cmp xs

/-- Sorts the two halves and merges them from both ends. -/
def sortShort? (cmp : α → α → Ordering) (xs : List α) : Option (List α) :=
  if xs.length < 2 then
    some xs
  else
    let half := xs.length / 2
    let byFour : Bool := 8 ≤ xs.length
    mergeInward? cmp (sortHalf cmp byFour (xs.take half)) (sortHalf cmp byFour (xs.drop half))

end ArtifactIndex.RunSort
