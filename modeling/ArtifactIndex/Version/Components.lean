import ArtifactIndex.Version.Qualifier
/-!
The components of a version and their order. Components stand in a list that may end in a sub
list, so a nested structure is a chain of numbers and qualifiers with marks where a sub list
opens; `Components` is that chain, and a list with two sub lists cannot be written down.

`Components.cmp` compares position by position and pads the shorter list. Padding is worth as much
as a release: `0` and a release qualifier equal it, a larger number exceeds it. A sub list against
padding is judged by its first entry alone.
-/

set_option autoImplicit false

namespace ArtifactIndex

inductive Component where
  | number (value : Nat)
  | qualifier (name : Qualifier)
  deriving DecidableEq, Repr

namespace Component

/-- A number exceeds every qualifier. -/
def cmp : Component → Component → Ordering
  | number m, number n => compare m n
  | number _, qualifier _ => .gt
  | qualifier _, number _ => .lt
  | qualifier p, qualifier q => p.cmp q

def cmpPadding : Component → Ordering
  | number n => compare n 0
  | qualifier q => compare q.rank Qualifier.release.rank

/-- A component is null when padding would do as well. -/
def isNull (c : Component) : Bool :=
  c.cmpPadding == .eq

/-- A sub list exceeds a qualifier and falls short of a number. -/
def cmpSublist : Component → Ordering
  | number _ => .gt
  | qualifier _ => .lt

theorem cmp_swap (c d : Component) : (c.cmp d).swap = d.cmp c := by
  cases c <;> cases d <;> simp [cmp, Qualifier.cmp_swap, Nat.compare_swap]

end Component

inductive Components where
  | done
  | item (head : Component) (tail : Components)
  | sublist (inner : Components)
  deriving DecidableEq, Repr

namespace Components

/-! ### Order -/

/-- A sub list holding these components, against padding. -/
def cmpFirstPadding : Components → Ordering
  | done => .eq
  | item c _ => c.cmpPadding
  | sublist inner => inner.cmpFirstPadding

/-- The order of these components and a list that has ended. -/
def cmpEnd : Components → Ordering
  | done => .eq
  | item c rest => c.cmpPadding.then rest.cmpEnd
  | sublist inner => inner.cmpFirstPadding

def cmp : Components → Components → Ordering
  | done, ys => ys.cmpEnd.swap
  | item c rest, done => (item c rest).cmpEnd
  | item c xs, item d ys => (c.cmp d).then (xs.cmp ys)
  | item c _, sublist _ => c.cmpSublist
  | sublist inner, done => inner.cmpFirstPadding
  | sublist _, item d _ => d.cmpSublist.swap
  | sublist xs, sublist ys => xs.cmp ys

theorem cmp_done (xs : Components) : xs.cmp done = xs.cmpEnd := by
  cases xs <;> simp [cmp, cmpEnd]

theorem cmp_swap (xs ys : Components) : (xs.cmp ys).swap = ys.cmp xs := by
  fun_induction cmp xs ys with
  | case1 ys => simp [cmp_done]
  | case3 c xs d ys ih => simp [cmp, Ordering.swap_then, Component.cmp_swap, ih]
  | case5 => simp [cmp, cmpEnd]
  | case7 xs ys ih => simp [cmp, ih]
  | _ => simp [cmp]

/-! ### Normal form -/

/-- No number or qualifier stands in front of the next sub list or the end. -/
def startsClosed : Components → Bool
  | item _ _ => false
  | _ => true

/-- Drops, in every list, the null components after its last other one, and sub lists left
empty. -/
def normalize : Components → Components
  | done => done
  | item c rest =>
    let rest := rest.normalize
    if c.isNull && rest.startsClosed then rest else item c rest
  | sublist inner =>
    match inner.normalize with
    | done => done
    | inner => sublist inner

/-! ### Reading -/

/-- The unfinished component in front of the next character. -/
inductive Run where
  | none
  | digits (value : Nat)
  | letters (reversed : List Char)
  deriving DecidableEq, Repr

namespace Run

/-- The component a run becomes at a separator or at the end of the text. -/
def close : Run → Component
  | none => .number 0
  | digits n => .number n
  | letters cs => .qualifier (.ofText (String.ofList cs.reverse) false)

end Run

def digitValue (c : Char) : Nat :=
  c.toNat - 48

/-- Reads lower-case text. A hyphen opens a sub list, and so does a change between digits and other
characters; an empty part before a separator counts as `0`. -/
def scan : Run → List Char → Components
  | .none, [] => done
  | run, [] => item run.close done
  | run, c :: cs =>
    if c = '.' then item run.close (scan .none cs)
    else if c = '-' then item run.close (sublist (scan .none cs))
    else if c.isDigit then
      match run with
      | .none => scan (.digits (digitValue c)) cs
      | .digits n => scan (.digits (10 * n + digitValue c)) cs
      | .letters rev =>
        item (.qualifier (.ofText (String.ofList rev.reverse) true))
          (sublist (scan (.digits (digitValue c)) cs))
    else
      match run with
      | .none => scan (.letters [c]) cs
      | .digits n => item (.number n) (sublist (scan (.letters [c]) cs))
      | .letters rev => scan (.letters (c :: rev)) cs

/-- The structure of a lower-case text. -/
def ofChars (cs : List Char) : Components :=
  (scan .none cs).normalize

end Components
end ArtifactIndex
