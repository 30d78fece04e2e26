/-!
Qualifiers of a version. Seven of them have a fixed place in the order; every other text comes
after those and is ordered as a string. `Qualifier.ofText` is where the spellings meet: a release
may be called `ga`, `final` or `release`, a release candidate `cr`, and the letters `a`, `b` and
`m` stand for alpha, beta and milestone directly before a digit.
-/

set_option autoImplicit false

namespace ArtifactIndex

inductive Qualifier where
  | alpha
  | beta
  | milestone
  | rc
  | snapshot
  | release
  | sp
  | other (name : String)
  deriving DecidableEq, Repr

namespace Qualifier

/-- The place of a qualifier; all texts without a place of their own share the last one. -/
def rank : Qualifier → Nat
  | alpha => 0
  | beta => 1
  | milestone => 2
  | rc => 3
  | snapshot => 4
  | release => 5
  | sp => 6
  | other _ => 7

/-- What separates two qualifiers of equal rank. -/
def tieBreak : Qualifier → String
  | other name => name
  | _ => ""

def cmp (p q : Qualifier) : Ordering :=
  (compare p.rank q.rank).then (compare p.tieBreak q.tieBreak)

theorem cmp_swap (p q : Qualifier) : (p.cmp q).swap = q.cmp p := by
  simp [cmp, Ordering.swap_then, Std.OrientedOrd.eq_swap (a := q.rank) (b := p.rank),
    Std.OrientedOrd.eq_swap (a := q.tieBreak) (b := p.tieBreak)]

/-- Reads a lower-case text; `beforeDigit` tells whether a digit follows it directly. -/
def ofText (text : String) (beforeDigit : Bool) : Qualifier :=
  match text, beforeDigit with
  | "a", true => alpha
  | "b", true => beta
  | "m", true => milestone
  | "alpha", _ => alpha
  | "beta", _ => beta
  | "milestone", _ => milestone
  | "rc", _ => rc
  | "cr", _ => rc
  | "snapshot", _ => snapshot
  | "", _ => release
  | "ga", _ => release
  | "final", _ => release
  | "release", _ => release
  | "sp", _ => sp
  | name, _ => other name

end Qualifier
end ArtifactIndex
