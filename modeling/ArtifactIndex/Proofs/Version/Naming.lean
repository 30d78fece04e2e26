import Mathlib.Data.List.Basic
import ArtifactIndex.Version.Qualifier

/-!
# Names of qualifiers

A qualifier may be spelled in several ways. `canonicalName` says what a spelling is called in the
order of versions and `place` where that name stands. Reading a spelling as a `Qualifier` keeps the
name (`Qualifier.name_ofText`), and qualifiers are ordered as their names are
(`Qualifier.cmp_eq_compareNames`).
-/

set_option autoImplicit false
set_option relaxedAutoImplicit false

namespace ArtifactIndex

/-- The names with a place of their own, in ascending order. -/
def placedNames : List String :=
  ["alpha", "beta", "milestone", "rc", "snapshot", "release", "sp"]

/-- All other names share the place behind those. -/
def place (name : String) : ℕ :=
  placedNames.idxOf name

/-- What a qualifier in lower case is called; a single letter is short for a name only where a
number follows it directly. -/
def canonicalName (spelling : String) (beforeNumber : Bool) : String :=
  if beforeNumber ∧ spelling = "a" then "alpha"
  else if beforeNumber ∧ spelling = "b" then "beta"
  else if beforeNumber ∧ spelling = "m" then "milestone"
  else if spelling = "cr" then "rc"
  else if spelling = "ga" ∨ spelling = "final" then "release"
  else spelling

/-- The order of names: by place, and names without a place of their own as strings. -/
def compareNames (name name' : String) : Ordering :=
  (compare (place name) (place name')).then (compare name name')

theorem compare_then_of_ne {m n : ℕ} (h : m ≠ n) (o : Ordering) :
    (compare m n).then o = compare m n := by
  rcases Nat.lt_or_gt_of_ne h with hlt | hgt
  · rw [Nat.compare_eq_lt.2 hlt]
    rfl
  · rw [Nat.compare_eq_gt.2 hgt]
    rfl

namespace Qualifier

/-- The name of a qualifier. -/
def name : Qualifier → String
  | alpha => "alpha"
  | beta => "beta"
  | milestone => "milestone"
  | rc => "rc"
  | snapshot => "snapshot"
  | release => "release"
  | sp => "sp"
  | other name => name

theorem name_ofText {spelling : String} (h : spelling ≠ "") (beforeNumber : Bool) :
    (ofText spelling beforeNumber).name = canonicalName spelling beforeNumber := by
  unfold ofText
  cases beforeNumber <;> split <;> simp_all [name, canonicalName]

/-- The names with a place of their own are not used for other qualifiers. -/
def Proper : Qualifier → Prop
  | other name => name ∉ placedNames
  | _ => True

theorem proper_ofText (spelling : String) (beforeNumber : Bool) :
    (ofText spelling beforeNumber).Proper := by
  unfold ofText
  split <;> simp_all [Proper, placedNames]

theorem rank_eq_place {p : Qualifier} (h : p.Proper) : p.rank = place p.name := by
  cases p with
  | other name => exact (List.idxOf_eq_length h).symm
  | _ => decide

/-- Qualifiers of one rank are the same, or neither has a place of its own. -/
theorem eq_or_other_of_rank_eq {p q : Qualifier} (h : p.rank = q.rank) :
    p = q ∨ ∃ m n, p = other m ∧ q = other n := by
  cases p <;> cases q <;> simp_all [rank]

/-- The order of two qualifiers of different rank, whatever else is compared after them. -/
theorem cmp_then_of_rank_ne {p q : Qualifier} (h : p.rank ≠ q.rank) (o : Ordering) :
    (p.cmp q).then o = compare p.rank q.rank := by
  rw [cmp, Ordering.then_assoc, compare_then_of_ne h]

theorem cmp_eq_compareNames {p q : Qualifier} (hp : p.Proper) (hq : q.Proper) :
    p.cmp q = compareNames p.name q.name := by
  rw [cmp, compareNames, ← rank_eq_place hp, ← rank_eq_place hq]
  by_cases hrank : p.rank = q.rank
  · rcases eq_or_other_of_rank_eq hrank with rfl | ⟨m, n, rfl, rfl⟩
    · simp
    · rfl
  · rw [compare_then_of_ne hrank, compare_then_of_ne hrank]

theorem eq_release_of_rank_eq {p : Qualifier} (h : p.rank = release.rank) : p = release := by
  rcases eq_or_other_of_rank_eq h with hrelease | ⟨m, n, -, hother⟩
  · exact hrelease
  · exact Qualifier.noConfusion hother

end Qualifier
end ArtifactIndex
