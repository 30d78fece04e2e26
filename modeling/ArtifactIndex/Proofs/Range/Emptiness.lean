import ArtifactIndex.Proofs.Range.Coverage

/-!
# Empty ranges

A range is empty when it holds nothing from `0` up, and the test for that asks each interval for its
upper end alone. `isEmpty_exact` compares the test with two others that look at both ends: it
passes exactly when the range has no part in common with `everything`, and a range that passes it
holds no version from `0` up.

As a cut the upper end of such an interval lies at most at the slot of `0`
(`Scale.reachesZero_iff`). That the lower end need not be asked for is due to the invariant: an
interval that has room and goes on behind `0` goes on behind its lower end too, so that it has room
for the part from `0` up (`Scale.inter?_fromZero_eq_none_iff`).
-/

set_option autoImplicit false
set_option relaxedAutoImplicit false

namespace ArtifactIndex

namespace Range

theorem isEmpty_iff {r : Range} : r.isEmpty ↔ ∀ i ∈ r.intervals, ¬ i.reachesZero := by
  simp [isEmpty]

/-- The one interval of `everything`. -/
def fromZero : Interval :=
  ⟨some .zero, true, none, false⟩

theorem mem_intervals_everything {i : Interval} : i ∈ everything.intervals ↔ i = fromZero :=
  List.mem_singleton

end Range

namespace Scale

open Range (fromZero)

variable {scale : Scale} {i j : Interval}

/-! ### Cuts at zero -/

theorem reachesZero_iff (hzero : .zero ∈ scale) (hi : scale.Holds i) :
    i.reachesZero ↔ scale.slot .zero < scale.upperCut i := by
  unfold Interval.reachesZero upperCut
  cases hu : i.upper with
  | none =>
    have htop := scale.slot_lt_top .zero
    simp only [true_iff]
    omega
  | some u =>
    rcases cmp_cases (hi.upper hu) hzero with ⟨hcmp, hslot⟩ | ⟨hcmp, hslot⟩ | ⟨hcmp, hslot⟩ <;>
      cases hincluded : i.upperIncluded <;>
      simp only [hcmp, Bool.false_eq_true, if_true, if_false, true_iff, false_iff] <;> omega

theorem holds_fromZero (hzero : .zero ∈ scale) : scale.Holds fromZero := by
  refine holds_mk ?_ ?_
  · rintro l hl
    obtain rfl := Option.some.inj hl
    exact hzero
  · rintro u hu
    exact absurd hu (Option.some_ne_none u).symm

/-- An interval that has room has none from `0` up exactly when it stops at `0` or before. -/
theorem inter?_fromZero_eq_none_iff (hzero : .zero ∈ scale) (hi : scale.Holds i)
    (hroom : i.isOrdered) : i.inter? fromZero = none ↔ ¬ i.reachesZero := by
  have hlower : scale.lowerCut fromZero = scale.slot .zero := rfl
  have hupper : scale.upperCut fromZero = scale.top := rfl
  have hslot := scale.slot_lt_top .zero
  have hbelow := scale.upperCut_le_top i
  rw [isOrdered_iff hi] at hroom
  rw [inter?_eq_none_iff_cut_le hi (holds_fromZero hzero), reachesZero_iff hzero hi, hlower, hupper]
  omega

/-- A version from `0` up takes the interval that holds it there. -/
theorem reachesZero_of_mem (hzero : .zero ∈ scale) (hi : scale.Holds i) {v : Version}
    (hv : v ∈ scale) (hvzero : v.cmp .zero ≠ .lt) (hvi : v ∈ i) : i.reachesZero := by
  have hslot := (cmp_ne_lt_iff hv hzero).1 hvzero
  have hupper := ((mem_iff_cut hi hv).1 hvi).2
  rw [reachesZero_iff hzero hi]
  omega

end Scale

namespace Range

/-- A range is found empty exactly when it has no part in common with every version from `0` on, and
then no version from `0` on is in it. -/
theorem isEmpty_exact {versions : List Version} {r : Range} (hbuilt : BuiltFrom versions r)
    (htotal : TotalPreorderOn Version.cmp (· ∈ .zero :: versions)) :
    (r.isEmpty ↔ (r.inter everything).intervals = []) ∧
      (r.isEmpty → ∀ v : Version, TotalPreorderOn Version.cmp (· ∈ v :: .zero :: versions) →
        v.cmp .zero ≠ .lt → v ∉ r) := by
  constructor
  · have hzero : .zero ∈ Scale.mk _ htotal := List.mem_cons_self
    obtain ⟨hr, hsep⟩ := Scale.separated_of_builtFrom hbuilt hzero
      fun w hw ↦ List.mem_cons_of_mem _ hw
    rw [isEmpty_iff, intervals_inter_eq_nil_iff]
    refine forall₂_congr fun i hi ↦ ?_
    simp only [mem_intervals_everything, forall_eq]
    exact (Scale.inter?_fromZero_eq_none_iff hzero (hr.holds hi) (hsep.ordered i hi)).symm
  · intro hempty v hv hvzero hvr
    have hzero : .zero ∈ Scale.mk _ hv := List.mem_cons_of_mem _ List.mem_cons_self
    obtain ⟨hr, -⟩ := Scale.separated_of_builtFrom hbuilt hzero
      fun w hw ↦ List.mem_cons_of_mem _ (List.mem_cons_of_mem _ hw)
    obtain ⟨i, hi, hvi⟩ := mem_iff.1 hvr
    exact isEmpty_iff.1 hempty i hi
      (Scale.reachesZero_of_mem hzero (hr.holds hi) List.mem_cons_self hvzero hvi)

/-- Up to `0-ga`, which is as much as `0` and is included. -/
def upToZero : Range :=
  ⟨[⟨none, false, some ⟨"0-ga", by decide +kernel⟩, true⟩]⟩

/-- The complement of everything ends before `0`, and so does its part in a range that ends with
`0`; that range by itself holds `0` and is not empty. -/
theorem isEmpty_exact_upToZero :
    let r := everything.complement.inter upToZero
    BuiltFrom (everything.bounds ++ upToZero.bounds) r ∧ BuiltFrom upToZero.bounds upToZero ∧
      TotalPreorderOn Version.cmp (· ∈ .zero :: (everything.bounds ++ upToZero.bounds)) ∧
      r.intervals ≠ [] ∧ (r.inter everything).intervals = [] ∧ .zero ∉ r ∧
      (upToZero.inter everything).intervals ≠ [] := by
  intro r
  have hread : Range.parse "(,0-ga]" = .ok upToZero := by decide +kernel
  have hbuilt : BuiltFrom (everything.bounds ++ upToZero.bounds) r :=
    .inter (.complement .everything) (.parse hread)
  have htotal : TotalPreorderOn Version.cmp
      (· ∈ .zero :: (everything.bounds ++ upToZero.bounds)) := by
    decide +kernel
  have hempty : r.isEmpty := by decide +kernel
  have hexact := isEmpty_exact hbuilt htotal
  refine ⟨hbuilt, .parse hread, htotal, by decide +kernel, hexact.1.1 hempty, ?_, ?_⟩
  · exact hexact.2 hempty .zero (by decide +kernel) (by decide +kernel)
  · rw [ne_eq, ← (isEmpty_exact (.parse hread) (by decide +kernel)).1]
    decide +kernel

end Range
end ArtifactIndex
