import ArtifactIndex.Proofs.Order.Rank
import ArtifactIndex.Range.Basic

/-!
# Intervals as pairs of cuts

On finitely many versions that the component order puts into a total preorder, a version is a place
on a line and an end of an interval is a cut before or after a place. A `Scale` is such a list of
versions. It gives each listed version an odd number, its `slot`; the cut before it is that number,
the cut after it the next one, and the ends that are missing lie at `0` and at `top`. An interval
holds the versions whose slots are at least its `lowerCut` and below its `upperCut` (`mem_iff_cut`).

Everything the intervals are asked then is linear arithmetic: the ends leave room when the lower cut
is below the upper one (`isOrdered_iff`), an interval precedes the next when its upper cut is at
most the lower cut of the next (`precedes_iff`), the comparison of lower ends is that of lower cuts
(`cmpLower_eq`), and the common part of two intervals takes the greater lower and the smaller upper
cut (`inter?_eq_some`, `inter?_eq_none_iff_cut_le`).
-/

set_option autoImplicit false
set_option relaxedAutoImplicit false

namespace ArtifactIndex

/-! ### The versions at the ends -/

namespace Interval

def bounds (i : Interval) : List Version :=
  i.lower.toList ++ i.upper.toList

theorem mem_bounds_of_lower {i : Interval} {l : Version} (h : i.lower = some l) :
    l ∈ i.bounds := by
  simp [bounds, h]

theorem mem_bounds_of_upper {i : Interval} {u : Version} (h : i.upper = some u) :
    u ∈ i.bounds := by
  simp [bounds, h]

/-- The interval between the inner ends, whether or not they leave room. -/
def inner (i j : Interval) : Interval where
  lower := (innerEnd .lt i.lower i.lowerIncluded j.lower j.lowerIncluded).1
  lowerIncluded := (innerEnd .lt i.lower i.lowerIncluded j.lower j.lowerIncluded).2
  upper := (innerEnd .gt i.upper i.upperIncluded j.upper j.upperIncluded).1
  upperIncluded := (innerEnd .gt i.upper i.upperIncluded j.upper j.upperIncluded).2

theorem inter?_eq (i j : Interval) :
    i.inter? j = if (i.inner j).isOrdered then some (i.inner j) else none :=
  rfl

theorem innerEnd_eq_or (further : Ordering) (a b : Option Version) (aIncluded bIncluded : Bool) :
    (innerEnd further a aIncluded b bIncluded).1 = a ∨
      (innerEnd further a aIncluded b bIncluded).1 = b := by
  unfold innerEnd
  split
  · exact .inl rfl
  · exact .inl rfl
  · exact .inr rfl
  · split
    · exact .inl rfl
    · split
      · exact .inr rfl
      · exact .inl rfl

/-- An inner end is an end of one of the two intervals. -/
theorem mem_bounds_inner {i j : Interval} {v : Version} (h : v ∈ (i.inner j).bounds) :
    v ∈ i.bounds ∨ v ∈ j.bounds := by
  rcases List.mem_append.1 h with h | h
  · have hv : (i.inner j).lower = some v := Option.mem_toList.1 h
    rcases innerEnd_eq_or .lt i.lower j.lower i.lowerIncluded j.lowerIncluded with he | he
    · exact .inl (mem_bounds_of_lower (he.symm.trans hv))
    · exact .inr (mem_bounds_of_lower (he.symm.trans hv))
  · have hv : (i.inner j).upper = some v := Option.mem_toList.1 h
    rcases innerEnd_eq_or .gt i.upper j.upper i.upperIncluded j.upperIncluded with he | he
    · exact .inl (mem_bounds_of_upper (he.symm.trans hv))
    · exact .inr (mem_bounds_of_upper (he.symm.trans hv))

end Interval

namespace Range

def bounds (r : Range) : List Version :=
  r.intervals.flatMap Interval.bounds

end Range

/-! ### Scales -/

/-- Finitely many versions on which the component order is a total preorder. -/
structure Scale where
  versions : List Version
  total : TotalPreorderOn Version.cmp (· ∈ versions)

namespace Scale

instance : Membership Version Scale :=
  ⟨fun scale v ↦ v ∈ scale.versions⟩

variable (scale : Scale)

/-- The place of a version. Slots are odd, so that the number after one is not a slot. -/
def slot (v : Version) : ℕ :=
  2 * rank Version.cmp scale.versions v + 1

/-- The cut after all slots. -/
def top : ℕ :=
  2 * scale.versions.length + 3

theorem slot_lt_top (v : Version) : scale.slot v + 1 < scale.top := by
  have hrank : rank Version.cmp scale.versions v ≤ scale.versions.length :=
    rank_le_length scale.versions v
  unfold slot top
  omega

theorem slot_pos (v : Version) : 0 < scale.slot v :=
  Nat.succ_pos _

variable {scale}

theorem cmp_eq_compare_slot {v w : Version} (hv : v ∈ scale) (hw : w ∈ scale) :
    v.cmp w = compare (scale.slot v) (scale.slot w) := by
  rw [scale.total.cmp_eq_compare_rank hv hw, Nat.compare_eq_ite_lt, Nat.compare_eq_ite_lt]
  unfold slot
  simp only [Nat.add_lt_add_iff_right, Nat.mul_lt_mul_left, Nat.zero_lt_two]

/-- Different slots are two apart. -/
theorem cmp_cases {v w : Version} (hv : v ∈ scale) (hw : w ∈ scale) :
    (v.cmp w = .lt ∧ scale.slot v + 2 ≤ scale.slot w) ∨
      (v.cmp w = .eq ∧ scale.slot v = scale.slot w) ∨
        (v.cmp w = .gt ∧ scale.slot w + 2 ≤ scale.slot v) := by
  have hcmp := cmp_eq_compare_slot hv hw
  have hodd (x : Version) : scale.slot x = 2 * rank Version.cmp scale.versions x + 1 := rfl
  rcases Nat.lt_trichotomy (scale.slot v) (scale.slot w) with hlt | heq | hgt
  · refine .inl ⟨hcmp.trans (Nat.compare_eq_lt.2 hlt), ?_⟩
    rw [hodd] at hlt ⊢
    rw [hodd] at hlt ⊢
    omega
  · exact .inr (.inl ⟨hcmp.trans (Nat.compare_eq_eq.2 heq), heq⟩)
  · refine .inr (.inr ⟨hcmp.trans (Nat.compare_eq_gt.2 hgt), ?_⟩)
    rw [hodd] at hgt ⊢
    rw [hodd] at hgt ⊢
    omega

/-! ### Cuts -/

variable (scale)

/-- The cut at which an interval starts, after the slot of an excluded end. -/
def lowerCut (i : Interval) : ℕ :=
  match i.lower with
  | none => 0
  | some l => scale.slot l + if i.lowerIncluded then 0 else 1

/-- The cut at which an interval stops, after the slot of an included end. -/
def upperCut (i : Interval) : ℕ :=
  match i.upper with
  | none => scale.top
  | some u => scale.slot u + if i.upperIncluded then 1 else 0

/-- The ends of the interval are listed. -/
def Holds (i : Interval) : Prop :=
  ∀ v ∈ i.bounds, v ∈ scale

/-- The ends of all intervals of the range are listed. -/
def Spans (r : Range) : Prop :=
  ∀ v ∈ r.bounds, v ∈ scale

variable {scale}

theorem Spans.holds {r : Range} (h : scale.Spans r) {i : Interval} (hi : i ∈ r.intervals) :
    scale.Holds i :=
  fun v hv ↦ h v (List.mem_flatMap.2 ⟨i, hi, hv⟩)

theorem spans_of_holds {r : Range} (h : ∀ i ∈ r.intervals, scale.Holds i) : scale.Spans r := by
  intro v hv
  obtain ⟨i, hi, hvi⟩ := List.mem_flatMap.1 hv
  exact h i hi v hvi

theorem Holds.lower {i : Interval} (h : scale.Holds i) {l : Version} (hl : i.lower = some l) :
    l ∈ scale :=
  h l (Interval.mem_bounds_of_lower hl)

theorem Holds.upper {i : Interval} (h : scale.Holds i) {u : Version} (hu : i.upper = some u) :
    u ∈ scale :=
  h u (Interval.mem_bounds_of_upper hu)

theorem holds_mk {lower upper : Option Version} {lowerIncluded upperIncluded : Bool}
    (hlower : ∀ l, lower = some l → l ∈ scale) (hupper : ∀ u, upper = some u → u ∈ scale) :
    scale.Holds ⟨lower, lowerIncluded, upper, upperIncluded⟩ := by
  intro v hv
  rcases List.mem_append.1 hv with hv | hv
  · exact hlower v (Option.mem_toList.1 hv)
  · exact hupper v (Option.mem_toList.1 hv)

theorem lowerCut_lt_top (i : Interval) : scale.lowerCut i < scale.top := by
  unfold lowerCut
  split
  · exact Nat.succ_pos _
  · next l _ =>
    have hslot := scale.slot_lt_top l
    split <;> omega

theorem upperCut_pos (i : Interval) : 0 < scale.upperCut i := by
  unfold upperCut
  split
  · exact Nat.succ_pos _
  · next u _ =>
    have hslot := scale.slot_pos u
    omega

/-! ### Membership -/

theorem admitsFromBelow_iff {i : Interval} {v : Version} (hi : scale.Holds i) (hv : v ∈ scale) :
    i.admitsFromBelow v ↔ scale.lowerCut i ≤ scale.slot v := by
  unfold Interval.admitsFromBelow lowerCut
  cases hl : i.lower with
  | none => simp
  | some l =>
    rcases cmp_cases hv (hi.lower hl) with ⟨hcmp, hslot⟩ | ⟨hcmp, hslot⟩ | ⟨hcmp, hslot⟩ <;>
      cases hincluded : i.lowerIncluded <;>
      simp only [hcmp, Bool.false_eq_true, if_true, if_false, true_iff, false_iff] <;> omega

theorem admitsFromAbove_iff {i : Interval} {v : Version} (hi : scale.Holds i) (hv : v ∈ scale) :
    i.admitsFromAbove v ↔ scale.slot v < scale.upperCut i := by
  unfold Interval.admitsFromAbove upperCut
  cases hu : i.upper with
  | none =>
    have htop := scale.slot_lt_top v
    simp only [true_iff]
    omega
  | some u =>
    rcases cmp_cases hv (hi.upper hu) with ⟨hcmp, hslot⟩ | ⟨hcmp, hslot⟩ | ⟨hcmp, hslot⟩ <;>
      cases hincluded : i.upperIncluded <;>
      simp only [hcmp, Bool.false_eq_true, if_true, if_false, true_iff, false_iff] <;> omega

/-- The versions of an interval are those with their slots between its cuts. -/
theorem mem_iff_cut {i : Interval} {v : Version} (hi : scale.Holds i) (hv : v ∈ scale) :
    v ∈ i ↔ scale.lowerCut i ≤ scale.slot v ∧ scale.slot v < scale.upperCut i := by
  rw [Interval.mem_iff, admitsFromBelow_iff hi hv, admitsFromAbove_iff hi hv]

/-- A place on the line lies between the cuts of the interval, whether or not it is the slot of a
listed version. -/
def Within (scale : Scale) (place : ℕ) (i : Interval) : Prop :=
  scale.lowerCut i ≤ place ∧ place < scale.upperCut i

theorem mem_iff_within {i : Interval} {v : Version} (hi : scale.Holds i) (hv : v ∈ scale) :
    v ∈ i ↔ scale.Within (scale.slot v) i :=
  mem_iff_cut hi hv

theorem upperCut_le_top (i : Interval) : scale.upperCut i ≤ scale.top := by
  unfold upperCut
  split
  · exact Nat.le_refl _
  · next u _ =>
    have hslot := scale.slot_lt_top u
    split <;> omega

/-! ### Ends -/

theorem isOrdered_iff {i : Interval} (hi : scale.Holds i) :
    i.isOrdered ↔ scale.lowerCut i < scale.upperCut i := by
  have htop := scale.lowerCut_lt_top i
  have hpos := scale.upperCut_pos i
  unfold Interval.isOrdered
  unfold lowerCut upperCut at *
  cases hl : i.lower with
  | none => simpa [hl] using hpos
  | some l =>
    cases hu : i.upper with
    | none => simpa [hl] using htop
    | some u =>
      rcases cmp_cases (hi.lower hl) (hi.upper hu) with
        ⟨hcmp, hslot⟩ | ⟨hcmp, hslot⟩ | ⟨hcmp, hslot⟩ <;>
        cases hlower : i.lowerIncluded <;> cases hupper : i.upperIncluded <;>
        simp only [hcmp, Bool.and_true, Bool.and_false, Bool.false_eq_true, if_true, if_false,
          true_iff, false_iff] <;> omega

theorem precedes_iff {i next : Interval} (hi : scale.Holds i) (hnext : scale.Holds next) :
    i.precedes next ↔ scale.upperCut i ≤ scale.lowerCut next := by
  have htop := scale.lowerCut_lt_top next
  have hpos := scale.upperCut_pos i
  unfold Interval.precedes
  unfold lowerCut upperCut at *
  cases hu : i.upper with
  | none => simpa [hu] using htop
  | some u =>
    cases hl : next.lower with
    | none =>
      simp only [hu] at hpos
      simpa only [Bool.false_eq_true, false_iff, Nat.not_le] using hpos
    | some l =>
      rcases cmp_cases (hnext.lower hl) (hi.upper hu) with
        ⟨hcmp, hslot⟩ | ⟨hcmp, hslot⟩ | ⟨hcmp, hslot⟩ <;>
        cases hupper : i.upperIncluded <;> cases hlower : next.lowerIncluded <;>
        simp only [hcmp, Bool.and_true, Bool.and_false, Bool.not_true, Bool.not_false,
          Bool.false_eq_true, if_true, if_false, true_iff, false_iff] <;> omega

/-- An interval that stops strictly below the next one leaves a version out between them. -/
theorem not_meets_of_cut_lt {i next : Interval} (hi : scale.Holds i) (hnext : scale.Holds next)
    (h : scale.upperCut i < scale.lowerCut next) : ¬ i.meets next := by
  unfold Interval.meets
  unfold lowerCut upperCut at h
  cases hu : i.upper with
  | none => simp
  | some u =>
    cases hl : next.lower with
    | none => simp
    | some l =>
      simp only [hu, hl] at h
      rcases cmp_cases (hi.upper hu) (hnext.lower hl) with
        ⟨hcmp, hslot⟩ | ⟨hcmp, hslot⟩ | ⟨hcmp, hslot⟩
      · simp [hcmp]
      · cases hupper : i.upperIncluded <;> cases hlower : next.lowerIncluded <;>
          simp [hcmp, hupper, hlower] at h ⊢ <;> omega
      · simp [hcmp]

theorem cmpLower_eq {i j : Interval} (hi : scale.Holds i) (hj : scale.Holds j) :
    i.cmpLower j = compare (scale.lowerCut i) (scale.lowerCut j) := by
  unfold Interval.cmpLower lowerCut
  cases hl : i.lower with
  | none =>
    cases hm : j.lower with
    | none => rfl
    | some m =>
      have hpos := scale.slot_pos m
      simp only
      rw [Nat.compare_eq_lt.2 (by omega)]
  | some l =>
    cases hm : j.lower with
    | none =>
      have hpos := scale.slot_pos l
      simp only
      rw [Nat.compare_eq_gt.2 (by omega)]
    | some m =>
      simp only
      rcases cmp_cases (hi.lower hl) (hj.lower hm) with
        ⟨hcmp, hslot⟩ | ⟨hcmp, hslot⟩ | ⟨hcmp, hslot⟩
      · rw [hcmp, Nat.compare_eq_lt.2 (by split_ifs <;> omega)]
        rfl
      · -- equal versions: the flags decide, and an included end is the lower cut
        rw [hcmp, hslot]
        cases i.lowerIncluded <;> cases j.lowerIncluded
        · exact (Nat.compare_eq_eq.2 rfl).symm
        · exact (Nat.compare_eq_gt.2 (Nat.lt_succ_self _)).symm
        · exact (Nat.compare_eq_lt.2 (Nat.lt_succ_self _)).symm
        · exact (Nat.compare_eq_eq.2 rfl).symm
      · rw [hcmp, Nat.compare_eq_gt.2 (by split_ifs <;> omega)]
        rfl

/-- On the intervals with listed ends the comparison of lower ends is a total preorder. -/
theorem cmpLower_total : TotalPreorderOn Interval.cmpLower scale.Holds :=
  .of_eq_compare fun _ _ hi hj ↦ cmpLower_eq hi hj

/-! ### Common parts -/

theorem holds_inner {i j : Interval} (hi : scale.Holds i) (hj : scale.Holds j) :
    scale.Holds (i.inner j) :=
  fun v hv ↦ (Interval.mem_bounds_inner hv).elim (hi v) (hj v)

theorem lowerCut_inner {i j : Interval} (hi : scale.Holds i) (hj : scale.Holds j) :
    scale.lowerCut (i.inner j) = max (scale.lowerCut i) (scale.lowerCut j) := by
  unfold lowerCut Interval.inner Interval.innerEnd
  cases hl : i.lower with
  | none =>
    cases hm : j.lower with
    | none => rfl
    | some m => exact (Nat.zero_max _).symm
  | some l =>
    cases hm : j.lower with
    | none => exact (Nat.max_zero _).symm
    | some m =>
      simp only
      rcases cmp_cases (hi.lower hl) (hj.lower hm) with
        ⟨hcmp, hslot⟩ | ⟨hcmp, hslot⟩ | ⟨hcmp, hslot⟩
      · simp only [hcmp, if_true]
        split_ifs <;> omega
      · simp only [hcmp, hslot]
        cases i.lowerIncluded <;> cases j.lowerIncluded <;> simp
      · simp only [hcmp, reduceCtorEq, if_false]
        split_ifs <;> omega

theorem upperCut_inner {i j : Interval} (hi : scale.Holds i) (hj : scale.Holds j) :
    scale.upperCut (i.inner j) = min (scale.upperCut i) (scale.upperCut j) := by
  unfold upperCut Interval.inner Interval.innerEnd
  cases hu : i.upper with
  | none =>
    cases hw : j.upper with
    | none => exact (Nat.min_self _).symm
    | some w =>
      have htop := scale.slot_lt_top w
      simp only
      split_ifs <;> omega
  | some u =>
    cases hw : j.upper with
    | none =>
      have htop := scale.slot_lt_top u
      simp only
      split_ifs <;> omega
    | some w =>
      simp only
      rcases cmp_cases (hi.upper hu) (hj.upper hw) with
        ⟨hcmp, hslot⟩ | ⟨hcmp, hslot⟩ | ⟨hcmp, hslot⟩
      · simp only [hcmp, reduceCtorEq, if_false]
        split_ifs <;> omega
      · simp only [hcmp, hslot]
        cases i.upperIncluded <;> cases j.upperIncluded <;> simp
      · simp only [hcmp, if_true]
        split_ifs <;> omega

/-- A common part has listed ends, room between them, and the inner cuts. -/
theorem inter?_eq_some {i j k : Interval} (hi : scale.Holds i) (hj : scale.Holds j)
    (h : i.inter? j = some k) : scale.Holds k ∧ k.isOrdered ∧
      scale.lowerCut k = max (scale.lowerCut i) (scale.lowerCut j) ∧
      scale.upperCut k = min (scale.upperCut i) (scale.upperCut j) := by
  rw [Interval.inter?_eq] at h
  by_cases hordered : (i.inner j).isOrdered
  · rw [if_pos hordered] at h
    obtain rfl : i.inner j = k := Option.some.inj h
    exact ⟨holds_inner hi hj, hordered, lowerCut_inner hi hj, upperCut_inner hi hj⟩
  · rw [if_neg hordered] at h
    exact absurd h (Option.some_ne_none k).symm

/-- There is no common part exactly when one of the two intervals stops before the inner lower
end. -/
theorem inter?_eq_none_iff_cut_le {i j : Interval} (hi : scale.Holds i) (hj : scale.Holds j) :
    i.inter? j = none ↔
      min (scale.upperCut i) (scale.upperCut j) ≤ max (scale.lowerCut i) (scale.lowerCut j) := by
  have hroom : i.inter? j = none ↔ ¬ (i.inner j).isOrdered := by
    rw [Interval.inter?_eq]
    split_ifs with hordered <;> simp [hordered]
  rw [hroom, isOrdered_iff (holds_inner hi hj), lowerCut_inner hi hj, upperCut_inner hi hj,
    Nat.not_lt]

end Scale
end ArtifactIndex
