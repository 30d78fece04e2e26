import ArtifactIndex.Proofs.Range.Separated

/-!
# The sweep that finds the gaps

The complement of a range is found by one sweep over its intervals in ascending order. The sweep
carries a version and a flag, whether that version is itself covered; on a scale both together are
one cut, `startCut`, below which everything has been dealt with. An interval opens a gap when it
starts above the cut (`opensGap_iff`), and moves the cut up to its own end.

`GapsFrom` says what a list of gaps has to be for a list of intervals from a cut on: every gap has
a lower end and leaves room, no gap reaches below the cut or touches the next one, and together
they hold exactly the places from the cut on that no interval holds. The two ways to take an
interval, `skip` and `emit`, keep this, and so the sweep has it (`gapsFrom_of_ascending`). The one
thing the flags can spoil is a covered version that a later interval leaves out again, which
cannot be when the intervals are ascending; that is the hypothesis the induction carries.
-/

set_option autoImplicit false
set_option relaxedAutoImplicit false

namespace ArtifactIndex

/-! ### One interval of the sweep -/

namespace Range

/-- The interval starts beyond the place of the sweep. -/
def opensGap (position : Version) (passed : Bool) (i : Interval) : Bool :=
  match i.lower with
  | none => false
  | some l =>
    match position.cmp l with
    | .lt => true
    | .eq => !(passed || i.lowerIncluded)
    | .gt => false

def gapBefore (position : Version) (passed : Bool) (i : Interval) : Interval :=
  ⟨some position, !passed, i.lower, !i.lowerIncluded⟩

/-- The gaps behind the interval. -/
def gapsBehind (position : Version) (passed : Bool) (i : Interval) (rest : List Interval) :
    List Interval :=
  match i.upper with
  | none => []
  | some u =>
    if u.cmp position = .lt then gapsFrom position passed rest
    else gapsFrom u i.upperIncluded rest

theorem gapsFrom_cons (position : Version) (passed : Bool) (i : Interval) (rest : List Interval) :
    gapsFrom position passed (i :: rest) =
      if opensGap position passed i then
        gapBefore position passed i :: gapsBehind position passed i rest
      else gapsBehind position passed i rest :=
  rfl

end Range

namespace Scale

/-! ### Gaps -/

/-- The gaps that a list of intervals leaves from a cut on. -/
structure GapsFrom (scale : Scale) (cut : ℕ) (is gaps : List Interval) : Prop where
  holds : ∀ g ∈ gaps, scale.Holds g
  bounded : ∀ g ∈ gaps, g.lower.isSome
  above : ∀ g ∈ gaps, cut ≤ scale.lowerCut g
  ordered : ∀ g ∈ gaps, scale.lowerCut g < scale.upperCut g
  apart : gaps.Pairwise fun g h ↦ scale.upperCut g < scale.lowerCut h
  exact : ∀ place, cut ≤ place → place < scale.top →
    ((∃ g ∈ gaps, scale.Within place g) ↔ ∀ i ∈ is, ¬ scale.Within place i)

variable {scale : Scale}

namespace GapsFrom

/-- Nothing is left above the cut of an interval without an upper end. -/
theorem top (is : List Interval) : scale.GapsFrom scale.top is [] where
  holds := by simp
  bounded := by simp
  above := by simp
  ordered := by simp
  apart := .nil
  exact place hcut htop := absurd htop (Nat.not_lt.2 hcut)

/-- Behind the last interval there is one gap without an upper end. -/
theorem last {g : Interval} (hg : scale.Holds g) (hlower : g.lower.isSome)
    (hupper : g.upper = none) : scale.GapsFrom (scale.lowerCut g) [] [g] where
  holds := by simpa using hg
  bounded := by simpa using hlower
  above := by simp
  ordered := by simpa [upperCut, hupper] using scale.lowerCut_lt_top g
  apart := List.pairwise_singleton _ _
  exact place hcut htop := by
    have hwithin : scale.Within place g := by
      unfold Within
      rw [upperCut, hupper]
      exact ⟨hcut, htop⟩
    simpa using hwithin

variable {cut place : ℕ} {i : Interval} {rest gaps : List Interval}

/-- The places of the interval that the sweep has not passed are behind it, and in no gap. -/
theorem not_within_of_lt (h : scale.GapsFrom (max cut (scale.upperCut i)) rest gaps)
    (hlt : place < scale.upperCut i) : ¬ ∃ g ∈ gaps, scale.Within place g := by
  rintro ⟨g, hg, hlower, -⟩
  have habove := h.above g hg
  omega

/-- An interval that does not start beyond the cut leaves no gap before it. -/
theorem skip (h : scale.GapsFrom (max cut (scale.upperCut i)) rest gaps)
    (hle : scale.lowerCut i ≤ cut) : scale.GapsFrom cut (i :: rest) gaps where
  holds := h.holds
  bounded := h.bounded
  above g hg := Nat.le_trans (Nat.le_max_left _ _) (h.above g hg)
  ordered := h.ordered
  apart := h.apart
  exact place hcut htop := by
    rw [List.forall_mem_cons]
    by_cases hlt : place < scale.upperCut i
    · have hnot := h.not_within_of_lt hlt
      constructor
      · intro hgap
        exact absurd hgap hnot
      · rintro ⟨hout, -⟩
        exact absurd ⟨Nat.le_trans hle hcut, hlt⟩ hout
    · rw [h.exact place (by omega) htop]
      constructor
      · intro hrest
        exact ⟨fun hin ↦ hlt hin.2, hrest⟩
      · rintro ⟨-, hrest⟩
        exact hrest

/-- An interval that starts beyond the cut leaves the gap between the two. -/
theorem emit (h : scale.GapsFrom (max cut (scale.upperCut i)) rest gaps)
    (hroom : scale.lowerCut i < scale.upperCut i)
    (hascending : ∀ j ∈ rest, scale.lowerCut i ≤ scale.lowerCut j) {g : Interval}
    (hg : scale.Holds g) (hbounded : g.lower.isSome) (hlower : scale.lowerCut g = cut)
    (hupper : scale.upperCut g = scale.lowerCut i) (hlt : cut < scale.lowerCut i) :
    scale.GapsFrom cut (i :: rest) (g :: gaps) where
  holds := List.forall_mem_cons.2 ⟨hg, h.holds⟩
  bounded := List.forall_mem_cons.2 ⟨hbounded, h.bounded⟩
  above := List.forall_mem_cons.2
    ⟨hlower.ge, fun g' hg' ↦ Nat.le_trans (Nat.le_max_left _ _) (h.above g' hg')⟩
  ordered := List.forall_mem_cons.2 ⟨by omega, h.ordered⟩
  apart := h.apart.cons <| by
    intro g' hg'
    have habove := h.above g' hg'
    omega
  exact place hcut htop := by
    rw [List.forall_mem_cons, List.exists_mem_cons_iff]
    have hnew : scale.Within place g ↔ place < scale.lowerCut i := by
      unfold Within
      omega
    by_cases hbefore : place < scale.lowerCut i
    · -- in the new gap: below the interval, and so below all later ones
      refine iff_of_true (.inl (hnew.2 hbefore)) ⟨fun hin ↦ Nat.not_le.2 hbefore hin.1, ?_⟩
      intro j hj hin
      exact Nat.not_le.2 hbefore (Nat.le_trans (hascending j hj) hin.1)
    · by_cases hinside : place < scale.upperCut i
      · have hnot := h.not_within_of_lt hinside
        refine iff_of_false ?_ (fun hout ↦ hout.1 ⟨Nat.not_lt.1 hbefore, hinside⟩)
        rintro (hgap | hlater)
        · exact hbefore (hnew.1 hgap)
        · exact hnot hlater
      · rw [h.exact place (by omega) htop]
        constructor
        · rintro (hgap | hlater)
          · exact absurd (hnew.1 hgap) hbefore
          · exact ⟨fun hin ↦ hinside hin.2, hlater⟩
        · rintro ⟨-, hlater⟩
          exact .inr hlater

end GapsFrom

/-! ### The place of the sweep as a cut -/

/-- The cut below which the sweep has dealt with everything. -/
def startCut (scale : Scale) (position : Version) (passed : Bool) : ℕ :=
  scale.slot position + if passed then 1 else 0

variable {position : Version} {passed : Bool} {i : Interval}

theorem opensGap_iff (hposition : position ∈ scale) (hi : scale.Holds i) :
    Range.opensGap position passed i ↔ scale.startCut position passed < scale.lowerCut i := by
  unfold Range.opensGap startCut lowerCut
  cases hl : i.lower with
  | none => simp
  | some l =>
    rcases cmp_cases hposition (hi.lower hl) with
      ⟨hcmp, hslot⟩ | ⟨hcmp, hslot⟩ | ⟨hcmp, hslot⟩ <;>
      cases hpassed : passed <;> cases hincluded : i.lowerIncluded <;>
      simp only [hcmp, Bool.or_true, Bool.or_false, Bool.not_true, Bool.not_false,
        Bool.false_eq_true, if_true, if_false, true_iff, false_iff] <;> omega

theorem lower_isSome_of_opensGap (h : Range.opensGap position passed i) : i.lower.isSome := by
  unfold Range.opensGap at h
  cases hl : i.lower with
  | none => simp [hl] at h
  | some l => rfl

theorem lowerCut_of_position {upper : Option Version} {upperIncluded : Bool} :
    scale.lowerCut ⟨some position, !passed, upper, upperIncluded⟩ =
      scale.startCut position passed := by
  cases passed <;> rfl

theorem upperCut_gapBefore (h : i.lower.isSome) :
    scale.upperCut (Range.gapBefore position passed i) = scale.lowerCut i := by
  obtain ⟨l, hl⟩ := Option.isSome_iff_exists.1 h
  unfold upperCut Range.gapBefore lowerCut
  simp only [hl]
  cases i.lowerIncluded <;> rfl

theorem holds_gapBefore (hposition : position ∈ scale) (hi : scale.Holds i) :
    scale.Holds (Range.gapBefore position passed i) := by
  refine holds_mk ?_ (fun u hu ↦ hi.lower hu)
  intro l hl
  obtain rfl : position = l := Option.some.inj hl
  exact hposition

/-- The sweep does not move back: an end at the position that is left out, where the position is
covered already, would be an interval that starts above its own end. -/
theorem startCut_upper {u : Version} (hposition : position ∈ scale) (hi : scale.Holds i)
    (hu : i.upper = some u) (hcmp : u.cmp position ≠ .lt)
    (hroom : scale.lowerCut i < scale.upperCut i)
    (hpassed : passed → scale.startCut position passed ≤ scale.lowerCut i) :
    scale.startCut u i.upperIncluded =
      max (scale.startCut position passed) (scale.upperCut i) := by
  have hupper : scale.upperCut i = scale.startCut u i.upperIncluded := by
    unfold upperCut startCut
    simp only [hu]
  rw [← hupper]
  refine (Nat.max_eq_right ?_).symm
  cases hcovered : passed with
  | true =>
    have hle := hpassed hcovered
    rw [hcovered] at hle
    omega
  | false =>
    rw [hupper]
    unfold startCut
    rcases cmp_cases (hi.upper hu) hposition with ⟨heq, -⟩ | ⟨-, hslot⟩ | ⟨-, hslot⟩
    · exact absurd heq hcmp
    · simp only [Bool.false_eq_true, if_false]
      omega
    · simp only [Bool.false_eq_true, if_false]
      omega

/-- An interval that ends below the position does not reach the cut. -/
theorem startCut_stays {u : Version} (hposition : position ∈ scale) (hi : scale.Holds i)
    (hu : i.upper = some u) (hcmp : u.cmp position = .lt) :
    scale.startCut position passed =
      max (scale.startCut position passed) (scale.upperCut i) := by
  refine (Nat.max_eq_left ?_).symm
  unfold upperCut startCut
  rcases cmp_cases (hi.upper hu) hposition with ⟨-, hslot⟩ | ⟨heq, -⟩ | ⟨heq, -⟩
  · simp only [hu]
    split_ifs <;> omega
  · simp [heq] at hcmp
  · simp [heq] at hcmp

/-! ### The sweep -/

/-- Behind an interval the sweep goes on from the greater of the two cuts. -/
theorem gapsFrom_gapsBehind {rest : List Interval} (hposition : position ∈ scale)
    (hi : scale.Holds i) (hroom : scale.lowerCut i < scale.upperCut i)
    (hnext : ∀ j ∈ rest, scale.upperCut i ≤ scale.lowerCut j)
    (hpassed : passed → ∀ j ∈ i :: rest, scale.startCut position passed ≤ scale.lowerCut j)
    (hsweep : ∀ (position' : Version) (passed' : Bool), position' ∈ scale →
      (passed' → ∀ j ∈ rest, scale.startCut position' passed' ≤ scale.lowerCut j) →
      scale.GapsFrom (scale.startCut position' passed') rest
        (Range.gapsFrom position' passed' rest)) :
    scale.GapsFrom (max (scale.startCut position passed) (scale.upperCut i)) rest
      (Range.gapsBehind position passed i rest) := by
  unfold Range.gapsBehind
  cases hu : i.upper with
  | none =>
    have hcut : scale.startCut position passed ≤ scale.top := by
      have htop := scale.slot_lt_top position
      unfold startCut
      split_ifs <;> omega
    rw [upperCut, hu, Nat.max_eq_right hcut]
    exact .top rest
  | some u =>
    simp only
    by_cases hcmp : u.cmp position = .lt
    · rw [if_pos hcmp, ← startCut_stays hposition hi hu hcmp]
      exact hsweep position passed hposition fun hcovered j hj ↦
        hpassed hcovered j (List.mem_cons_of_mem _ hj)
    · rw [if_neg hcmp, ← startCut_upper hposition hi hu hcmp hroom fun hcovered ↦
        hpassed hcovered i List.mem_cons_self]
      refine hsweep u i.upperIncluded (hi.upper hu) ?_
      intro _ j hj
      have hle := hnext j hj
      rwa [upperCut, hu] at hle

/-- Over ascending intervals the sweep finds the gaps from its cut on. -/
theorem gapsFrom_of_ascending (position : Version) (passed : Bool) {is : List Interval}
    (hposition : position ∈ scale) (hholds : ∀ i ∈ is, scale.Holds i)
    (hordered : ∀ i ∈ is, i.isOrdered) (hascending : is.Pairwise fun i j ↦ i.precedes j)
    (hpassed : passed → ∀ i ∈ is, scale.startCut position passed ≤ scale.lowerCut i) :
    scale.GapsFrom (scale.startCut position passed) is (Range.gapsFrom position passed is) := by
  induction is generalizing position passed with
  | nil =>
    rw [← lowerCut_of_position]
    refine .last ?_ rfl rfl
    refine holds_mk (fun l hl ↦ ?_) (fun u hu ↦ absurd hu (by simp))
    obtain rfl : position = l := Option.some.inj hl
    exact hposition
  | cons i rest ih =>
    have hi : scale.Holds i := hholds i List.mem_cons_self
    have hrest : ∀ j ∈ rest, scale.Holds j := fun j hj ↦ hholds j (List.mem_cons_of_mem _ hj)
    have hroom : scale.lowerCut i < scale.upperCut i :=
      (isOrdered_iff hi).1 (hordered i List.mem_cons_self)
    have hnext : ∀ j ∈ rest, scale.upperCut i ≤ scale.lowerCut j := fun j hj ↦
      (precedes_iff hi (hrest j hj)).1 (List.rel_of_pairwise_cons hascending hj)
    have hbehind := gapsFrom_gapsBehind hposition hi hroom hnext hpassed
      fun position' passed' hposition' hpassed' ↦ ih position' passed' hposition' hrest
        (fun j hj ↦ hordered j (List.mem_cons_of_mem _ hj)) hascending.of_cons hpassed'
    rw [Range.gapsFrom_cons]
    by_cases hopens : Range.opensGap position passed i
    · rw [if_pos hopens]
      have hlt := (opensGap_iff hposition hi).1 hopens
      refine hbehind.emit hroom (fun j hj ↦ ?_) (holds_gapBefore hposition hi) rfl
        lowerCut_of_position (upperCut_gapBefore (lower_isSome_of_opensGap hopens)) hlt
      exact Nat.le_trans (Nat.le_of_lt hroom) (hnext j hj)
    · rw [if_neg hopens]
      rw [opensGap_iff hposition hi, Nat.not_lt] at hopens
      exact hbehind.skip hopens

end Scale
end ArtifactIndex
