import ArtifactIndex.Proofs.Range.Complement

/-!
# Coverage of a range by a range

A range subsumes another when it covers each of its intervals, and it covers an interval when its
share of the interval starts where the interval starts, ends where it ends, and goes on without a
gap. `subsumes_exact` says what that test decides. What passes it is a subset: every version of the
other range is in the range. On ranges from `0` up it is also the test by the complement: a range
subsumes another exactly when the other has nothing in common with its complement.

Both tests are about the places between the cuts of the intervals, slots or not. A share without a
gap fills the interval (`exists_within_of_isGapless`). A share that fills it has no gap, because the
pieces of a separated range ascend and a place between two of them would be in neither
(`isGapless_of_filled`). The complement on the other side holds, from `0` on, just the places that
the range leaves out.
-/

set_option autoImplicit false
set_option relaxedAutoImplicit false

namespace ArtifactIndex

namespace Range

/-- The share of a range in an interval, piece by piece. -/
def share (r : Range) (i : Interval) : List Interval :=
  sortByLower (r.intervals.filterMap fun j ↦ i.inter? j)

theorem covers_iff {r : Range} {i : Interval} : r.covers i ↔
    ∃ first last, (r.share i).head? = some first ∧ (r.share i).getLast? = some last ∧
      first.cmpLower i = .eq ∧ last.cmpUpper i = .eq ∧ isGapless (r.share i) := by
  unfold covers
  simp only
  rw [← share]
  cases hpieces : r.share i with
  | nil => simp
  | cons first rest =>
    obtain ⟨last, hlast⟩ : ∃ last, (first :: rest).getLast? = some last :=
      Option.isSome_iff_exists.1 (by simp)
    simp [hlast, and_assoc]

theorem subsumes_iff {r s : Range} : r.subsumes s ↔ ∀ i ∈ s.intervals, r.covers i :=
  List.all_eq_true

theorem mem_share {r : Range} {i k : Interval} :
    k ∈ r.share i ↔ ∃ j ∈ r.intervals, i.inter? j = some k := by
  unfold share sortByLower
  rw [mem_sortBy, List.mem_filterMap]

/-- Two ranges have nothing in common when no pair of their intervals has. -/
theorem intervals_inter_eq_nil_iff {r s : Range} : (r.inter s).intervals = [] ↔
    ∀ i ∈ r.intervals, ∀ j ∈ s.intervals, i.inter? j = none := by
  rw [List.eq_nil_iff_forall_not_mem]
  constructor
  · intro hempty i hi j hj
    cases hcommon : i.inter? j with
    | none => rfl
    | some k => exact absurd (mem_intervals_inter.2 ⟨i, hi, j, hj, hcommon⟩) (hempty k)
  · intro hnone k hk
    obtain ⟨i, hi, j, hj, hcommon⟩ := mem_intervals_inter.1 hk
    rw [hnone i hi j hj] at hcommon
    exact Option.some_ne_none k hcommon.symm

end Range

namespace Scale

variable {scale : Scale} {i j k : Interval}

/-! ### Upper ends and touching intervals -/

theorem cmpUpper_eq (hi : scale.Holds i) (hj : scale.Holds j) :
    i.cmpUpper j = compare (scale.upperCut i) (scale.upperCut j) := by
  unfold Interval.cmpUpper upperCut
  cases hu : i.upper with
  | none =>
    cases hw : j.upper with
    | none => exact (Nat.compare_eq_eq.2 rfl).symm
    | some w =>
      have htop := scale.slot_lt_top w
      simp only
      rw [Nat.compare_eq_gt.2 (by split_ifs <;> omega)]
  | some u =>
    cases hw : j.upper with
    | none =>
      have htop := scale.slot_lt_top u
      simp only
      rw [Nat.compare_eq_lt.2 (by split_ifs <;> omega)]
    | some w =>
      simp only
      rcases cmp_cases (hi.upper hu) (hj.upper hw) with
        ⟨hcmp, hslot⟩ | ⟨hcmp, hslot⟩ | ⟨hcmp, hslot⟩
      · rw [hcmp, Nat.compare_eq_lt.2 (by split_ifs <;> omega)]
        rfl
      · -- equal versions: the flags decide, and an included end is the upper cut
        rw [hcmp, hslot]
        cases i.upperIncluded <;> cases j.upperIncluded
        · exact (Nat.compare_eq_eq.2 rfl).symm
        · exact (Nat.compare_eq_lt.2 (Nat.lt_succ_self _)).symm
        · exact (Nat.compare_eq_gt.2 (Nat.lt_succ_self _)).symm
        · exact (Nat.compare_eq_eq.2 rfl).symm
      · rw [hcmp, Nat.compare_eq_gt.2 (by split_ifs <;> omega)]
        rfl

theorem lowerCut_le_of_meets {next : Interval} (hi : scale.Holds i) (hnext : scale.Holds next)
    (h : i.meets next) : scale.lowerCut next ≤ scale.upperCut i :=
  Nat.not_lt.1 fun hlt ↦ not_meets_of_cut_lt hi hnext hlt h

/-- An interval that stops at the cut at which the next one starts meets it. -/
theorem meets_of_cut_eq {next : Interval} (hi : scale.Holds i) (hnext : scale.Holds next)
    (h : scale.upperCut i = scale.lowerCut next) : i.meets next := by
  have hpos := scale.upperCut_pos i
  have htop := scale.lowerCut_lt_top next
  unfold Interval.meets
  unfold upperCut lowerCut at *
  cases hu : i.upper with
  | none =>
    simp only [hu] at h htop
    omega
  | some u =>
    cases hl : next.lower with
    | none =>
      simp only [hl] at h
      omega
    | some l =>
      simp only [hu, hl] at h
      rcases cmp_cases (hi.upper hu) (hnext.lower hl) with
        ⟨-, hslot⟩ | ⟨hcmp, hslot⟩ | ⟨-, hslot⟩
      · split_ifs at h <;> omega
      · cases hupper : i.upperIncluded <;> cases hlower : next.lowerIncluded <;>
          simp [hcmp, hslot, hupper, hlower] at h ⊢
      · split_ifs at h <;> omega

/-! ### Pieces without a gap -/

/-- Going on without a gap, the pieces hold every place up to the end of the last. -/
theorem exists_within_of_isGapless {first last : Interval} {rest : List Interval} {place : ℕ}
    (hholds : ∀ p ∈ first :: rest, scale.Holds p) (hgapless : Range.isGapless (first :: rest))
    (hlast : (first :: rest).getLast? = some last) (hlower : scale.lowerCut first ≤ place)
    (hupper : place < scale.upperCut last) : ∃ p ∈ first :: rest, scale.Within place p := by
  induction rest generalizing first with
  | nil =>
    obtain rfl : first = last := by simpa using hlast
    exact ⟨first, List.mem_cons_self, hlower, hupper⟩
  | cons next rest ih =>
    by_cases hinside : place < scale.upperCut first
    · exact ⟨first, List.mem_cons_self, hlower, hinside⟩
    · -- beyond the first piece, so not below the second, which it meets
      have hsplit : first.meets next ∧ Range.isGapless (next :: rest) := by
        simpa [Range.isGapless] using hgapless
      have hmeets := lowerCut_le_of_meets (hholds first (by simp)) (hholds next (by simp)) hsplit.1
      obtain ⟨p, hp, hwithin⟩ := ih (fun p hp ↦ hholds p (List.mem_cons_of_mem _ hp)) hsplit.2
        (by simpa using hlast) (by omega)
      exact ⟨p, List.mem_cons_of_mem _ hp, hwithin⟩

theorem lowerCut_le_of_ascending {first : Interval} {rest : List Interval}
    (hholds : ∀ p ∈ first :: rest, scale.Holds p) (hordered : first.isOrdered)
    (hascending : (first :: rest).Pairwise fun p q ↦ p.precedes q) :
    ∀ p ∈ first :: rest, scale.lowerCut first ≤ scale.lowerCut p := by
  intro p hp
  have hfirst : scale.Holds first := hholds first List.mem_cons_self
  rcases List.mem_cons.1 hp with rfl | hrest
  · exact Nat.le_refl _
  · have hroom := (isOrdered_iff hfirst).1 hordered
    have hle := (precedes_iff hfirst (hholds p hp)).1 (List.rel_of_pairwise_cons hascending hrest)
    omega

/-- The cut behind the first piece is held by a later one, so the next piece starts there. -/
theorem upperCut_eq_lowerCut {first next : Interval} {rest : List Interval}
    (hholds : ∀ p ∈ first :: next :: rest, scale.Holds p) (hordered : next.isOrdered)
    (hascending : (first :: next :: rest).Pairwise fun p q ↦ p.precedes q)
    (hheld : ∃ p ∈ first :: next :: rest, scale.Within (scale.upperCut first) p) :
    scale.upperCut first = scale.lowerCut next := by
  have hafter := (precedes_iff (hholds first (by simp)) (hholds next (by simp))).1
    (List.rel_of_pairwise_cons hascending List.mem_cons_self)
  obtain ⟨p, hp, hlower, hupper⟩ := hheld
  rcases List.mem_cons.1 hp with rfl | hplater
  · exact absurd hupper (Nat.lt_irrefl _)
  · have hle := lowerCut_le_of_ascending (fun q hq ↦ hholds q (List.mem_cons_of_mem _ hq)) hordered
      hascending.of_cons p hplater
    omega

/-- Ascending pieces that hold every place below a cut have no gap, and the last of them reaches
that cut. -/
theorem isGapless_of_filled {first last : Interval} {rest : List Interval} {cut : ℕ}
    (hholds : ∀ p ∈ first :: rest, scale.Holds p) (hordered : ∀ p ∈ first :: rest, p.isOrdered)
    (hascending : (first :: rest).Pairwise fun p q ↦ p.precedes q)
    (hbelow : ∀ p ∈ first :: rest, scale.upperCut p ≤ cut)
    (hfilled : ∀ place, scale.lowerCut first ≤ place → place < cut →
      ∃ p ∈ first :: rest, scale.Within place p)
    (hlast : (first :: rest).getLast? = some last) :
    Range.isGapless (first :: rest) ∧ scale.upperCut last = cut := by
  induction rest generalizing first with
  | nil =>
    have hroom := (isOrdered_iff (hholds first (by simp))).1 (hordered first (by simp))
    have hfirstbelow := hbelow first (by simp)
    obtain rfl : first = last := by simpa using hlast
    refine ⟨rfl, ?_⟩
    by_contra hne
    obtain ⟨p, hp, -, hupper⟩ := hfilled (scale.upperCut first) (by omega) (by omega)
    obtain rfl := List.mem_singleton.1 hp
    exact Nat.lt_irrefl _ hupper
  | cons next rest ih =>
    have hroom := (isOrdered_iff (hholds first (by simp))).1 (hordered first (by simp))
    have hnextroom := (isOrdered_iff (hholds next (by simp))).1 (hordered next (by simp))
    have hafter := (precedes_iff (hholds first (by simp)) (hholds next (by simp))).1
      (List.rel_of_pairwise_cons hascending List.mem_cons_self)
    have hnextbelow := hbelow next (by simp)
    have htouch : scale.upperCut first = scale.lowerCut next :=
      upperCut_eq_lowerCut hholds (hordered next (by simp)) hascending
        (hfilled (scale.upperCut first) (by omega) (by omega))
    have hfilledlater : ∀ place, scale.lowerCut next ≤ place → place < cut →
        ∃ p ∈ next :: rest, scale.Within place p := by
      intro place hlower hupper
      obtain ⟨p, hp, hwithin⟩ := hfilled place (by omega) hupper
      rcases List.mem_cons.1 hp with rfl | hplater
      · have hfirstupper := hwithin.2
        omega
      · exact ⟨p, hplater, hwithin⟩
    have hlater := ih (fun p hp ↦ hholds p (List.mem_cons_of_mem _ hp))
      (fun p hp ↦ hordered p (List.mem_cons_of_mem _ hp)) hascending.of_cons
      (fun p hp ↦ hbelow p (List.mem_cons_of_mem _ hp)) hfilledlater (by simpa using hlast)
    have hmeets := meets_of_cut_eq (hholds first (by simp)) (hholds next (by simp)) htouch
    refine ⟨?_, hlater.2⟩
    simpa [Range.isGapless] using ⟨hmeets, hlater.1⟩

/-! ### The share of a range -/

section Share

variable {r : Range}

theorem holds_share (hr : scale.Spans r) (hi : scale.Holds i) :
    ∀ k ∈ r.share i, scale.Holds k := by
  intro k hk
  obtain ⟨j, hj, hcommon⟩ := Range.mem_share.1 hk
  exact (inter?_eq_some hi (hr.holds hj) hcommon).1

/-- The pieces hold the places of the interval that the range holds. -/
theorem exists_within_share_iff (hr : scale.Spans r) (hi : scale.Holds i) {place : ℕ} :
    (∃ k ∈ r.share i, scale.Within place k) ↔
      scale.Within place i ∧ ∃ j ∈ r.intervals, scale.Within place j := by
  unfold Within
  constructor
  · rintro ⟨k, hk, hlower, hupper⟩
    obtain ⟨j, hj, hcommon⟩ := Range.mem_share.1 hk
    obtain ⟨-, -, hlowerCut, hupperCut⟩ := inter?_eq_some hi (hr.holds hj) hcommon
    exact ⟨by omega, j, hj, by omega⟩
  · rintro ⟨hwithin, j, hj, hlower, hupper⟩
    cases hcommon : i.inter? j with
    | none =>
      have hcuts := (inter?_eq_none_iff_cut_le hi (hr.holds hj)).1 hcommon
      omega
    | some k =>
      obtain ⟨-, -, hlowerCut, hupperCut⟩ := inter?_eq_some hi (hr.holds hj) hcommon
      exact ⟨k, Range.mem_share.2 ⟨j, hj, hcommon⟩, by omega⟩

theorem within_of_mem_share (hr : scale.Spans r) (hi : scale.Holds i) (hk : k ∈ r.share i) :
    k.isOrdered ∧ scale.lowerCut i ≤ scale.lowerCut k ∧ scale.upperCut k ≤ scale.upperCut i := by
  obtain ⟨j, hj, hcommon⟩ := Range.mem_share.1 hk
  obtain ⟨-, hordered, hlower, hupper⟩ := inter?_eq_some hi (hr.holds hj) hcommon
  exact ⟨hordered, by omega, by omega⟩

theorem pairwise_share (hr : scale.Spans r) (hi : scale.Holds i) (hsep : r.Separated) :
    (r.share i).Pairwise fun p q ↦ p.precedes q := by
  refine pairwise_sortByLower (fun k hk ↦ holds_share hr hi k (mem_sortBy.2 hk))
    (fun k hk ↦ (within_of_mem_share hr hi (mem_sortBy.2 hk)).1) ?_
  rw [List.pairwise_filterMap]
  refine hsep.ascending.imp_of_mem ?_
  intro j j' hj hj' hjj' k hk k' hk'
  obtain ⟨hkholds, -, -, hupper⟩ := inter?_eq_some hi (hr.holds hj) hk
  obtain ⟨hkholds', -, hlower, -⟩ := inter?_eq_some hi (hr.holds hj') hk'
  exact precedes_of_cut_le (hr.holds hj) (hr.holds hj') hkholds hkholds' hjj' (by omega) (by omega)

/-! ### Covered intervals -/

/-- What a range covers it holds, in whatever order its intervals stand. -/
theorem exists_within_of_covers (hr : scale.Spans r) (hi : scale.Holds i) (hcovers : r.covers i)
    {place : ℕ} (hplace : scale.Within place i) : ∃ j ∈ r.intervals, scale.Within place j := by
  obtain ⟨first, last, hfirst, hlast, hlower, hupper, hgapless⟩ := Range.covers_iff.1 hcovers
  have hholds := holds_share hr hi
  obtain ⟨rest, hshare⟩ := List.head?_eq_some_iff.1 hfirst
  rw [cmpLower_eq (hholds first (List.mem_of_head? hfirst)) hi, Nat.compare_eq_eq] at hlower
  rw [cmpUpper_eq (hholds last (List.mem_of_getLast? hlast)) hi, Nat.compare_eq_eq] at hupper
  have hfilled : ∃ k ∈ r.share i, scale.Within place k := by
    rw [hshare] at hholds hgapless hlast ⊢
    exact exists_within_of_isGapless hholds hgapless hlast (hlower.trans_le hplace.1)
      (hplace.2.trans_eq hupper.symm)
  exact ((exists_within_share_iff hr hi).1 hfilled).2

/-- A separated range that holds every place of an interval covers it. -/
theorem covers_of_within (hr : scale.Spans r) (hi : scale.Holds i) (hroom : i.isOrdered)
    (hsep : r.Separated)
    (hfilled : ∀ place, scale.Within place i → ∃ j ∈ r.intervals, scale.Within place j) :
    r.covers i := by
  rw [isOrdered_iff hi] at hroom
  have hshare : ∀ place, scale.Within place i → ∃ k ∈ r.share i, scale.Within place k :=
    fun place hplace ↦ (exists_within_share_iff hr hi).2 ⟨hplace, hfilled place hplace⟩
  have hholds := holds_share hr hi
  have hwithin : ∀ k ∈ r.share i, k.isOrdered ∧ scale.lowerCut i ≤ scale.lowerCut k ∧
      scale.upperCut k ≤ scale.upperCut i := fun k hk ↦ within_of_mem_share hr hi hk
  have hascending := pairwise_share hr hi hsep
  -- the piece that holds the first place of the interval starts with it, and none starts before
  obtain ⟨k, hk, hklower, -⟩ := hshare (scale.lowerCut i) ⟨Nat.le_refl _, hroom⟩
  rw [Range.covers_iff]
  cases hpieces : r.share i with
  | nil => simp [hpieces] at hk
  | cons first rest =>
    rw [hpieces] at hshare hholds hwithin hascending hk
    have hfirst := hwithin first List.mem_cons_self
    have hstart : scale.lowerCut first = scale.lowerCut i := by
      have hle := lowerCut_le_of_ascending hholds hfirst.1 hascending k hk
      omega
    obtain ⟨last, hlast⟩ : ∃ last, (first :: rest).getLast? = some last :=
      Option.isSome_iff_exists.1 (by simp)
    obtain ⟨hgapless, hend⟩ := isGapless_of_filled hholds (fun p hp ↦ (hwithin p hp).1) hascending
      (fun p hp ↦ (hwithin p hp).2.2)
      (fun place hlower hupper ↦ hshare place ⟨hstart.symm.trans_le hlower, hupper⟩) hlast
    refine ⟨first, last, rfl, hlast, ?_, ?_, hgapless⟩
    · rw [cmpLower_eq (hholds first List.mem_cons_self) hi, Nat.compare_eq_eq]
      exact hstart
    · rw [cmpUpper_eq (hholds last (List.mem_of_getLast? hlast)) hi, Nat.compare_eq_eq]
      exact hend

end Share

/-! ### Two ranges -/

theorem inter?_eq_none_iff (hi : scale.Holds i) (hj : scale.Holds j) :
    i.inter? j = none ↔ ∀ place, ¬ (scale.Within place i ∧ scale.Within place j) := by
  unfold Within
  rw [inter?_eq_none_iff_cut_le hi hj]
  constructor
  · intro hcuts place hboth
    omega
  · intro hapart
    by_contra hroom
    exact hapart (max (scale.lowerCut i) (scale.lowerCut j)) (by omega)

theorem mem_of_subsumes {r s : Range} (hr : scale.Spans r) (hs : scale.Spans s)
    (hsubsumes : r.subsumes s) {v : Version} (hv : v ∈ scale) (hvs : v ∈ s) : v ∈ r := by
  obtain ⟨i, hi, hvi⟩ := (mem_iff_exists_within hs hv).1 hvs
  have hcovers : r.covers i := Range.subsumes_iff.1 hsubsumes i hi
  exact (mem_iff_exists_within hr hv).2 (exists_within_of_covers hr (hs.holds hi) hcovers hvi)

theorem subsumes_iff_exists_within {r s : Range} (hr : scale.Spans r) (hs : scale.Spans s)
    (hrsep : r.Separated) (hssep : s.Separated) : r.subsumes s ↔ ∀ i ∈ s.intervals, ∀ place,
      scale.Within place i → ∃ j ∈ r.intervals, scale.Within place j := by
  rw [Range.subsumes_iff]
  constructor
  · intro hcovers i hi place hplace
    exact exists_within_of_covers hr (hs.holds hi) (hcovers i hi) hplace
  · intro hfilled i hi
    exact covers_of_within hr (hs.holds hi) (hssep.ordered i hi) hrsep (hfilled i hi)

/-- From `0` up, what has nothing in common with the complement is held by the range. -/
theorem inter_complement_eq_nil_iff {r s : Range} (hzero : .zero ∈ scale) (hr : scale.Spans r)
    (hs : scale.Spans s) (hrsep : r.Separated)
    (hfrom : ∀ i ∈ s.intervals, scale.slot .zero ≤ scale.lowerCut i) :
    (s.inter r.complement).intervals = [] ↔ ∀ i ∈ s.intervals, ∀ place,
      scale.Within place i → ∃ j ∈ r.intervals, scale.Within place j := by
  have hcomplement := spans_complement hzero hr hrsep
  rw [Range.intervals_inter_eq_nil_iff]
  constructor
  · intro hnone i hi place hplace
    by_contra hleft
    have htop : place < scale.top := hplace.2.trans_le (scale.upperCut_le_top i)
    obtain ⟨g, hg, hwithin⟩ := (within_complement_iff hzero hr hrsep
      ((hfrom i hi).trans hplace.1) htop).2 fun j hj hin ↦ hleft ⟨j, hj, hin⟩
    exact (inter?_eq_none_iff (hs.holds hi) (hcomplement.holds hg)).1 (hnone i hi g hg) place
      ⟨hplace, hwithin⟩
  · intro hfilled i hi g hg
    rw [inter?_eq_none_iff (hs.holds hi) (hcomplement.holds hg)]
    rintro place ⟨hplace, hwithin⟩
    have htop : place < scale.top := hplace.2.trans_le (scale.upperCut_le_top i)
    obtain ⟨j, hj, hin⟩ := hfilled i hi place hplace
    exact (within_complement_iff hzero hr hrsep ((hfrom i hi).trans hplace.1) htop).1
      ⟨g, hg, hwithin⟩ j hj hin

theorem slot_zero_le_lowerCut {l : Version} (hzero : .zero ∈ scale) (hi : scale.Holds i)
    (hl : i.lower = some l) (hlzero : l.cmp .zero ≠ .lt) :
    scale.slot .zero ≤ scale.lowerCut i := by
  have hslot := (cmp_ne_lt_iff (hi.lower hl) hzero).1 hlzero
  unfold lowerCut
  simp only [hl]
  omega

end Scale

namespace Range

/-- The coverage test is sound as a subset test, and on ranges from `0` up it agrees with the test
whether anything is left in the complement. -/
theorem subsumes_exact {versions versions' : List Version} {a b : Range}
    (ha : BuiltFrom versions a) (hb : BuiltFrom versions' b)
    (htotal : TotalPreorderOn Version.cmp (· ∈ .zero :: (versions ++ versions'))) :
    (a.subsumes b → ∀ v : Version,
      TotalPreorderOn Version.cmp (· ∈ v :: .zero :: (versions ++ versions')) → v ∈ b → v ∈ a) ∧
    ((∀ i ∈ b.intervals, ∃ l, i.lower = some l ∧ l.cmp .zero ≠ .lt) →
      (a.subsumes b ↔ (b.inter a.complement).intervals = [])) := by
  constructor
  · intro hsubsumes v hv hvb
    have hzero : .zero ∈ Scale.mk _ hv := List.mem_cons_of_mem _ List.mem_cons_self
    obtain ⟨hr, -⟩ := Scale.separated_of_builtFrom ha hzero fun w hw ↦
      List.mem_cons_of_mem _ (List.mem_cons_of_mem _ (List.mem_append_left _ hw))
    obtain ⟨hs, -⟩ := Scale.separated_of_builtFrom hb hzero fun w hw ↦
      List.mem_cons_of_mem _ (List.mem_cons_of_mem _ (List.mem_append_right _ hw))
    exact Scale.mem_of_subsumes hr hs hsubsumes List.mem_cons_self hvb
  · intro hbounded
    have hzero : .zero ∈ Scale.mk _ htotal := List.mem_cons_self
    obtain ⟨hr, hrsep⟩ := Scale.separated_of_builtFrom ha hzero fun w hw ↦
      List.mem_cons_of_mem _ (List.mem_append_left _ hw)
    obtain ⟨hs, hssep⟩ := Scale.separated_of_builtFrom hb hzero fun w hw ↦
      List.mem_cons_of_mem _ (List.mem_append_right _ hw)
    rw [Scale.subsumes_iff_exists_within hr hs hrsep hssep]
    refine (Scale.inter_complement_eq_nil_iff hzero hr hs hrsep fun i hi ↦ ?_).symm
    obtain ⟨l, hl, hlzero⟩ := hbounded i hi
    exact Scale.slot_zero_le_lowerCut hzero (hs.holds hi) hl hlzero

/-- Up to `2` and from `2` on. -/
def touching : Range :=
  ⟨[⟨some ⟨"1.2", by decide +kernel⟩, true, some two, false⟩,
    ⟨some two, true, some ⟨"2.8", by decide +kernel⟩, true⟩]⟩

/-- From before `2` to behind it. -/
def across : Range :=
  ⟨[⟨some ⟨"1.5", by decide +kernel⟩, true, some ⟨"2.5", by decide +kernel⟩, true⟩]⟩

/-- Two intervals that meet at `2` cover one across it, so `2` is in both ranges, and nothing of the
one across is left in the complement. -/
theorem subsumes_exact_touching :
    BuiltFrom touching.bounds touching ∧ BuiltFrom across.bounds across ∧
      two ∈ touching ∧ (across.inter touching.complement).intervals = [] := by
  have htouching : Range.parse "[1.2,2),[2,2.8]" = .ok touching := by decide +kernel
  have hacross : Range.parse "[1.5,2.5]" = .ok across := by decide +kernel
  have htotal : TotalPreorderOn Version.cmp
      (· ∈ .zero :: (touching.bounds ++ across.bounds)) := by
    decide +kernel
  have hexact := subsumes_exact (.parse htouching) (.parse hacross) htotal
  have hsubsumes : touching.subsumes across := by decide +kernel
  refine ⟨.parse htouching, .parse hacross, ?_, ?_⟩
  · exact hexact.1 hsubsumes two (by decide +kernel) (by decide +kernel)
  · refine (hexact.2 ?_).1 hsubsumes
    intro i hi
    obtain rfl := List.mem_singleton.1 hi
    exact ⟨_, rfl, by decide +kernel⟩

end Range
end ArtifactIndex
