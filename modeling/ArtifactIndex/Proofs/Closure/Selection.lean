import ArtifactIndex.Closure.Binding
import ArtifactIndex.Proofs.Coordinate.Order

/-!
# The highest candidate of a range

The highest revision in a range is found by sorting the candidates in it and taking the last one.
What comes last is what the order alone says: a candidate in the range that all others in it come
before or tie with (`Range.IsHighest`). There is one such candidate at most, because revisions tie
with themselves alone, even where their versions are equal in the component order.

Main statement: where the versions of each program are totally preordered the highest candidate is
found, and it depends on no more than which candidates there are (`Range.highest?_canonical`). The
condition is needed: the order of versions is not transitive, and there are candidates whose sorting
crashes (`Revision.sort?_cyclic`).
-/

set_option autoImplicit false
set_option relaxedAutoImplicit false

namespace ArtifactIndex

/-- Nothing that was sorted exceeds what comes last. -/
theorem isLE_of_getLast?_sortBy {α : Type} {cmp : α → α → Ordering} {s : α → Prop}
    (h : TotalPreorderOn cmp s) {xs : List α} (hxs : ∀ x ∈ xs, s x) {x last : α}
    (hlast : (sortBy cmp xs).getLast? = some last) (hx : x ∈ xs) : (cmp x last).isLE := by
  obtain ⟨front, hfront⟩ := List.getLast?_eq_some_iff.1 hlast
  have hascending := pairwise_sortBy h hxs
  rw [hfront, List.pairwise_append] at hascending
  have hmem : x ∈ front ++ [last] := hfront ▸ mem_sortBy.2 hx
  rcases List.mem_append.1 hmem with hbefore | hself
  · exact hascending.2.2 x hbefore last List.mem_cons_self
  · obtain rfl := List.mem_singleton.1 hself
    rw [h.cmp_self (hxs x hx)]
    rfl

namespace Range

variable {range : Range} {candidates others : List Revision} {r s : Revision}

theorem mem_matching :
    r ∈ candidates.filter (fun r ↦ range.contains r.version) ↔
      r ∈ candidates ∧ r.version ∈ range :=
  List.mem_filter

/-- Nothing was found exactly when nothing was sorted, and that is never refused. -/
theorem highest?_eq_none_iff :
    range.highest? candidates = .done none ↔ ∀ r ∈ candidates, r.version ∉ range := by
  have hmatching : candidates.filter (fun r ↦ range.contains r.version) = [] ↔
      ∀ r ∈ candidates, r.version ∉ range := by
    rw [List.eq_nil_iff_forall_not_mem]
    exact forall_congr' fun r ↦ by rw [mem_matching, not_and]
  rw [← hmatching, highest?]
  constructor
  · intro hnone
    cases hsort : sort? compare (candidates.filter fun r ↦ range.contains r.version) with
    | none => simp [hsort, Ending.ofOption, Ending.map] at hnone
    | some sorted =>
      rw [hsort, Ending.ofOption, Ending.map, Ending.done.injEq, List.getLast?_eq_none_iff] at hnone
      exact (hnone ▸ perm_of_sort? hsort).nil_eq.symm
  · intro hnil
    rw [hnil]
    rfl

theorem exists_sorted_of_highest? (h : range.highest? candidates = .done (some r)) :
    ∃ sorted, sort? compare (candidates.filter fun r ↦ range.contains r.version) = some sorted ∧
      sorted.getLast? = some r := by
  unfold highest? at h
  cases hsort : sort? compare (candidates.filter fun r ↦ range.contains r.version) with
  | none => simp [hsort, Ending.ofOption, Ending.map] at h
  | some sorted =>
    rw [hsort, Ending.ofOption, Ending.map, Ending.done.injEq] at h
    exact ⟨sorted, rfl, h⟩

theorem mem_of_highest? (h : range.highest? candidates = .done (some r)) :
    r ∈ candidates ∧ r.version ∈ range := by
  obtain ⟨sorted, hsort, hlast⟩ := exists_sorted_of_highest? h
  exact mem_matching.1 ((perm_of_sort? hsort).mem_iff.1 (List.mem_of_getLast? hlast))

/-- Candidates whose versions are in order are sorted without fail. -/
theorem highest?_of_versionsOrdered (hordered : Revision.VersionsOrdered (· ∈ candidates)) :
    range.highest? candidates =
      .done (sortBy compare (candidates.filter fun r ↦ range.contains r.version)).getLast? := by
  rw [highest?, Revision.sort?_of_versionsOrdered
    (hordered.mono fun _ hr ↦ (mem_matching.1 hr).1)]
  rfl

/-- A candidate in the range, and the greatest one by program, then by the components of the
version, and then by its literal. -/
structure IsHighest (range : Range) (candidates : List Revision) (r : Revision) : Prop where
  mem_candidates : r ∈ candidates
  mem_range : r.version ∈ range
  isLE : ∀ s ∈ candidates, s.version ∈ range →
    ((compare s.program r.program).then
      ((s.version.cmp r.version).then (compare s.version.literal r.version.literal))).isLE

theorem IsHighest.unique (hr : range.IsHighest candidates r) (hs : range.IsHighest candidates s) :
    r = s := by
  have hrs : (compare r s).isLE := hs.isLE r hr.mem_candidates hr.mem_range
  have hsr : (compare s r).isLE := hr.isLE s hs.mem_candidates hs.mem_range
  exact Std.LawfulEqCmp.eq_of_compare (Std.OrientedCmp.isLE_antisymm hrs hsr)

theorem IsHighest.congr (hsame : ∀ r, r ∈ others ↔ r ∈ candidates)
    (h : range.IsHighest candidates r) : range.IsHighest others r where
  mem_candidates := (hsame r).2 h.mem_candidates
  mem_range := h.mem_range
  isLE s hs := h.isLE s ((hsame s).1 hs)

theorem isHighest_of_highest? (hordered : Revision.VersionsOrdered (· ∈ candidates))
    (h : range.highest? candidates = .done (some r)) : range.IsHighest candidates r where
  mem_candidates := (mem_of_highest? h).1
  mem_range := (mem_of_highest? h).2
  isLE _ hs hrange := by
    rw [highest?_of_versionsOrdered hordered, Ending.done.injEq] at h
    exact isLE_of_getLast?_sortBy (Revision.totalPreorderOn_compare hordered)
      (fun _ hx ↦ (mem_matching.1 hx).1) h (mem_matching.2 ⟨hs, hrange⟩)

theorem highest?_eq_some_iff (hordered : Revision.VersionsOrdered (· ∈ candidates)) :
    range.highest? candidates = .done (some r) ↔ range.IsHighest candidates r := by
  refine ⟨isHighest_of_highest? hordered, fun h ↦ ?_⟩
  obtain ⟨found, hfound⟩ : ∃ found, range.highest? candidates = .done found :=
    ⟨_, highest?_of_versionsOrdered hordered⟩
  cases found with
  | none => exact absurd h.mem_range (highest?_eq_none_iff.1 hfound r h.mem_candidates)
  | some found => rw [hfound, (isHighest_of_highest? hordered hfound).unique h]

/-- A choice is made. No candidate is chosen exactly when the range holds none of their versions;
otherwise it is the greatest one in the range. Candidates that come in another order, or some of
them more than once, give the same choice. -/
theorem highest?_canonical (range : Range) (candidates : List Revision)
    (hordered : Revision.VersionsOrdered (· ∈ candidates)) :
    (∃ highest, range.highest? candidates = .done highest) ∧
    (range.highest? candidates = .done none ↔ ∀ r ∈ candidates, r.version ∉ range) ∧
    (∀ r, range.highest? candidates = .done (some r) ↔ range.IsHighest candidates r) ∧
    ∀ others, (∀ r, r ∈ others ↔ r ∈ candidates) →
      range.highest? others = range.highest? candidates := by
  refine ⟨⟨_, highest?_of_versionsOrdered hordered⟩, highest?_eq_none_iff,
    fun r ↦ highest?_eq_some_iff hordered, fun others hsame ↦ ?_⟩
  have hothers : Revision.VersionsOrdered (· ∈ others) := hordered.mono fun r ↦ (hsame r).1
  have hchoice : ∀ r, range.highest? others = .done (some r) ↔
      range.highest? candidates = .done (some r) := by
    intro r
    rw [highest?_eq_some_iff hothers, highest?_eq_some_iff hordered]
    exact ⟨.congr fun r ↦ (hsame r).symm, .congr hsame⟩
  rw [highest?_of_versionsOrdered hothers, highest?_of_versionsOrdered hordered] at hchoice ⊢
  congr 1
  ext r
  simpa using hchoice r

/-- Two candidates that tie in their components, in two orders and one of them listed twice. -/
theorem highest?_canonical_ties :
    let short : Version := ⟨"4.1", by decide +kernel⟩
    let longer : Version := ⟨"4.1.0", by decide +kernel⟩
    let next : Version := ⟨"5", by decide +kernel⟩
    let range : Range := ⟨[⟨some short, true, some next, false⟩]⟩
    let candidates := [short, next, longer, short].map (Revision.mk ⟨"g", "a"⟩)
    Revision.VersionsOrdered (· ∈ candidates) ∧
      range.IsHighest candidates ⟨⟨"g", "a"⟩, longer⟩ ∧
      range.highest? candidates.reverse = .done (some ⟨⟨"g", "a"⟩, longer⟩) := by
  intro short longer next range candidates
  have hversions : ∀ r ∈ candidates, r.version ∈ [short, longer, next] := by decide +kernel
  have hordered : Revision.VersionsOrdered (· ∈ candidates) :=
    .of_forall_mem hversions (by decide +kernel)
  obtain ⟨-, -, hhighest, hsame⟩ := highest?_canonical range candidates hordered
  have hchosen : range.highest? candidates = .done (some ⟨⟨"g", "a"⟩, longer⟩) := by
    decide +kernel
  refine ⟨hordered, (hhighest _).1 hchosen, ?_⟩
  rw [hsame candidates.reverse fun r ↦ List.mem_reverse, hchosen]

/-! ### Candidates that are not in order -/

/-- The range leaves none of them out, and their sort fails. -/
theorem highest?_cyclic :
    ∃ range, Constraint.parse "[1,)" = .ok (.range range) ∧
      (∀ r ∈ Revision.cyclic, r.version ∈ range) ∧
      range.highest? Revision.cyclic = .crashed := by
  have hall : ∀ r ∈ Revision.cyclic,
      r.version ∈ Range.mk [⟨some ⟨"1", by decide +kernel⟩, true, none, false⟩] := by
    decide +kernel
  refine ⟨_, by decide +kernel, hall, ?_⟩
  rw [highest?, List.filter_eq_self.2 hall, Revision.sort?_cyclic]
  rfl

end Range
end ArtifactIndex
