import ArtifactIndex.Proofs.Index.Arrangement
import ArtifactIndex.Proofs.Index.Source

/-!
# Queries follow the order of the content

The content of an index is arranged by source, and its queries go through it from front to back.
Where the versions of each program among the sources are totally preordered
(`Index.VersionsOrdered`), they answer in that order: the resources of a program stand together, and
`find` cuts that block out (`Index.exists_block`); and `revisions`, which sorts the sources once
more, finds them sorted and drops repeats alone (`Index.revisions_eq_eraseDups`). Main statement,
with what is in the answers besides: `Index.queries_in_order`.

Both follow from one fact about neighbours in the content: the source of the first is at most that
of the second. What stands in front of a program in that order stands in front of its resources in
the content (`Index.cmpProgram_of_isLE`), and a list in which some elements stand in front of all
others is cut between them (`filter_append_of_pairwise`).
-/

set_option autoImplicit false
set_option relaxedAutoImplicit false

namespace ArtifactIndex

open scoped List

/-! ### Sorted lists -/

section Sorted

variable {α : Type} {xs : List α}

/-- Elements that stand in front of all others are a front part of the list. -/
theorem filter_append_of_pairwise {p : α → Bool} (h : xs.Pairwise fun x y ↦ p y → p x) :
    xs.filter p ++ xs.filter (fun x ↦ !p x) = xs := by
  induction xs with
  | nil => rfl
  | cons x xs ih =>
    by_cases hx : p x
    · rw [List.filter_cons_of_pos hx, List.filter_cons_of_neg (by simpa using hx),
        List.cons_append, ih h.of_cons]
    · have hrest : ∀ y ∈ x :: xs, ¬ p y := by
        refine List.forall_mem_cons.2 ⟨hx, fun y hy hpy ↦ ?_⟩
        exact hx (List.rel_of_pairwise_cons h hy hpy)
      rw [List.filter_eq_nil_iff.2 hrest, List.nil_append, List.filter_eq_self]
      simpa using hrest

/-- A list that is sorted is left as it is, if different elements never tie. -/
theorem sortBy_eq_self {cmp : α → α → Ordering} {s : α → Prop} (h : TotalPreorderOn cmp s)
    (hxs : ∀ x ∈ xs, s x) (htie : ∀ x y, (cmp x y).isLE → (cmp y x).isLE → x = y)
    (hsorted : xs.Pairwise fun x y ↦ (cmp x y).isLE) : sortBy cmp xs = xs :=
  (sortBy_perm cmp xs).eq_of_pairwise (fun x y _ _ ↦ htie x y) (pairwise_sortBy h hxs) hsorted

end Sorted

namespace Revision

variable {r s : Revision}

theorem compare_eq_lt_of_isLE (hrs : (compare r s).isLE) (hne : r ≠ s) : compare r s = .lt := by
  have hties : compare r s ≠ .eq := fun heq ↦ hne (Std.LawfulEqCmp.eq_of_compare heq)
  cases hcmp : compare r s <;> simp_all

theorem isLE_compare_program (h : (compare r s).isLE) : (compare r.program s.program).isLE :=
  Ordering.isLE_left_of_isLE_then h

end Revision

namespace Index

/-! ### Repeats in a sorted list -/

variable {r s : Revision} {rs : List Revision}

/-- In a sorted list a revision does not come back after another one. -/
theorem ne_of_mem_of_pairwise (h : (r :: s :: rs).Pairwise fun r s ↦ (compare r s).isLE)
    (hne : r ≠ s) : ∀ t ∈ s :: rs, r ≠ t := by
  rintro t ht rfl
  rcases List.mem_cons.1 ht with rfl | hrs
  · exact hne rfl
  · have hafter : (compare s r).isLE := List.rel_of_pairwise_cons h.of_cons hrs
    have hbefore : (compare r s).isLE := List.rel_of_pairwise_cons h List.mem_cons_self
    exact hne (Revision.eq_of_isLE_compare hbefore hafter)

theorem dropRepeats_eq_eraseDups (h : rs.Pairwise fun r s ↦ (compare r s).isLE) :
    dropRepeats rs = rs.eraseDups := by
  fun_induction dropRepeats rs with
  | case1 s rest ih => simp [ih h.of_cons, List.eraseDups_cons]
  | case2 r s rest hne ih =>
    have hkept : (s :: rest).filter (fun t ↦ !t == r) = s :: rest := by
      rw [List.filter_eq_self]
      intro t ht
      simpa using (ne_of_mem_of_pairwise h hne t ht).symm
    rw [ih h.of_cons, List.eraseDups_cons (a := r), hkept]
  | case3 rs hshort =>
    cases rs with
    | nil => rfl
    | cons r rs =>
      cases rs with
      | nil => rfl
      | cons s rest => exact absurd rfl (hshort r s rest)

theorem pairwise_dropRepeats (h : rs.Pairwise fun r s ↦ (compare r s).isLE) :
    (dropRepeats rs).Pairwise fun r s ↦ compare r s = .lt := by
  fun_induction dropRepeats rs with
  | case1 s rest ih => exact ih h.of_cons
  | case2 r s rest hne ih =>
    refine (ih h.of_cons).cons fun t ht ↦ ?_
    have hmem : t ∈ s :: rest := mem_dropRepeats.1 ht
    exact Revision.compare_eq_lt_of_isLE (List.rel_of_pairwise_cons h hmem)
      (ne_of_mem_of_pairwise h hne t hmem)
  | case3 rs hshort =>
    cases rs with
    | nil => exact .nil
    | cons r rs =>
      cases rs with
      | nil => exact List.pairwise_singleton _ _
      | cons s rest => exact absurd rfl (hshort r s rest)

/-! ### Sources in the content -/

variable {xs : List Resource} {p : Program}

theorem pairwise_source_arrange (h : VersionsOrdered xs) :
    (arrange xs).Pairwise fun d e ↦ (cmpSource d.source e.source).isLE :=
  (pairwise_sortBy (totalPreorderOn_cmpResource h) fun _ hd ↦ hd).imp
    Ordering.isLE_left_of_isLE_then

theorem pairwise_filterMap_source (h : VersionsOrdered xs) :
    ((arrange xs).filterMap Resource.source).Pairwise fun r s ↦ (compare r s).isLE := by
  rw [List.pairwise_filterMap]
  refine (pairwise_source_arrange h).imp ?_
  intro d e hle r hr s hs
  rwa [hr, hs] at hle

theorem VersionsOrdered.arrange (h : VersionsOrdered xs) : VersionsOrdered (arrange xs) := by
  have hsources : Revision.VersionsOrdered fun r ↦ ∃ d ∈ xs, d.source = some r := h
  change Revision.VersionsOrdered fun r ↦ ∃ d ∈ Index.arrange xs, d.source = some r
  refine hsources.mono ?_
  rintro r ⟨d, hd, hsource⟩
  exact ⟨d, mem_sortBy.1 hd, hsource⟩

/-- The sources are sorted already. -/
theorem revisions_eq_dropRepeats (h : VersionsOrdered xs) {y : Index}
    (hy : y.resources = arrange xs) :
    y.revisions = .done (dropRepeats (y.resources.filterMap Resource.source)) := by
  have hordered : Revision.VersionsOrdered fun r ↦ ∃ d ∈ y.resources, d.source = some r :=
    hy ▸ h.arrange
  rw [revisions_of_versionsOrdered hordered, hy, sortBy_eq_self
    (Revision.totalPreorderOn_compare hordered) (fun _ hr ↦ hy ▸ List.mem_filterMap.1 hr)
    (fun _ _ ↦ Revision.eq_of_isLE_compare) (pairwise_filterMap_source h)]

theorem revisions_eq_eraseDups (h : VersionsOrdered xs) {y : Index}
    (hy : y.resources = arrange xs) :
    y.revisions = .done (y.resources.filterMap Resource.source).eraseDups := by
  rw [revisions_eq_dropRepeats h hy, hy, dropRepeats_eq_eraseDups (pairwise_filterMap_source h)]

/-! ### The block of a program -/

/-- Where a source stands beside a program; no source comes first. -/
def cmpProgram : Option Revision → Program → Ordering
  | none, _ => .lt
  | some r, p => compare r.program p

/-- What stands at or in front of a source stands on the same side of a program or further in
front. -/
theorem cmpProgram_of_isLE {r s : Option Revision} (h : (cmpSource r s).isLE) (p : Program) :
    (cmpProgram s p = .lt → cmpProgram r p = .lt) ∧
      ((cmpProgram s p).isLE → (cmpProgram r p).isLE) := by
  cases r with
  | none => exact ⟨fun _ ↦ rfl, fun _ ↦ rfl⟩
  | some r =>
    cases s with
    | none => simp [cmpSource] at h
    | some s =>
      have hprograms : (compare r.program s.program).isLE := Revision.isLE_compare_program h
      exact ⟨Std.TransCmp.lt_of_isLE_of_lt hprograms, Std.TransCmp.isLE_trans hprograms⟩

theorem isFrom_iff_cmpProgram {d : Resource} : d.isFrom p ↔ cmpProgram d.source p = .eq := by
  rw [Resource.isFrom_iff]
  cases d.source with
  | none => simp [cmpProgram]
  | some r => simp [cmpProgram]

/-- Resources of other programs stand in front of the block and behind it, and nowhere in it. -/
theorem exists_block (h : VersionsOrdered xs) {y : Index} (hy : y.resources = arrange xs)
    (p : Program) : ∃ front back, y.resources = front ++ (y.find p ++ back) ∧
      ∀ d ∈ front ++ back, ¬ d.isFrom p := by
  let before (d : Resource) : Bool := cmpProgram d.source p == .lt
  let upTo (d : Resource) : Bool := (cmpProgram d.source p).isLE
  have hsides : y.resources.Pairwise fun d e ↦ (before e → before d) ∧ (upTo e → upTo d) := by
    rw [hy]
    refine (pairwise_source_arrange h).imp fun {d e} hle ↦ ?_
    simpa [before, upTo] using cmpProgram_of_isLE hle p
  have hfront := filter_append_of_pairwise (hsides.imp And.left)
  have hback := filter_append_of_pairwise ((hsides.imp And.right).filter fun d ↦ !before d)
  have hfind : (y.resources.filter fun d ↦ !before d).filter upTo = y.find p := by
    rw [List.filter_filter, find]
    refine List.filter_congr fun d _ ↦ ?_
    rw [Bool.eq_iff_iff, isFrom_iff_cmpProgram]
    simp only [before, upTo]
    cases cmpProgram d.source p <;> simp
  refine ⟨y.resources.filter before,
    (y.resources.filter fun d ↦ !before d).filter fun d ↦ !upTo d, ?_, ?_⟩
  · rw [← hfind, hback, hfront]
  · intro d hd
    rw [isFrom_iff_cmpProgram]
    simp only [List.mem_append, List.mem_filter, before, upTo] at hd
    cases hcmp : cmpProgram d.source p <;> simp_all

/-! ### Main statement -/

/-- Resources without a source are a front part of the content. -/
theorem exists_sourceless (h : VersionsOrdered xs) :
    ∃ front back, arrange xs = front ++ back ∧ (∀ d ∈ front, d.source = none) ∧
      ∀ d ∈ back, d.source ≠ none := by
  have hsides : (arrange xs).Pairwise fun d e ↦ e.source.isNone → d.source.isNone := by
    refine (pairwise_source_arrange h).imp fun {d e} hle ↦ ?_
    cases hd : d.source <;> cases he : e.source <;> simp_all [cmpSource]
  refine ⟨_, _, (filter_append_of_pairwise hsides).symm, ?_, ?_⟩
  · intro d hd
    simpa using List.of_mem_filter hd
  · intro d hd
    simpa [Option.isSome_iff_ne_none] using List.of_mem_filter hd

/-- After the content was replaced, whether or not it could be written: all resources are stored,
those without a source in front. The revisions are strictly ascending, they are the sources of the
resources, and they come in the order of the content, without what was there before. The resources
of a program are found, all of them, and they are the block that they form in the content. -/
theorem queries_in_order (h : VersionsOrdered xs) (x : Index) (fs : FileSystem) :
    let y := (x.replace xs fs).2.1
    (y.resources ~ xs ∧ ∃ front back, y.resources = front ++ back ∧
      (∀ d ∈ front, d.source = none) ∧ ∀ d ∈ back, d.source ≠ none) ∧
    (∃ revisions, y.revisions = .done revisions ∧
      revisions.Pairwise (fun r s ↦ compare r s = .lt) ∧
      (∀ r, r ∈ revisions ↔ ∃ d ∈ xs, d.source = some r) ∧
      revisions = (y.resources.filterMap Resource.source).eraseDups) ∧
    ∀ p, y.find p ~ xs.filter (fun d ↦ d.source.map Revision.program = some p) ∧
      ∃ front back, y.resources = front ++ (y.find p ++ back) ∧
        ∀ d ∈ front ++ back, d.source.map Revision.program ≠ some p := by
  intro y
  have hy : y.resources = arrange xs := rfl
  have hperm : y.resources ~ xs := resources_replace_perm x fs
  have hfrom : ∀ (d : Resource) (p : Program),
      d.isFrom p ↔ d.source.map Revision.program = some p := by
    intro d p
    rw [Resource.isFrom_iff, Option.map_eq_some_iff]
  have hrevisions := revisions_eq_eraseDups h hy
  refine ⟨⟨hperm, exists_sourceless h⟩, ⟨_, hrevisions, ?_, fun r ↦ ?_, rfl⟩, ?_⟩
  · rw [hy, ← dropRepeats_eq_eraseDups (pairwise_filterMap_source h)]
    exact pairwise_dropRepeats (pairwise_filterMap_source h)
  · simp only [mem_revisions hrevisions, hperm.mem_iff]
  · intro p
    constructor
    · have hsame : (fun d : Resource ↦ d.isFrom p) =
          fun d ↦ decide (d.source.map Revision.program = some p) := by
        funext d
        rw [Bool.eq_iff_iff, hfrom, decide_eq_true_iff]
      rw [find, hsame]
      exact hperm.filter _
    · obtain ⟨front, back, hblock, hothers⟩ := exists_block h hy p
      exact ⟨front, back, hblock, fun d hd hmap ↦ hothers d hd ((hfrom d p).2 hmap)⟩

/-- Resources without a source, two of one revision and one of a version that ties with it, and
others that come between them. -/
theorem queries_in_order_ties :
    let built (revision name : String) : Resource :=
      ⟨[.ofAttributes "bnd.info" [("from", .string revision), ("name", .string name)]], []⟩
    let xs := [built "g:b:2" "x", built "g:a:1.0" "x", ⟨[], []⟩, built "g:c:1" "x",
      built "g:b:2.0" "x", built "unknown" "x", built "g:b:2" "y"]
    let y := ((Index.new "t" "index.json").replace xs oneFile).2.1
    VersionsOrdered xs ∧
      y.revisions.map (List.map Revision.text) =
        .done ["g:a:1.0", "g:b:2", "g:b:2.0", "g:c:1"] ∧
      y.find ⟨"g", "b"⟩ ~ [built "g:b:2" "x", built "g:b:2.0" "x", built "g:b:2" "y"] := by
  intro built xs y
  have hversions : ∀ r ∈ xs, ∀ s ∈ r.source, s.version ∈ ([⟨"1", by decide +kernel⟩,
      ⟨"1.0", by decide +kernel⟩, ⟨"2", by decide +kernel⟩, ⟨"2.0", by decide +kernel⟩] :
        List Version) := by
    decide +kernel
  have hordered : VersionsOrdered xs := .of_forall_mem hversions (by decide +kernel)
  obtain ⟨-, ⟨revisions, hrevisions, -, -, hsources⟩, hfind⟩ :=
    queries_in_order hordered (.new "t" "index.json") oneFile
  refine ⟨hordered, ?_, (hfind ⟨"g", "b"⟩).1.trans ?_⟩
  · rw [hrevisions, hsources]
    decide +kernel
  · decide +kernel

end Index
end ArtifactIndex
