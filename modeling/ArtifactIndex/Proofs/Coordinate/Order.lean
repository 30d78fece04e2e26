import ArtifactIndex.Coordinate.Json
import ArtifactIndex.Proofs.Order.Coherence
import ArtifactIndex.Proofs.Order.Runs
import ArtifactIndex.Proofs.Version.Transitivity

/-!
# Orders of coordinates

Programs are ordered by their names, versions by their components and then by their literals, and
revisions by program and then by version. Versions may tie in their components, as `1` and `1.0` do,
and the literals settle that: in the whole order a version ties with itself alone, and so does a
revision. The order can be turned around everywhere. It is transitive where the component order is,
program by program (`Revision.totalPreorderOn_compare`), and then revisions are sorted as they would
be by insertion; where versions go in circles their sort may fail (`Revision.sort?_cyclic`).

Main statement: however a version came about, it is known by one literal, and two versions tie
exactly when they are known by the same one (`Version.order_separates_literals`).
-/

set_option autoImplicit false
set_option relaxedAutoImplicit false

namespace ArtifactIndex

/-! ### Programs -/

namespace Program

theorem compare_eq_compareLex :
    (compare : Program → Program → Ordering) =
      compareLex (compareOn Program.group) (compareOn Program.artifact) :=
  rfl

instance : Std.TransOrd Program :=
  inferInstanceAs (Std.TransCmp (compareLex (compareOn Program.group) (compareOn Program.artifact)))

theorem eq_of_compare_eq {p q : Program} (h : compare p q = .eq) : p = q := by
  rw [compare_eq_compareLex, compareLex_eq_eq] at h
  obtain ⟨hgroup, hartifact⟩ := h
  cases p
  cases q
  rw [Program.mk.injEq]
  exact ⟨Std.LawfulEqCmp.eq_of_compare hgroup, Std.LawfulEqCmp.eq_of_compare hartifact⟩

instance : Std.LawfulEqOrd Program where
  eq_of_compare := eq_of_compare_eq

end Program

/-! ### Versions -/

namespace Version

theorem compare_eq_then (v w : Version) :
    compare v w = (v.cmp w).then (compare v.literal w.literal) :=
  rfl

instance : Std.OrientedOrd Version where
  eq_swap {v w} := by
    rw [compare_eq_then, compare_eq_then, Ordering.swap_then, cmp_swap,
      ← Std.OrientedCmp.eq_swap]

instance : Std.LawfulEqOrd Version where
  eq_of_compare {v w} h := by
    rw [compare_eq_then, Ordering.then_eq_eq] at h
    exact Version.ext (Std.LawfulEqCmp.eq_of_compare h.2)

/-- How versions come about, each with the literal it is known by: a version is read from a text or
decoded from a document that holds one, or it is the lowest version. -/
inductive Obtained : String → Version → Prop where
  | read {s : String} {v : Version} (h : parse s = .ok v) : Obtained (Text.trim s) v
  | decoded {j : Json} {s : String} {v : Version} (htext : j.text? = some s)
    (h : ofJson? j = some v) : Obtained (Text.trim s) v
  | zero : Obtained "0" zero

theorem Obtained.literal_eq {s : String} {v : Version} (h : Obtained s v) : v.literal = s := by
  cases h with
  | read hparse => exact literal_of_parse hparse
  | @decoded j text v htext hdecoded =>
    rw [ofJson?, htext, Option.bind_some] at hdecoded
    cases hparse : parse text with
    | error e => simp [hparse, Except.toOption] at hdecoded
    | ok found =>
      rw [hparse] at hdecoded
      obtain rfl := Option.some.inj hdecoded
      exact literal_of_parse hparse
  | zero => rfl

/-- The lowest version has no components, just as if it had been read. -/
theorem components_zero : zero.components = .done := by
  decide +kernel

end Version

/-! ### Revisions -/

namespace Revision

theorem compare_swap (r s : Revision) : (compare r s).swap = compare s r := by
  change ((compare r.program s.program).then (compare r.version s.version)).swap = _
  rw [Ordering.swap_then, ← Std.OrientedCmp.eq_swap, ← Std.OrientedCmp.eq_swap]
  rfl

instance : Std.OrientedOrd Revision where
  eq_swap := (compare_swap _ _).symm

instance : Std.LawfulEqOrd Revision where
  eq_of_compare {r s} h := by
    change (compare r.program s.program).then (compare r.version s.version) = .eq at h
    obtain ⟨hprogram, hversion⟩ := Ordering.then_eq_eq.1 h
    cases r
    cases s
    rw [Revision.mk.injEq]
    exact ⟨Std.LawfulEqCmp.eq_of_compare hprogram, Std.LawfulEqCmp.eq_of_compare hversion⟩

theorem eq_of_isLE_compare {r s : Revision} (hrs : (compare r s).isLE) (hsr : (compare s r).isLE) :
    r = s :=
  Std.LawfulEqCmp.eq_of_compare (Std.OrientedCmp.isLE_antisymm hrs hsr)

/-- Revisions of one program are compared as their versions are, all others by their programs. -/
theorem coherent_compare {p q t : Program} {u v w : Version}
    (h : p = q → q = t → Coherent (u.cmp v) (v.cmp w) (u.cmp w)) :
    Coherent (compare (mk p u) (mk q v)) (compare (mk q v) (mk t w))
      (compare (mk p u) (mk t w)) := by
  have hprogram : Coherent (compare p q) (compare q t) (compare p t) :=
    .of_transCmp compare p q t
  have hliteral : Coherent (compare u.literal v.literal) (compare v.literal w.literal)
      (compare u.literal w.literal) := .of_transCmp compare _ _ _
  refine hprogram.then_iff.2 fun hpq hqt ↦ ?_
  have hversion := h (Program.eq_of_compare_eq hpq) (Program.eq_of_compare_eq hqt)
  exact hversion.then_iff.2 fun _ _ ↦ hliteral

/-- The versions in which each program occurs are totally preordered. -/
def VersionsOrdered (s : Revision → Prop) : Prop :=
  ∀ p, TotalPreorderOn Version.cmp fun v ↦ s ⟨p, v⟩

/-- It is enough to look at the versions that occur, of whatever programs. -/
theorem VersionsOrdered.of_forall_mem {s : Revision → Prop} {vs : List Version}
    (hvs : ∀ r, s r → r.version ∈ vs)
    (h : ∀ u ∈ vs, ∀ v ∈ vs, ∀ w ∈ vs, Coherent (u.cmp v) (v.cmp w) (u.cmp w)) :
    VersionsOrdered s := by
  refine fun p ↦ .of_coherent (fun v w _ _ ↦ Version.cmp_swap v w) fun u v w hu hv hw ↦ ?_
  exact h u (hvs _ hu) v (hvs _ hv) w (hvs _ hw)

theorem VersionsOrdered.mono {s t : Revision → Prop} (h : VersionsOrdered s)
    (hsub : ∀ r, t r → s r) : VersionsOrdered t :=
  fun p ↦ (h p).mono fun v ↦ hsub ⟨p, v⟩

/-- Revisions in release-style versions are in order. -/
theorem versionsOrdered_of_release {s : Revision → Prop}
    (h : ∀ r, s r → ∃ t : ReleaseLiteral, r.version = t.version) : VersionsOrdered s := by
  refine fun p ↦ Version.totalPreorderOn_of_concordant fun a b c ha hb hc ↦ ?_
  obtain ⟨t, rfl⟩ : ∃ t : ReleaseLiteral, a = t.version := h _ ha
  obtain ⟨u, rfl⟩ : ∃ u : ReleaseLiteral, b = u.version := h _ hb
  obtain ⟨v, rfl⟩ : ∃ v : ReleaseLiteral, c = v.version := h _ hc
  exact t.concordant u v

theorem totalPreorderOn_compare {s : Revision → Prop} (h : VersionsOrdered s) :
    TotalPreorderOn compare s := by
  refine .of_coherent (fun q r _ _ ↦ compare_swap q r) ?_
  rintro ⟨p, u⟩ ⟨q, v⟩ ⟨t, w⟩ hu hv hw
  refine coherent_compare ?_
  rintro rfl rfl
  exact (h p).coherent hu hv hw

theorem sort?_of_versionsOrdered {rs : List Revision} (h : VersionsOrdered (· ∈ rs)) :
    sort? compare rs = some (sortBy compare rs) :=
  sort?_eq_sortBy (totalPreorderOn_compare h) fun _ _ ↦ eq_of_isLE_compare

/-- Twenty-one revisions, in two ascending stretches. Some of their versions follow each other in
circles, as `8-rc < 8 < 8.jre6 < 8-rc`; `10` is greater than any other. -/
def cyclic : List Revision :=
  ["7-alpha", "7-beta", "7-rc", "7", "8-alpha", "8-beta", "8-rc", "8", "9-rc", "9",
    "7.jre6", "7.jre7", "7.jre8", "8.jre6", "8.jre7", "8.jre8", "9.jre6", "9.jre7", "9.jre8",
    "9.jre9", "10"].filterMap fun literal ↦
      (Version.parse literal).toOption.map (Revision.mk ⟨"g", "b"⟩)

/-- The sort goes different ways around the circles from its two ends. -/
theorem sort?_cyclic : sort? compare cyclic = none := by
  decide +kernel

end Revision

/-! ### Main statement -/

/-- The component order can be turned around and ties every version with itself. The whole order
ties two versions exactly when they are equal, that is, when they are known by the same literal, and
then their components are the same too, also where one of them is the lowest version and was not
read at all. Revisions tie exactly when their programs and the literals of their versions are the
same. -/
theorem Version.order_separates_literals :
    (∀ (s t : String) (v w : Version), Obtained s v → Obtained t w →
      (v.cmp w).swap = w.cmp v ∧ v.cmp v = .eq ∧
      (compare v w = .eq ↔ v = w) ∧ (v = w ↔ s = t) ∧ (s = t → v.components = w.components)) ∧
    zero.components = .done ∧
    ∀ q r : Revision, compare q r = .eq ↔
      q.program = r.program ∧ q.version.literal = r.version.literal := by
  refine ⟨fun s t v w hv hw ↦ ?_, components_zero, fun q r ↦ ?_⟩
  · have heq : v = w ↔ s = t := by rw [Version.ext_iff, hv.literal_eq, hw.literal_eq]
    exact ⟨cmp_swap v w, cmp_self v, Std.LawfulEqCmp.compare_eq_iff_eq, heq,
      fun hst ↦ congrArg components (heq.2 hst)⟩
  · rw [Std.LawfulEqCmp.compare_eq_iff_eq, Revision.mk.injEq, Version.ext_iff]

/-- The lowest version, one that ties with it in its components, and one that was read as `0`. -/
theorem Version.order_separates_literals_zero :
    let longer : Version := ⟨"0.0", by decide +kernel⟩
    Obtained "0" zero ∧ Obtained "0.0" longer ∧ zero.cmp longer = .eq ∧
      (compare zero longer = .eq ↔ zero = longer) ∧ zero ≠ longer ∧
      ∃ v, parse " 0\t" = .ok v ∧ compare zero v = .eq := by
  intro longer
  have hlonger : Obtained "0.0" longer :=
    (by decide +kernel : Text.trim " 0.0 " = "0.0") ▸ .read (by decide +kernel)
  have hread : parse " 0\t" = .ok zero := by decide +kernel
  have htrim : Text.trim " 0\t" = "0" := by decide +kernel
  obtain ⟨-, -, htie, hliteral, -⟩ :=
    order_separates_literals.1 "0" "0.0" zero longer .zero hlonger
  obtain ⟨-, -, hself, hsame, -⟩ :=
    order_separates_literals.1 "0" (Text.trim " 0\t") zero zero .zero (.read hread)
  refine ⟨.zero, hlonger, by decide +kernel, htie, ?_, zero, hread, hself.2 (hsame.2 htrim.symm)⟩
  rw [Ne, hliteral]
  decide

end ArtifactIndex
