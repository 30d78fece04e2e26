import ArtifactIndex.Index.Basic
import ArtifactIndex.Proofs.Closure.Completion
import ArtifactIndex.Proofs.Coordinate.Order
import ArtifactIndex.Proofs.FileSystem.AtomicWrite
import ArtifactIndex.Proofs.Json.Compact

/-!
# The content of an index depends on no order of collection

Resources are arranged by source and then by compact form. Where the versions of each program among
the sources are totally preordered (`Index.VersionsOrdered`) that is a total preorder too
(`Index.totalPreorderOn_cmpResource`), and only a resource itself stands at its place, since
resources are told apart by their compact forms. So there is one arrangement for all orders in which
the same resources may come (`Index.arrange_eq_of_perm`).

Runs of the protocol that begin with the same seeds collect the same resources in orders of their
own (`Protocol.Run.resources_perm`). Main statement: for the content that replaces the former one,
and for the file, these orders do not count (`Index.replace_canonical`).
-/

set_option autoImplicit false
set_option relaxedAutoImplicit false

namespace ArtifactIndex

open scoped List

namespace Index

variable {xs ys : List Resource}

/-! ### Order of the content -/

/-- The versions that sources of one program have are totally preordered. -/
def VersionsOrdered (xs : List Resource) : Prop :=
  ∀ p, TotalPreorderOn Version.cmp fun v ↦ ∃ r ∈ xs, r.source = some ⟨p, v⟩

/-- It is enough to look at the versions that occur, of whatever programs. -/
theorem VersionsOrdered.of_forall_mem {vs : List Version}
    (hvs : ∀ r ∈ xs, ∀ s ∈ r.source, s.version ∈ vs)
    (h : ∀ u ∈ vs, ∀ v ∈ vs, ∀ w ∈ vs, Coherent (u.cmp v) (v.cmp w) (u.cmp w)) :
    VersionsOrdered xs := by
  change Revision.VersionsOrdered fun s ↦ ∃ r ∈ xs, r.source = some s
  refine .of_forall_mem ?_ h
  rintro s ⟨r, hr, hsource⟩
  exact hvs r hr s hsource

theorem cmpSource_swap (r s : Option Revision) : (cmpSource r s).swap = cmpSource s r := by
  cases r <;> cases s
  case some.some r s => exact Revision.compare_swap r s
  all_goals rfl

theorem cmpResource_swap (r s : Resource) : (cmpResource r s).swap = cmpResource s r := by
  rw [cmpResource, Ordering.swap_then, cmpSource_swap, ← Std.OrientedCmp.eq_swap, cmpResource]

theorem VersionsOrdered.coherent_cmpSource (h : VersionsOrdered xs) {r s t : Resource}
    (hr : r ∈ xs) (hs : s ∈ xs) (ht : t ∈ xs) :
    Coherent (cmpSource r.source s.source) (cmpSource s.source t.source)
      (cmpSource r.source t.source) := by
  cases hrs : r.source <;> cases hss : s.source <;> cases hts : t.source
  case some.some.some x y z =>
    refine Revision.coherent_compare fun hxy hyz ↦ ?_
    exact (h x.program).coherent ⟨r, hr, hrs⟩ ⟨s, hs, by rw [hss, hxy]⟩
      ⟨t, ht, by rw [hts, hxy, hyz]⟩
  case some.some.none x y => exact .of_alike (by simp [cmpSource])
  all_goals simp [cmpSource, Coherent]

theorem totalPreorderOn_cmpResource (h : VersionsOrdered xs) :
    TotalPreorderOn cmpResource (· ∈ xs) := by
  refine .of_coherent (fun r s _ _ ↦ cmpResource_swap r s) fun r s t hr hs ht ↦ ?_
  have hforms : Coherent (compare r.toJson.compact s.toJson.compact)
      (compare s.toJson.compact t.toJson.compact) (compare r.toJson.compact t.toJson.compact) :=
    .of_transCmp compare _ _ _
  exact (h.coherent_cmpSource hr hs ht).then_iff.2 fun _ _ ↦ hforms

/-- Different resources never tie. -/
theorem eq_of_isLE_cmpResource {r s : Resource} (hrs : (cmpResource r s).isLE)
    (hsr : (cmpResource s r).isLE) : r = s := by
  -- neither the sources nor the forms decide, so the forms are the same
  have heq : cmpResource r s = .eq := by
    rw [← cmpResource_swap r s] at hsr
    revert hrs hsr
    cases cmpResource r s <;> simp
  have hforms : compare r.toJson.compact s.toJson.compact = .eq := (Ordering.then_eq_eq.1 heq).2
  exact Resource.compact_toJson_inj (Std.LawfulEqCmp.eq_of_compare hforms)

/-- However the resources come, they are arranged in one way. -/
theorem arrange_eq_of_perm (hperm : xs ~ ys) (h : VersionsOrdered xs) :
    arrange xs = arrange ys := by
  have hpreorder := totalPreorderOn_cmpResource h
  have hxs : (arrange xs).Pairwise fun r s ↦ (cmpResource r s).isLE :=
    pairwise_sortBy hpreorder fun _ hr ↦ hr
  have hys : (arrange ys).Pairwise fun r s ↦ (cmpResource r s).isLE :=
    pairwise_sortBy hpreorder fun _ hr ↦ hperm.mem_iff.2 hr
  have hsorted : arrange xs ~ arrange ys :=
    (sortBy_perm cmpResource xs).trans (hperm.trans (sortBy_perm cmpResource ys).symm)
  exact hsorted.eq_of_pairwise (fun _ _ _ _ ↦ eq_of_isLE_cmpResource) hxs hys

/-! ### Index and file -/

/-- The bytes of an index file. -/
def fileBytes (name : String) (resources : List Resource) : Text.Bytes :=
  (IndexFile.toJson ⟨name, resources⟩).pretty

theorem resources_replace_perm (x : Index) (fs : FileSystem) :
    (x.replace xs fs).2.1.resources ~ xs :=
  sortBy_perm cmpResource xs

theorem holds_of_replace {x : Index} {fs : FileSystem} (h : (x.replace xs fs).1 = .ok ()) :
    (x.replace xs fs).2.2.Holds x.location (fileBytes x.name (arrange xs)) :=
  FileSystem.holds_of_atomicWrite (Prod.ext h rfl)

/-- Replacing the content by the one or the other gives the same index and does the same to the file
system; on different file systems, or at different locations, it gives the same content and, where
it succeeds, files of the same bytes. -/
structure Interchangeable (xs ys : List Resource) : Prop where
  replace_eq : ∀ (x : Index) (fs : FileSystem), x.replace xs fs = x.replace ys fs
  resources_eq : ∀ (x y : Index) (fs fs' : FileSystem),
    (x.replace xs fs).2.1.resources = (y.replace ys fs').2.1.resources
  holds : ∀ (x y : Index) (fs fs' : FileSystem), x.name = y.name →
    (x.replace xs fs).1 = .ok () → (y.replace ys fs').1 = .ok () →
    ∃ bytes, (x.replace xs fs).2.2.Holds x.location bytes ∧
      (y.replace ys fs').2.2.Holds y.location bytes

theorem interchangeable_of_perm (hperm : xs ~ ys) (h : VersionsOrdered xs) :
    Interchangeable xs ys := by
  have harrange : arrange xs = arrange ys := arrange_eq_of_perm hperm h
  refine ⟨fun x fs ↦ ?_, fun x y fs fs' ↦ harrange, fun x y fs fs' hname hx hy ↦ ?_⟩
  · rw [replace, harrange, replace]
  · have hys := holds_of_replace hy
    rw [← hname, ← harrange] at hys
    exact ⟨_, holds_of_replace hx, hys⟩

/-- A refresh that resolves the seeds is a replacement by what was found. -/
theorem refresh_of_resolve {ρ : Type} {resolver after : Resolver} {repository : Repository ρ}
    {builder : Builder ρ} {budget : ℕ} {seeds : List Revision} {w w' : World ρ} {c : Closure}
    (h : resolver.resolve repository builder budget seeds w = (.ok c, after, w')) (x : Index) :
    x.refresh resolver repository builder budget seeds w =
      ((x.replace c.resources w'.files).1.map fun _ ↦ c.stats,
        (x.replace c.resources w'.files).2.1, after,
        { w' with files := (x.replace c.resources w'.files).2.2 }) := by
  unfold refresh
  rw [h]

end Index

/-! ### Orders of collection -/

namespace Protocol

variable {load : Workload} {seeds : List Revision}

/-- Whatever is picked, whoever comes first and however many may be in flight, the same resources
are collected. -/
theorem Run.resources_perm {limit limit' : ℕ} {prior prior' : Lifecycle}
    {visited visited' : List State} {s t : State}
    (hs : Run load limit (.ofSeeds prior seeds) visited s) (hsended : s.phase = .ended)
    (ht : Run load limit' (.ofSeeds prior' seeds) visited' t) (htended : t.phase = .ended) :
    s.coordination.closure.resources ~ t.coordination.closure.resources := by
  have hreached : ∀ r, r ∈ s.dispatched.toFinset ↔ r ∈ t.dispatched := by
    intro r
    rw [List.mem_toFinset, hs.mem_dispatched_iff hsended, ht.mem_dispatched_iff htended]
  have hsbooks : Summarizes load seeds s.dispatched.toFinset s.coordination.closure :=
    hs.tallied.summarizes hs.sound (hs.sound.outstanding_eq_nil hs.phased hsended)
      fun _ ↦ List.mem_toFinset
  have htbooks : Summarizes load seeds s.dispatched.toFinset t.coordination.closure :=
    ht.tallied.summarizes ht.sound (ht.sound.outstanding_eq_nil ht.phased htended) hreached
  rw [List.perm_ext_iff_of_nodup hsbooks.nodup_resources htbooks.nodup_resources]
  intro x
  rw [hsbooks.mem_resources, htbooks.mem_resources]

end Protocol

/-- All resources are stored, and the file holds them as they are stored. Resources that are
collected in another order are stored in the same one; so are those of two runs from the same seeds,
drained in any order; and a refresh stores what it resolved in that order too. -/
theorem Index.replace_canonical :
    (∀ (x : Index) (xs : List Resource) (fs : FileSystem), (x.replace xs fs).2.1.resources ~ xs ∧
      ((x.replace xs fs).1 = .ok () → (x.replace xs fs).2.2.Holds x.location
        (fileBytes x.name (x.replace xs fs).2.1.resources))) ∧
    (∀ xs ys : List Resource, xs ~ ys → VersionsOrdered xs → Interchangeable xs ys) ∧
    (∀ (load : Workload) (seeds : List Revision) (limit limit' : ℕ) (prior prior' : Lifecycle)
      (visited visited' : List Protocol.State) (s t : Protocol.State),
      Protocol.Run load limit (.ofSeeds prior seeds) visited s → s.phase = .ended →
      Protocol.Run load limit' (.ofSeeds prior' seeds) visited' t → t.phase = .ended →
      ∀ xs ys, xs ~ s.coordination.closure.resources → ys ~ t.coordination.closure.resources →
        VersionsOrdered xs → Interchangeable xs ys) ∧
    ∀ (ρ : Type) (resolver after : Resolver) (repository : Repository ρ) (builder : Builder ρ)
      (budget : ℕ) (seeds : List Revision) (w w' : World ρ) (c : Closure) (ys : List Resource),
      resolver.resolve repository builder budget seeds w = (.ok c, after, w') →
      c.resources ~ ys → VersionsOrdered c.resources → ∀ x : Index,
        x.refresh resolver repository builder budget seeds w =
          ((x.replace ys w'.files).1.map fun _ ↦ c.stats, (x.replace ys w'.files).2.1, after,
            { w' with files := (x.replace ys w'.files).2.2 }) := by
  refine ⟨fun x _ fs ↦ ⟨resources_replace_perm x fs, holds_of_replace⟩,
    fun _ _ ↦ interchangeable_of_perm, ?_, ?_⟩
  · intro load seeds limit limit' prior prior' visited visited' s t hs hsended ht htended xs ys hxs
      hys
    have hcollected := hs.resources_perm hsended ht htended
    exact interchangeable_of_perm (hxs.trans (hcollected.trans hys.symm))
  · intro ρ resolver after repository builder budget seeds w w' c ys hresolve hperm hordered x
    rw [refresh_of_resolve hresolve, (interchangeable_of_perm hperm hordered).replace_eq]

/-- A resource without a source, two of one source, and one of a version that ties with it. They
are stored in both orders, and the second time a file is there already. -/
theorem Index.replace_canonical_ties :
    let built (revision name : String) : Resource :=
      ⟨[.ofAttributes "bnd.info" [("from", .string revision), ("name", .string name)]], []⟩
    let xs := [built "g:a:1.0" "g:a:jar:1.0", ⟨[], []⟩, built "g:a:1" "g:a:zip:1",
      built "g:a:1" "g:a:jar:1"]
    let x := Index.new "t" "index.json"
    let fs : FileSystem := ⟨[], ⟨["work"], 5, FileSystem.directoryMode⟩, 0⟩
    let fs' : FileSystem :=
      { fs with entries := [(["index.json"], .file ⟨[0], 0, FileSystem.fileMode⟩)] }
    xs ~ xs.reverse ∧ VersionsOrdered xs ∧ Interchangeable xs xs.reverse ∧
      (x.replace xs.reverse fs').2.1.resources = [⟨[], []⟩, built "g:a:1" "g:a:jar:1",
        built "g:a:1" "g:a:zip:1", built "g:a:1.0" "g:a:jar:1.0"] ∧
      ∃ bytes, (x.replace xs fs).2.2.Holds "index.json" bytes ∧
        (x.replace xs.reverse fs').2.2.Holds "index.json" bytes := by
  intro built xs x fs fs'
  have hperm : xs ~ xs.reverse := (List.reverse_perm xs).symm
  have hversions : ∀ r ∈ xs, ∀ s ∈ r.source,
      s.version ∈ ([⟨"1", by decide +kernel⟩, ⟨"1.0", by decide +kernel⟩] : List Version) := by
    decide +kernel
  have hordered : VersionsOrdered xs := .of_forall_mem hversions (by decide +kernel)
  have hsame : Interchangeable xs xs.reverse := replace_canonical.2.1 _ _ hperm hordered
  have hwritten : (x.replace xs fs).1 = .ok () ∧ (x.replace xs.reverse fs').1 = .ok () := by
    decide +kernel
  exact ⟨hperm, hordered, hsame, by decide +kernel,
    hsame.holds x x fs fs' rfl hwritten.1 hwritten.2⟩

end ArtifactIndex
