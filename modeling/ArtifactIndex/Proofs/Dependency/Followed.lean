import Mathlib.Data.List.Induction
import ArtifactIndex.Dependency.Basic
import ArtifactIndex.Proofs.Coordinate.Order

/-!
# The declarations that are followed

Declarations are gathered by program, in ascending order, a later one in the place of an earlier
one. What a lookup finds after an insertion does not depend on the order (`find?_insert`), so what
is gathered under a program is the last declaration of it (`find?_latest`). The compile declarations
are gathered before the runtime declarations: among those followed a program has its last runtime
declaration, or else its last compile declaration (`BuildDescriptor.mem_followed_iff`).
-/

set_option autoImplicit false
set_option relaxedAutoImplicit false

namespace ArtifactIndex.BuildDescriptor

/-! ### Gathered declarations -/

/-- No program twice, and the programs in ascending order. -/
def Ascending (ds : List Dependency) : Prop :=
  ds.Pairwise fun d e ↦ compare d.program e.program = .lt

variable {d e : Dependency} {ds : List Dependency} {p : Program}

theorem eq_or_mem_of_mem_insert (h : e ∈ insert d ds) : e = d ∨ e ∈ ds := by
  induction ds with
  | nil => exact .inl (List.mem_singleton.1 h)
  | cons first rest ih =>
    unfold insert at h
    split at h
    · exact List.mem_cons.1 h
    · exact (List.mem_cons.1 h).imp_right (List.mem_cons_of_mem first)
    · rcases List.mem_cons.1 h with rfl | hrest
      · exact .inr List.mem_cons_self
      · exact (ih hrest).imp_right (List.mem_cons_of_mem first)

theorem Ascending.insert (h : Ascending ds) : Ascending (insert d ds) := by
  induction ds with
  | nil => exact List.pairwise_singleton _ _
  | cons first rest ih =>
    obtain ⟨hfirst, hrest⟩ := List.pairwise_cons.1 h
    unfold BuildDescriptor.insert
    split
    case h_1 hlt =>
      refine h.cons fun e he ↦ ?_
      rcases List.mem_cons.1 he with rfl | he
      · exact hlt
      · exact Std.TransCmp.lt_trans hlt (hfirst e he)
    case h_2 heq =>
      rw [← Program.eq_of_compare_eq heq] at hfirst
      exact hrest.cons hfirst
    case h_3 hgt =>
      refine (ih hrest).cons fun e he ↦ ?_
      rcases eq_or_mem_of_mem_insert he with rfl | he
      · exact Std.OrientedCmp.gt_iff_lt.1 hgt
      · exact hfirst e he

/-- Under its own program an inserted declaration is found, under any other what was there. -/
theorem find?_insert :
    (insert d ds).find? (·.program == p) =
      if d.program = p then some d else ds.find? (·.program == p) := by
  induction ds with
  | nil => by_cases hp : d.program = p <;> simp [insert, hp]
  | cons first rest ih =>
    unfold insert
    split
    case h_1 => by_cases hp : d.program = p <;> simp [hp]
    case h_2 heq =>
      have hsame := Program.eq_of_compare_eq heq
      by_cases hp : d.program = p <;> simp [hp, ← hsame]
    case h_3 hgt =>
      have hne : d.program ≠ first.program := fun h ↦ by simp [h] at hgt
      by_cases hp : first.program = p
      · simp [hp, hp ▸ hne]
      · simp [hp, ih]

theorem latest_concat : latest (ds ++ [d]) = insert d (latest ds) :=
  List.foldl_concat _ _ _ _

theorem ascending_latest (ds : List Dependency) : Ascending (latest ds) := by
  induction ds using List.reverseRecOn with
  | nil => exact .nil
  | append_singleton ds d ih =>
    rw [latest_concat]
    exact ih.insert

theorem find?_latest (ds : List Dependency) (p : Program) :
    (latest ds).find? (·.program == p) = (ds.filter (·.program == p)).getLast? := by
  induction ds using List.reverseRecOn with
  | nil => rfl
  | append_singleton ds d ih =>
    rw [latest_concat, find?_insert, ih, List.filter_append]
    by_cases hp : d.program = p <;> simp [hp]

/-- Of two lists the later one decides, if it declares the program at all. -/
theorem find?_latest_append (ds es : List Dependency) (p : Program) :
    (latest (ds ++ es)).find? (·.program == p) =
      ((latest es).find? (·.program == p)).or ((latest ds).find? (·.program == p)) := by
  rw [find?_latest, find?_latest, find?_latest, List.filter_append, List.getLast?_append]

/-- Where no program occurs twice, a declaration is found under its program. -/
theorem Ascending.mem_iff_find? (h : Ascending ds) :
    d ∈ ds ↔ ds.find? (·.program == d.program) = some d := by
  refine ⟨fun hd ↦ ?_, List.mem_of_find?_eq_some⟩
  induction h with
  | nil => exact absurd hd List.not_mem_nil
  | @cons first rest hfirst _ ih =>
    rcases List.mem_cons.1 hd with rfl | hrest
    · simp
    · have hne : first.program ≠ d.program := fun h ↦ by simpa [h] using hfirst d hrest
      simpa [hne] using ih hrest

/-! ### The scopes of a descriptor -/

variable (b : BuildDescriptor)

/-- The last declaration of a program in a scope. -/
def lastIn? (scope : Scope) (p : Program) : Option Dependency :=
  ((b.inScope scope).filter (·.program == p)).getLast?

/-- The declaration that decides for a program: its last runtime declaration, or else its last
compile declaration. -/
def declaration? (p : Program) : Option Dependency :=
  (b.lastIn? .runtime p).or (b.lastIn? .compile p)

theorem find?_ofScope (scope : Scope) (p : Program) :
    (b.ofScope scope).find? (·.program == p) = b.lastIn? scope p :=
  find?_latest _ p

theorem find?_followed (p : Program) :
    b.followed.find? (·.program == p) = b.declaration? p := by
  have hscopes : Scope.followed.flatMap b.inScope = b.inScope .compile ++ b.inScope .runtime := by
    simp [Scope.followed]
  rw [followed, hscopes, find?_latest_append, declaration?, ← find?_ofScope, ← find?_ofScope]
  rfl

theorem ascending_followed : Ascending b.followed :=
  ascending_latest _

theorem mem_followed_iff : d ∈ b.followed ↔ b.declaration? d.program = some d := by
  rw [b.ascending_followed.mem_iff_find?, find?_followed]

theorem isSome_lastIn?_iff {scope : Scope} :
    (b.lastIn? scope p).isSome ↔ ∃ d ∈ b.dependencies, d.program = p ∧ d.scope = scope := by
  rw [lastIn?, List.getLast?_isSome, Ne, List.filter_eq_nil_iff, inScope]
  simp [and_assoc, and_left_comm, and_comm]

/-- A program is followed if it has a compile or a runtime declaration. -/
theorem exists_mem_followed_iff :
    (∃ d ∈ b.followed, d.program = p) ↔
      ∃ d ∈ b.dependencies, d.program = p ∧ (d.scope = .compile ∨ d.scope = .runtime) := by
  have hfound : (∃ d ∈ b.followed, d.program = p) ↔ (b.declaration? p).isSome := by
    rw [← find?_followed, List.find?_isSome]
    simp
  rw [hfound, declaration?, Option.isSome_or, Bool.or_eq_true, isSome_lastIn?_iff,
    isSome_lastIn?_iff]
  grind

end ArtifactIndex.BuildDescriptor
