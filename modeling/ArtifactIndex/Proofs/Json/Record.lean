import Mathlib.Data.List.Nodup
import ArtifactIndex.Json.Record
import ArtifactIndex.Proofs.Json.Lexing

/-!
# Records read back

A record written as an object with different names gives every field back (`fields?_ofMembers`), and
a list gives back its items if every item is given back (`list?_map`).
-/

set_option autoImplicit false
set_option relaxedAutoImplicit false

namespace ArtifactIndex.Json

variable {α β : Type}

theorem mapM_eq_some {f : α → Option β} {g : α → β} {xs : List α}
    (h : ∀ x ∈ xs, f x = some (g x)) : xs.mapM f = some (xs.map g) := by
  induction xs with
  | nil => rfl
  | cons x xs ih =>
    rw [List.mapM_cons, h x List.mem_cons_self, ih fun y hy ↦ h y (List.mem_cons_of_mem _ hy)]
    rfl

/-! ### Fields -/

theorem namedMembers?_encode (members : List (String × Json)) :
    namedMembers? (members.map fun (name, value) ↦ (Text.encode name, value)) = some members := by
  have hdecode : ∀ m ∈ members, (Text.decode? (Text.encode m.1)).map (·, m.2) = some (id m) :=
    fun m _ ↦ by rw [Text.decode?_encode]; rfl
  rw [namedMembers?, List.mapM_map]
  exact (mapM_eq_some hdecode).trans (congrArg some (List.map_id members))

theorem uniqueMember?_of_mem {members : List (String × Json)}
    (h : (members.map Prod.fst).Nodup) {m : String × Json} (hm : m ∈ members) :
    uniqueMember? m.1 members = some (some m.2) := by
  obtain ⟨front, back, rfl⟩ := List.append_of_mem hm
  rw [List.map_append, List.map_cons, List.nodup_middle, List.nodup_cons, ← List.map_append] at h
  have hother : ∀ n ∈ front ++ back, n.1 ≠ m.1 :=
    fun n hn heq ↦ h.1 (heq ▸ List.mem_map_of_mem hn)
  have hfront : front.filter (·.1 == m.1) = [] := List.filter_eq_nil_iff.2 fun n hn ↦ by
    simpa using hother n (List.mem_append_left _ hn)
  have hback : back.filter (·.1 == m.1) = [] := List.filter_eq_nil_iff.2 fun n hn ↦ by
    simpa using hother n (List.mem_append_right _ hn)
  have hfilter : (front ++ m :: back).filter (·.1 == m.1) = [m] := by
    rw [List.filter_append, hfront, List.nil_append, List.filter_cons_of_pos (by simp), hback]
  rw [uniqueMember?, hfilter]

/-- The fields of a record that is written with each name once. -/
theorem fields?_ofMembers {members : List (String × Json)} (h : (members.map Prod.fst).Nodup) :
    (ofMembers members).fields? (members.map Prod.fst) =
      some (members.map fun m ↦ some m.2) := by
  have hunique : ∀ m ∈ members, uniqueMember? m.1 members = some (some m.2) :=
    fun m hm ↦ uniqueMember?_of_mem h hm
  rw [ofMembers, fields?, namedMembers?_encode, Option.bind_eq_bind, Option.bind_some,
    List.mapM_map]
  exact mapM_eq_some hunique

theorem list?_map {item? : Json → Option α} {f : α → Json} (h : ∀ x, item? (f x) = some x)
    (xs : List α) : list? item? (.array (xs.map f)) = some xs := by
  rw [list?, List.mapM_map]
  exact (mapM_eq_some fun x _ ↦ h x).trans (congrArg some (List.map_id xs))

/-! ### Well-formed records -/

theorem wellFormed_ofString (s : String) : (ofString s).WellFormed :=
  .string _

theorem wellFormed_ofInt (i : Int) : (ofInt i).WellFormed :=
  .number (Numeral.wellFormed_ofInt i)

theorem wellFormed_ofMembers {members : List (String × Json)}
    (h : ∀ m ∈ members, m.2.WellFormed) : (ofMembers members).WellFormed := by
  refine .object fun m hm ↦ ?_
  obtain ⟨n, hn, rfl⟩ := List.mem_map.1 hm
  exact h n hn

theorem wellFormed_map {f : α → Json} (h : ∀ x, (f x).WellFormed) (xs : List α) :
    (Json.array (xs.map f)).WellFormed := by
  refine .array fun item hitem ↦ ?_
  obtain ⟨x, -, rfl⟩ := List.mem_map.1 hitem
  exact h x

end ArtifactIndex.Json
