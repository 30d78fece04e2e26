import Mathlib.Data.List.Basic
import ArtifactIndex.Sorting

/-!
# Total preorders on finitely many elements

A comparison that need not be an order everywhere may still be a total preorder on the elements of
one list. There it is the comparison of numbers: `rank` counts the listed elements that come
strictly before a given one, and `cmp_eq_compare_rank` says that comparing two listed elements is
comparing their ranks. Whatever is true of natural numbers can then be used of the elements.

On a list both laws of a total preorder are finitely many facts, so they can be decided.
-/

set_option autoImplicit false
set_option relaxedAutoImplicit false

namespace ArtifactIndex

variable {α : Type} {cmp : α → α → Ordering}

/-- The number of listed elements that come strictly before an element. -/
def rank (cmp : α → α → Ordering) (listed : List α) (a : α) : ℕ :=
  listed.countP fun b ↦ cmp b a = .lt

theorem rank_le_length (listed : List α) (a : α) : rank cmp listed a ≤ listed.length :=
  List.countP_le_length

namespace TotalPreorderOn

variable {s : α → Prop}

theorem cmp_self (h : TotalPreorderOn cmp s) {a : α} (ha : s a) : cmp a a = .eq := by
  have hswap := h.swap a a ha ha
  cases hcmp : cmp a a <;> simp [hcmp] at hswap ⊢

theorem lt_of_lt_of_isLE (h : TotalPreorderOn cmp s) {a b c : α} (ha : s a) (hb : s b)
    (hc : s c) (hab : cmp a b = .lt) (hbc : (cmp b c).isLE) : cmp a c = .lt := by
  by_contra hac
  have hca : (cmp c a).isLE := h.isLE_of_ne_lt ha hc hac
  have hba : (cmp b a).isLE := h.trans b c a hb hc ha hbc hca
  rw [← h.swap a b ha hb, hab] at hba
  simp at hba

theorem mono (h : TotalPreorderOn cmp s) {t : α → Prop} (hsub : ∀ a, t a → s a) :
    TotalPreorderOn cmp t where
  swap a b ha hb := h.swap a b (hsub a ha) (hsub b hb)
  trans a b c ha hb hc := h.trans a b c (hsub a ha) (hsub b hb) (hsub c hc)

/-- The other way round the comparison is a total preorder too. -/
theorem flip (h : TotalPreorderOn cmp s) : TotalPreorderOn (fun a b ↦ cmp b a) s where
  swap a b ha hb := h.swap b a hb ha
  trans a b c ha hb hc hab hbc := h.trans c b a hc hb ha hbc hab

theorem not_isLE_of_lt (h : TotalPreorderOn cmp s) {a b : α} (ha : s a) (hb : s b)
    (hlt : cmp b a = .lt) : ¬ (cmp a b).isLE := by
  rw [← h.swap b a hb ha, hlt]
  simp

/-! ### Ranks -/

variable {listed : List α}

theorem rank_le_rank (h : TotalPreorderOn cmp (· ∈ listed)) {a b : α} (ha : a ∈ listed)
    (hb : b ∈ listed) (hab : (cmp a b).isLE) : rank cmp listed a ≤ rank cmp listed b := by
  apply List.countP_mono_left
  intro c hc hca
  have hlt : cmp c a = .lt := of_decide_eq_true hca
  exact decide_eq_true (h.lt_of_lt_of_isLE hc ha hb hlt hab)

/-- The smaller element is counted for the greater one, but not for itself. -/
theorem rank_lt_rank (h : TotalPreorderOn cmp (· ∈ listed)) {a b : α} (ha : a ∈ listed)
    (hb : b ∈ listed) (hab : cmp a b = .lt) : rank cmp listed a < rank cmp listed b := by
  have hself : cmp a a = .eq := h.cmp_self ha
  have hbelow : ∀ c ∈ listed, cmp c a = .lt → cmp c b = .lt := fun c hc hca ↦
    h.lt_of_lt_of_isLE hc ha hb hca (by simp [hab])
  obtain ⟨front, back, rfl⟩ := List.append_of_mem ha
  have hfront : front.countP (fun c ↦ cmp c a = .lt) ≤ front.countP fun c ↦ cmp c b = .lt :=
    List.countP_mono_left fun c hc hca ↦
      decide_eq_true (hbelow c (List.mem_append_left _ hc) (of_decide_eq_true hca))
  have hback : back.countP (fun c ↦ cmp c a = .lt) ≤ back.countP fun c ↦ cmp c b = .lt :=
    List.countP_mono_left fun c hc hca ↦
      decide_eq_true (hbelow c (by simp [hc]) (of_decide_eq_true hca))
  unfold rank
  simp only [List.countP_append, List.countP_cons, hself, hab]
  simp only [reduceCtorEq, decide_false, decide_true, Bool.false_eq_true, if_true, if_false]
  omega

/-- On the listed elements the comparison is the comparison of the ranks. -/
theorem cmp_eq_compare_rank (h : TotalPreorderOn cmp (· ∈ listed)) {a b : α} (ha : a ∈ listed)
    (hb : b ∈ listed) : cmp a b = compare (rank cmp listed a) (rank cmp listed b) := by
  have hswap := h.swap a b ha hb
  cases hcmp : cmp a b with
  | lt => exact (Nat.compare_eq_lt.2 (h.rank_lt_rank ha hb hcmp)).symm
  | gt =>
    have hba : cmp b a = .lt := by rw [← hswap, hcmp]; rfl
    exact (Nat.compare_eq_gt.2 (h.rank_lt_rank hb ha hba)).symm
  | eq =>
    have hba : cmp b a = .eq := by rw [← hswap, hcmp]; rfl
    have hle := h.rank_le_rank ha hb (by simp [hcmp])
    have hge := h.rank_le_rank hb ha (by simp [hba])
    exact (Nat.compare_eq_eq.2 (Nat.le_antisymm hle hge)).symm

/-- A comparison that compares numbers attached to the elements is a total preorder. -/
theorem of_eq_compare {measure : α → ℕ}
    (hcmp : ∀ a b, s a → s b → cmp a b = compare (measure a) (measure b)) :
    TotalPreorderOn cmp s where
  swap a b ha hb := by
    rw [hcmp a b ha hb, hcmp b a hb ha, Nat.compare_swap]
  trans a b c ha hb hc hab hbc := by
    rw [hcmp a b ha hb, Nat.isLE_compare] at hab
    rw [hcmp b c hb hc, Nat.isLE_compare] at hbc
    rw [hcmp a c ha hc, Nat.isLE_compare]
    exact Nat.le_trans hab hbc

/-! ### Decidability -/

theorem on_list_iff : TotalPreorderOn cmp (· ∈ listed) ↔
    (∀ a ∈ listed, ∀ b ∈ listed, (cmp a b).swap = cmp b a) ∧
      ∀ a ∈ listed, ∀ b ∈ listed, ∀ c ∈ listed,
        (cmp a b).isLE → (cmp b c).isLE → (cmp a c).isLE := by
  constructor
  · intro h
    exact ⟨fun a ha b hb ↦ h.swap a b ha hb, fun a ha b hb c hc ↦ h.trans a b c ha hb hc⟩
  · rintro ⟨hswap, htrans⟩
    exact ⟨fun a b ha hb ↦ hswap a ha b hb, fun a b c ha hb hc ↦ htrans a ha b hb c hc⟩

instance (listed : List α) : Decidable (TotalPreorderOn cmp (· ∈ listed)) :=
  decidable_of_iff _ on_list_iff.symm

end TotalPreorderOn
end ArtifactIndex
