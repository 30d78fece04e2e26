/-!
Sorting by a comparison that need not be an order on all elements. `sortBy` takes the elements in
turn and moves each in front of the greater ones, so equal elements stay in the order they came.

Where the comparison is a total preorder on the elements (`TotalPreorderOn`), all stable sorts give
what this one gives. Elsewhere they need not agree, and one that relies on an order may end without
a result. So `sortBy` stands for other sorts on such elements only; what a sort by runs does with
all others is told by `sort?`.
-/

set_option autoImplicit false

namespace ArtifactIndex

variable {α : Type}

/-- On the elements of `s` the comparison can be turned around and is transitive. -/
structure TotalPreorderOn (cmp : α → α → Ordering) (s : α → Prop) : Prop where
  swap : ∀ a b, s a → s b → (cmp a b).swap = cmp b a
  trans : ∀ a b c, s a → s b → s c → (cmp a b).isLE → (cmp b c).isLE → (cmp a c).isLE

/-! ### Insertion -/

/-- Puts an element into a descending list, behind the greater ones. -/
def insertDown (cmp : α → α → Ordering) (x : α) : List α → List α
  | [] => [x]
  | y :: ys => if cmp x y = .lt then y :: insertDown cmp x ys else x :: y :: ys

theorem insertDown_perm (cmp : α → α → Ordering) (x : α) (ys : List α) :
    (insertDown cmp x ys).Perm (x :: ys) := by
  induction ys with
  | nil => exact .refl _
  | cons y ys ih =>
    rw [insertDown]
    split
    · exact (ih.cons y).trans (.swap x y ys)
    · exact .refl _

theorem mem_insertDown {cmp : α → α → Ordering} {x z : α} {ys : List α} :
    z ∈ insertDown cmp x ys ↔ z = x ∨ z ∈ ys := by
  rw [(insertDown_perm cmp x ys).mem_iff, List.mem_cons]

/-- Each element is followed by elements it does not fall short of. -/
def Descending (cmp : α → α → Ordering) (xs : List α) : Prop :=
  xs.Pairwise fun a b ↦ (cmp b a).isLE

theorem TotalPreorderOn.isLE_of_ne_lt {cmp : α → α → Ordering} {s : α → Prop}
    (h : TotalPreorderOn cmp s) {a b : α} (ha : s a) (hb : s b) (hab : cmp a b ≠ .lt) :
    (cmp b a).isLE := by
  rw [← h.swap a b ha hb]
  cases hc : cmp a b <;> simp_all

theorem descending_insertDown {cmp : α → α → Ordering} {s : α → Prop}
    (h : TotalPreorderOn cmp s) {x : α} {ys : List α} (hx : s x) (hys : ∀ y ∈ ys, s y)
    (hd : Descending cmp ys) : Descending cmp (insertDown cmp x ys) := by
  induction ys with
  | nil => simp [insertDown, Descending]
  | cons y ys ih =>
    have hy : s y := hys y List.mem_cons_self
    have hle : ∀ z ∈ ys, (cmp z y).isLE := fun _ hz ↦ List.rel_of_pairwise_cons hd hz
    rw [insertDown]
    split
    case isTrue hlt =>
      refine (ih (fun z hz ↦ hys z (List.mem_cons_of_mem _ hz)) hd.of_cons).cons fun z hz ↦ ?_
      rcases mem_insertDown.1 hz with rfl | hz
      · simp [hlt]
      · exact hle z hz
    case isFalse hlt =>
      have hyx := h.isLE_of_ne_lt hx hy hlt
      refine hd.cons fun z hz ↦ ?_
      rcases List.mem_cons.1 hz with rfl | hzs
      · exact hyx
      · exact h.trans z y x (hys z hz) hy hx (hle z hzs) hyx

/-! ### Sorting -/

def sortDown (cmp : α → α → Ordering) (xs sorted : List α) : List α :=
  xs.foldl (fun sorted x ↦ insertDown cmp x sorted) sorted

def sortBy (cmp : α → α → Ordering) (xs : List α) : List α :=
  (sortDown cmp xs []).reverse

theorem sortDown_perm (cmp : α → α → Ordering) (xs sorted : List α) :
    (sortDown cmp xs sorted).Perm (xs ++ sorted) := by
  induction xs generalizing sorted with
  | nil => exact .refl _
  | cons x xs ih =>
    exact (ih _).trans (((insertDown_perm cmp x sorted).append_left xs).trans List.perm_middle)

theorem sortBy_perm (cmp : α → α → Ordering) (xs : List α) : (sortBy cmp xs).Perm xs := by
  simpa [sortBy] using (List.reverse_perm _).trans (sortDown_perm cmp xs [])

theorem mem_sortBy {cmp : α → α → Ordering} {x : α} {xs : List α} :
    x ∈ sortBy cmp xs ↔ x ∈ xs :=
  (sortBy_perm cmp xs).mem_iff

theorem descending_sortDown {cmp : α → α → Ordering} {s : α → Prop} (h : TotalPreorderOn cmp s)
    {xs sorted : List α} (hxs : ∀ x ∈ xs, s x) (hsorted : ∀ x ∈ sorted, s x)
    (hd : Descending cmp sorted) : Descending cmp (sortDown cmp xs sorted) := by
  induction xs generalizing sorted with
  | nil => exact hd
  | cons x xs ih =>
    have hx : s x := hxs x List.mem_cons_self
    refine ih (fun y hy ↦ hxs y (List.mem_cons_of_mem _ hy)) (fun y hy ↦ ?_)
      (descending_insertDown h hx hsorted hd)
    rcases mem_insertDown.1 hy with rfl | hy
    · exact hx
    · exact hsorted y hy

theorem pairwise_sortBy {cmp : α → α → Ordering} {s : α → Prop} (h : TotalPreorderOn cmp s)
    {xs : List α} (hxs : ∀ x ∈ xs, s x) :
    (sortBy cmp xs).Pairwise fun a b ↦ (cmp a b).isLE :=
  List.pairwise_reverse.2 (descending_sortDown h hxs (by simp) .nil)

end ArtifactIndex
