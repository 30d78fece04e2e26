import Mathlib.Data.List.Basic
import ArtifactIndex.Proofs.Order.Rank
import ArtifactIndex.Sorting.Merging

/-!
# Merging from the front, from the back and from both ends

Whatever the comparison, a draw takes front parts of the two lists (`Draw.Takes`). Where it is a
total preorder and the lists are ascending, the parts are determined by how many elements are drawn:
they cut the lists as a stable merge does (`Cut`), and of two cuts the longer extends the shorter
one (`Cut.exists_extension`). A draw from the backs leaves front parts that cut the lists in the
same sense. So a front and a back that draw half of the elements each leave nothing between them, or
the odd element, and a merge from both ends has a result (`yields_mergeInward?`). That a result
holds the elements of both lists needs no order: it is what the test at the end of the merge is for
(`perm_of_mergeInward?`).
-/

set_option autoImplicit false
set_option relaxedAutoImplicit false

namespace ArtifactIndex.RunSort

variable {α : Type} {cmp : α → α → Ordering} {s : α → Prop}

/-! ### Ascending lists -/

def Ascending (cmp : α → α → Ordering) (xs : List α) : Prop :=
  xs.Pairwise fun a b ↦ (cmp a b).isLE

theorem Ascending.reverse {xs : List α} (h : Ascending cmp xs) :
    Ascending (fun a b ↦ cmp b a) xs.reverse :=
  List.pairwise_reverse.2 h

/-! ### Results that there may not be -/

/-- A result, if there is one, satisfies the condition; and there is one if the comparison is a
total preorder on the elements. -/
structure Yields {β : Type} (cmp : α → α → Ordering) (s : α → Prop) (result : Option β)
    (post : β → Prop) : Prop where
  of_eq_some : ∀ b, result = some b → post b
  exists_some : TotalPreorderOn cmp s → ∃ b, result = some b

namespace Yields

variable {β γ : Type} {result : Option β} {post : β → Prop} {post' : γ → Prop}

theorem some {b : β} (h : post b) : Yields cmp s (.some b) post where
  of_eq_some _ hb := Option.some.inj hb ▸ h
  exists_some _ := ⟨b, rfl⟩

theorem bind {next : β → Option γ} (h : Yields cmp s result post)
    (hnext : ∀ b, post b → Yields cmp s (next b) post') :
    Yields cmp s (result.bind next) post' where
  of_eq_some c hc := by
    obtain ⟨b, hb, hc⟩ := Option.bind_eq_some_iff.1 hc
    exact (hnext b (h.of_eq_some b hb)).of_eq_some c hc
  exists_some horder := by
    obtain ⟨b, hb⟩ := h.exists_some horder
    obtain ⟨c, hc⟩ := (hnext b (h.of_eq_some b hb)).exists_some horder
    exact ⟨c, Option.bind_eq_some_iff.2 ⟨b, hb, hc⟩⟩

theorem map {f : β → γ} (h : Yields cmp s result post) (hf : ∀ b, post b → post' (f b)) :
    Yields cmp s (result.map f) post' := by
  rw [Option.map_eq_bind]
  exact h.bind fun b hb ↦ .some (hf b hb)

theorem imp {post' : β → Prop} (h : Yields cmp s result post) (hpost : ∀ b, post b → post' b) :
    Yields cmp s result post' where
  of_eq_some b hb := hpost b (h.of_eq_some b hb)
  exists_some := h.exists_some

end Yields

/-- The elements of the list, in ascending order where the comparison is a total preorder. -/
def Sorts (cmp : α → α → Ordering) (s : α → Prop) (xs ys : List α) : Prop :=
  ys.Perm xs ∧ (TotalPreorderOn cmp s → Ascending cmp ys)

/-! ### Drawing -/

/-- Two lists are cut so that the front parts come before the back parts in a stable merge. -/
structure Cut (cmp : α → α → Ordering) (ls₁ ls₂ rs₁ rs₂ : List α) : Prop where
  left_le : ∀ a ∈ ls₁, ∀ b ∈ rs₂, (cmp a b).isLE
  right_lt : ∀ b ∈ rs₁, ∀ a ∈ ls₂, cmp b a = .lt

/-- A draw takes the front parts of the two lists; it puts them in order and cuts the lists if these
are ascending. -/
structure Draw.Takes (cmp : α → α → Ordering) (n : ℕ) (ls rs ls₁ rs₁ : List α) (d : Draw α) :
    Prop where
  left_eq : ls = ls₁ ++ d.left
  right_eq : rs = rs₁ ++ d.right
  perm : d.taken.Perm (ls₁ ++ rs₁)
  length_eq : d.taken.length = min n (ls.length + rs.length)
  cut : ∀ {s : α → Prop}, TotalPreorderOn cmp s → (∀ l ∈ ls, s l) → (∀ r ∈ rs, s r) →
    Ascending cmp ls → Ascending cmp rs →
      Ascending cmp d.taken ∧ Cut cmp ls₁ d.left rs₁ d.right

namespace Draw.Takes

variable {n : ℕ} {l r : α} {ls rs ls₁ rs₁ : List α} {d : Draw α}

theorem nothing (hn : n = 0 ∨ ls = [] ∧ rs = []) : Takes cmp n ls rs [] [] ⟨[], ls, rs⟩ where
  left_eq := rfl
  right_eq := rfl
  perm := .refl _
  length_eq := by rcases hn with rfl | ⟨rfl, rfl⟩ <;> simp
  cut _ _ _ _ _ := ⟨.nil, by simp, by simp⟩

theorem consLeft (h : Takes cmp n ls rs ls₁ rs₁ d)
    (hle : ∀ {s : α → Prop}, TotalPreorderOn cmp s → s l → (∀ r ∈ rs, s r) →
      Ascending cmp rs → ∀ b ∈ rs, (cmp l b).isLE) :
    Takes cmp (n + 1) (l :: ls) rs (l :: ls₁) rs₁ { d with taken := l :: d.taken } where
  left_eq := congrArg (l :: ·) h.left_eq
  right_eq := h.right_eq
  perm := h.perm.cons l
  length_eq := by
    have hlength := h.length_eq
    simp only [List.length_cons]
    omega
  cut {s} horder hls hrs hleft hright := by
    obtain ⟨hl, hls⟩ := List.forall_mem_cons.1 hls
    obtain ⟨htaken, hcut⟩ := h.cut horder hls hrs hleft.of_cons hright
    have hlb := hle horder hl hrs hright
    refine ⟨htaken.cons fun x hx ↦ ?_, fun a ha b hb ↦ ?_, hcut.right_lt⟩
    · rcases List.mem_append.1 (h.perm.mem_iff.1 hx) with hx | hx
      · exact List.rel_of_pairwise_cons hleft (h.left_eq ▸ List.mem_append_left _ hx)
      · exact hlb x (h.right_eq ▸ List.mem_append_left _ hx)
    · rcases List.mem_cons.1 ha with rfl | ha
      · exact hlb b (h.right_eq ▸ List.mem_append_right _ hb)
      · exact hcut.left_le a ha b hb

theorem consRight (h : Takes cmp n ls rs ls₁ rs₁ d)
    (hlt : ∀ {s : α → Prop}, TotalPreorderOn cmp s → s r → (∀ l ∈ ls, s l) →
      Ascending cmp ls → ∀ a ∈ ls, cmp r a = .lt) :
    Takes cmp (n + 1) ls (r :: rs) ls₁ (r :: rs₁) { d with taken := r :: d.taken } where
  left_eq := h.left_eq
  right_eq := congrArg (r :: ·) h.right_eq
  perm := (h.perm.cons r).trans List.perm_middle.symm
  length_eq := by
    have hlength := h.length_eq
    simp only [List.length_cons]
    omega
  cut {s} horder hls hrs hleft hright := by
    obtain ⟨hr, hrs⟩ := List.forall_mem_cons.1 hrs
    obtain ⟨htaken, hcut⟩ := h.cut horder hls hrs hleft hright.of_cons
    have hra := hlt horder hr hls hleft
    refine ⟨htaken.cons fun x hx ↦ ?_, hcut.left_le, fun b hb a ha ↦ ?_⟩
    · rcases List.mem_append.1 (h.perm.mem_iff.1 hx) with hx | hx
      · simp [hra x (h.left_eq ▸ List.mem_append_left _ hx)]
      · exact List.rel_of_pairwise_cons hright (h.right_eq ▸ List.mem_append_left _ hx)
    · rcases List.mem_cons.1 hb with rfl | hb
      · exact hra a (h.left_eq ▸ List.mem_append_right _ ha)
      · exact hcut.right_lt b hb a ha

end Draw.Takes

variable (cmp) in
theorem exists_takes_draw (n : ℕ) (ls rs : List α) :
    ∃ ls₁ rs₁, (draw cmp n ls rs).Takes cmp n ls rs ls₁ rs₁ := by
  fun_induction draw cmp n ls rs with
  | case1 n l ls r rs hlt rest ih =>
    obtain ⟨ls₁, rs₁, h⟩ := ih
    refine ⟨ls₁, r :: rs₁, h.consRight fun horder hr hls hleft a ha ↦ ?_⟩
    rcases List.mem_cons.1 ha with rfl | hmem
    · exact hlt
    · exact horder.lt_of_lt_of_isLE hr (hls l List.mem_cons_self) (hls a ha) hlt
        (List.rel_of_pairwise_cons hleft hmem)
  | case2 n l ls r rs hlt rest ih =>
    obtain ⟨ls₁, rs₁, h⟩ := ih
    refine ⟨l :: ls₁, rs₁, h.consLeft fun horder hl hrs hright b hb ↦ ?_⟩
    have hlr : (cmp l r).isLE := horder.isLE_of_ne_lt (hrs r List.mem_cons_self) hl hlt
    rcases List.mem_cons.1 hb with rfl | hmem
    · exact hlr
    · exact horder.trans l r b hl (hrs r List.mem_cons_self) (hrs b hb) hlr
        (List.rel_of_pairwise_cons hright hmem)
  | case3 n l ls rest ih =>
    obtain ⟨ls₁, rs₁, h⟩ := ih
    exact ⟨l :: ls₁, rs₁, h.consLeft (by simp)⟩
  | case4 n r rs rest ih =>
    obtain ⟨ls₁, rs₁, h⟩ := ih
    exact ⟨ls₁, r :: rs₁, h.consRight (by simp)⟩
  | case5 n ls rs h₁ h₂ h₃ =>
    refine ⟨[], [], .nothing ?_⟩
    cases n <;> cases ls <;> cases rs <;> grind

/-! ### Drawing from the backs -/

/-- What is drawn from the backs is the back parts of the two lists. -/
structure Draw.TakesBack (cmp : α → α → Ordering) (n : ℕ) (ls rs ls₂ rs₂ : List α) (d : Draw α) :
    Prop where
  left_eq : ls = d.left ++ ls₂
  right_eq : rs = d.right ++ rs₂
  perm : d.taken.Perm (ls₂ ++ rs₂)
  length_eq : d.taken.length = min n (ls.length + rs.length)
  cut : ∀ {s : α → Prop}, TotalPreorderOn cmp s → (∀ l ∈ ls, s l) → (∀ r ∈ rs, s r) →
    Ascending cmp ls → Ascending cmp rs →
      Ascending cmp d.taken ∧ Cut cmp d.left ls₂ d.right rs₂

variable (cmp) in
theorem exists_takesBack_drawBack (n : ℕ) (ls rs : List α) :
    ∃ ls₂ rs₂, (drawBack cmp n ls rs).TakesBack cmp n ls rs ls₂ rs₂ := by
  obtain ⟨rs₂, ls₂, h⟩ := exists_takes_draw (fun a b ↦ cmp b a) n rs.reverse ls.reverse
  refine ⟨ls₂.reverse, rs₂.reverse, ?_, ?_, ?_, ?_, ?_⟩
  · simpa [drawBack] using congrArg List.reverse h.right_eq
  · simpa [drawBack] using congrArg List.reverse h.left_eq
  · rw [← List.reverse_append]
    exact (List.reverse_perm _).trans (h.perm.trans (List.reverse_perm _).symm)
  · have hlength := h.length_eq
    simp only [List.length_reverse] at hlength
    simp only [drawBack, List.length_reverse, hlength, Nat.add_comm]
  · intro s horder hls hrs hleft hright
    obtain ⟨htaken, hcut⟩ := h.cut horder.flip (by simpa using hrs) (by simpa using hls)
      hright.reverse hleft.reverse
    refine ⟨List.pairwise_reverse.2 htaken, fun a ha b hb ↦ ?_, fun b hb a ha ↦ ?_⟩
    · exact hcut.left_le b (List.mem_reverse.1 hb) a (List.mem_reverse.1 ha)
    · exact hcut.right_lt a (List.mem_reverse.1 ha) b (List.mem_reverse.1 hb)

/-! ### Two cuts of the same lists -/

namespace Cut

variable {ls rs ls₁ ls₂ rs₁ rs₂ ls₁' ls₂' rs₁' rs₂' : List α}

/-- The front parts of the shorter cut are front parts of those of the longer one. -/
theorem exists_extension (horder : TotalPreorderOn cmp s) (hls : ∀ l ∈ ls, s l)
    (hrs : ∀ r ∈ rs, s r) (h : Cut cmp ls₁ ls₂ rs₁ rs₂) (h' : Cut cmp ls₁' ls₂' rs₁' rs₂')
    (hleft : ls = ls₁ ++ ls₂) (hright : rs = rs₁ ++ rs₂) (hleft' : ls = ls₁' ++ ls₂')
    (hright' : rs = rs₁' ++ rs₂')
    (hlength : ls₁.length + rs₁.length ≤ ls₁'.length + rs₁'.length) :
    ∃ ls₀ rs₀, ls₁' = ls₁ ++ ls₀ ∧ rs₁' = rs₁ ++ rs₀ ∧ ls₂ = ls₀ ++ ls₂' ∧ rs₂ = rs₀ ++ rs₂' := by
  -- an element of the left list and one of the right list that the cuts put in different orders
  have habsurd : ∀ {a b : α}, a ∈ ls → b ∈ rs → (cmp a b).isLE → ¬ cmp b a = .lt :=
    fun ha hb hle hlt ↦ horder.not_isLE_of_lt (hls _ ha) (hrs _ hb) hlt hle
  rcases List.append_eq_append_iff.1 (hleft.symm.trans hleft') with
    ⟨ls₀, rfl, rfl⟩ | ⟨ls₀, rfl, rfl⟩ <;>
  rcases List.append_eq_append_iff.1 (hright.symm.trans hright') with
    ⟨rs₀, rfl, rfl⟩ | ⟨rs₀, rfl, rfl⟩
  · exact ⟨ls₀, rs₀, rfl, rfl, rfl, rfl⟩
  · cases rs₀ with
    | nil => exact ⟨ls₀, [], by simp⟩
    | cons b rs₀ =>
      cases ls₀ with
      | nil => grind
      | cons a ls₀ =>
        exact absurd (h.right_lt b (by simp) a (by simp))
          (habsurd (by simp [hleft]) (by simp [hright]) (h'.left_le a (by simp) b (by simp)))
  · cases ls₀ with
    | nil => exact ⟨[], rs₀, by simp⟩
    | cons a ls₀ =>
      cases rs₀ with
      | nil => grind
      | cons b rs₀ =>
        exact absurd (h'.right_lt b (by simp) a (by simp))
          (habsurd (by simp [hleft]) (by simp [hright]) (h.left_le a (by simp) b (by simp)))
  · simp only [List.length_append] at hlength
    obtain rfl : ls₀ = [] := List.length_eq_zero_iff.1 (by omega)
    obtain rfl : rs₀ = [] := List.length_eq_zero_iff.1 (by omega)
    exact ⟨[], [], by simp⟩

theorem isLE_of_mem (h : Cut cmp ls₁ ls₂ rs₁ rs₂) (hleft : Ascending cmp (ls₁ ++ ls₂))
    (hright : Ascending cmp (rs₁ ++ rs₂)) :
    ∀ a ∈ ls₁ ++ rs₁, ∀ b ∈ ls₂ ++ rs₂, (cmp a b).isLE := by
  intro a ha b hb
  rcases List.mem_append.1 ha with ha | ha <;> rcases List.mem_append.1 hb with hb | hb
  · exact (List.pairwise_append.1 hleft).2.2 a ha b hb
  · exact h.left_le a ha b hb
  · simp [h.right_lt a ha b hb]
  · exact (List.pairwise_append.1 hright).2.2 a ha b hb

end Cut

/-! ### Merging -/

theorem append_interchange (as bs cs ds : List α) :
    ((as ++ bs) ++ (cs ++ ds)).Perm ((as ++ cs) ++ (bs ++ ds)) := by
  simpa using (List.perm_append_comm_assoc bs cs ds).append_left as

theorem Draw.exists_moveOn (d : Draw α) (fromLeft : Bool) (n : ℕ) :
    ∃ ls₀ rs₀, d.left = ls₀ ++ (d.moveOn fromLeft n).left ∧
      d.right = rs₀ ++ (d.moveOn fromLeft n).right ∧ (d.moveOn fromLeft n).taken = ls₀ ++ rs₀ := by
  cases fromLeft
  · exact ⟨[], d.right.take n, rfl, (List.take_append_drop n d.right).symm, rfl⟩
  · exact ⟨d.left.take n, [], (List.take_append_drop n d.left).symm, rfl, by simp [moveOn]⟩

/-- Two decompositions of a list whose back parts make up its length with the other's front. -/
theorem back_eq_of_length {xs front back front' back' : List α} (h : xs = front ++ back)
    (h' : xs = front' ++ back') (hlength : back.length + front'.length = xs.length) :
    back = back' := by
  have hback : back.length = back'.length := by
    rw [h', List.length_append] at hlength
    omega
  exact (List.append_inj' (h.symm.trans h') hback).2

/-- If the lengths agree, what is taken from the two ends makes up the lists. -/
theorem perm_of_mergeInward? {ls rs ys : List α} (h : mergeInward? cmp ls rs = some ys) :
    ys.Perm (ls ++ rs) := by
  obtain ⟨ls₁, rs₁, hfront⟩ := exists_takes_draw cmp ls.length ls rs
  obtain ⟨ls₂, rs₂, hback⟩ := exists_takesBack_drawBack cmp ls.length ls rs
  unfold mergeInward? at h
  extract_lets front back fromLeft middle at h
  obtain ⟨ls₀, rs₀, hleft, hright, htaken⟩ := front.exists_moveOn fromLeft (rs.length - ls.length)
  split_ifs at h with hmeet
  obtain rfl := Option.some.inj h
  have hls : ls = ls₁ ++ (ls₀ ++ middle.left) := hfront.left_eq.trans (congrArg _ hleft)
  have hrs : rs = rs₁ ++ (rs₀ ++ middle.right) := hfront.right_eq.trans (congrArg _ hright)
  have hls₂ : middle.left = ls₂ := back_eq_of_length (hls.trans (List.append_assoc _ _ _).symm)
    hback.left_eq hmeet.1
  have hrs₂ : middle.right = rs₂ := back_eq_of_length (hrs.trans (List.append_assoc _ _ _).symm)
    hback.right_eq hmeet.2
  rw [hls₂] at hls
  rw [hrs₂] at hrs
  calc (front.taken ++ (middle.taken ++ back.taken)).Perm
        ((ls₁ ++ rs₁) ++ ((ls₀ ++ rs₀) ++ (ls₂ ++ rs₂))) :=
          hfront.perm.append (htaken ▸ hback.perm.append_left _)
    _ |>.Perm ((ls₁ ++ rs₁) ++ ((ls₀ ++ ls₂) ++ (rs₀ ++ rs₂))) :=
          (append_interchange ls₀ rs₀ ls₂ rs₂).append_left _
    _ |>.Perm ((ls₁ ++ (ls₀ ++ ls₂)) ++ (rs₁ ++ (rs₀ ++ rs₂))) := append_interchange _ _ _ _
    _ = ls ++ rs := by rw [← hls, ← hrs]

theorem Draw.moveOn_eq {d : Draw α} {ls₀ ls₂ rs₀ rs₂ : List α} (hleft : d.left = ls₀ ++ ls₂)
    (hright : d.right = rs₀ ++ rs₂) (hlength : ls₀.length + rs₀.length ≤ 1) :
    d.moveOn (0 < ls₀.length) (ls₀.length + rs₀.length) = ⟨ls₀ ++ rs₀, ls₂, rs₂⟩ := by
  cases ls₀ with
  | nil => simp [moveOn, hleft, hright]
  | cons a ls₀ =>
    rw [List.length_cons] at hlength
    obtain rfl : rs₀ = [] := List.length_eq_zero_iff.1 (by omega)
    simp [moveOn, hleft, hright]

theorem ascending_of_length_le_one {xs : List α} (h : xs.length ≤ 1) : Ascending cmp xs := by
  rcases xs with _ | ⟨x, _ | ⟨y, xs⟩⟩
  · exact .nil
  · exact List.pairwise_singleton _ _
  · simp at h

section Inward

variable {ls rs ls₁ ls₂ rs₁ rs₂ : List α} {front back : Draw α}

/-- The front and the back that take as many elements as the shorter list has leave out what is
between them: nothing, or one element. -/
theorem exists_between (horder : TotalPreorderOn cmp s) (hls : ∀ l ∈ ls, s l)
    (hrs : ∀ r ∈ rs, s r) (hfront : front.Takes cmp ls.length ls rs ls₁ rs₁)
    (hback : back.TakesBack cmp ls.length ls rs ls₂ rs₂)
    (hfrontCut : Cut cmp ls₁ front.left rs₁ front.right)
    (hbackCut : Cut cmp back.left ls₂ back.right rs₂) (hshort : ls.length ≤ rs.length) :
    ∃ ls₀ rs₀, back.left = ls₁ ++ ls₀ ∧ back.right = rs₁ ++ rs₀ ∧ front.left = ls₀ ++ ls₂ ∧
      front.right = rs₀ ++ rs₂ ∧ ls₀.length + rs₀.length = rs.length - ls.length := by
  have hfrontLength := hfront.perm.length_eq.symm.trans hfront.length_eq
  have hbackLength := hback.perm.length_eq.symm.trans hback.length_eq
  have hlsBack := congrArg List.length hback.left_eq
  have hrsBack := congrArg List.length hback.right_eq
  simp only [List.length_append] at hfrontLength hbackLength hlsBack hrsBack
  obtain ⟨ls₀, rs₀, hls₀, hrs₀, hfl, hfr⟩ := hfrontCut.exists_extension horder hls hrs hbackCut
    hfront.left_eq hfront.right_eq hback.left_eq hback.right_eq (by omega)
  have hlsLength := congrArg List.length hls₀
  have hrsLength := congrArg List.length hrs₀
  simp only [List.length_append] at hlsLength hrsLength
  exact ⟨ls₀, rs₀, hls₀, hrs₀, hfl, hfr, by omega⟩

/-- The two ends meet: both cut the lists, and cuts that take as many elements are the same. -/
theorem exists_mergeInward? (horder : TotalPreorderOn cmp s) (hls : ∀ l ∈ ls, s l)
    (hrs : ∀ r ∈ rs, s r) (hleft : Ascending cmp ls) (hright : Ascending cmp rs)
    (hshort : ls.length ≤ rs.length) (hlong : rs.length ≤ ls.length + 1) :
    ∃ ys, mergeInward? cmp ls rs = some ys ∧ Ascending cmp ys := by
  obtain ⟨ls₁, rs₁, hfront⟩ := exists_takes_draw cmp ls.length ls rs
  obtain ⟨ls₂, rs₂, hback⟩ := exists_takesBack_drawBack cmp ls.length ls rs
  unfold mergeInward?
  generalize draw cmp ls.length ls rs = front at hfront ⊢
  generalize drawBack cmp ls.length ls rs = back at hback ⊢
  obtain ⟨hfrontTaken, hfrontCut⟩ := hfront.cut horder hls hrs hleft hright
  obtain ⟨hbackTaken, hbackCut⟩ := hback.cut horder hls hrs hleft hright
  obtain ⟨ls₀, rs₀, hbl, hbr, hfl, hfr, hlength⟩ :=
    exists_between horder hls hrs hfront hback hfrontCut hbackCut hshort
  have hleftLength : ls.length = ls₁.length + (ls₀.length + ls₂.length) := by
    rw [hfront.left_eq, hfl]
    simp only [List.length_append]
  have hrightLength : rs.length = rs₁.length + (rs₀.length + rs₂.length) := by
    rw [hfront.right_eq, hfr]
    simp only [List.length_append]
  have hfromLeft : decide (ls.length < front.left.length + back.left.length) =
      decide (0 < ls₀.length) := by
    rw [hfl, hbl, List.length_append, List.length_append, decide_eq_decide]
    omega
  dsimp only
  rw [hfromLeft, ← hlength, Draw.moveOn_eq hfl hfr (by omega), hbl, hbr]
  simp only [List.length_append]
  rw [if_pos (by omega)]
  have hbelow := hfrontCut.isLE_of_mem (hfront.left_eq ▸ hleft) (hfront.right_eq ▸ hright)
  have habove := hbackCut.isLE_of_mem (hback.left_eq ▸ hleft) (hback.right_eq ▸ hright)
  refine ⟨_, rfl, List.pairwise_append.2 ⟨hfrontTaken, List.pairwise_append.2
    ⟨ascending_of_length_le_one ?_, hbackTaken, fun a ha b hb ↦ ?_⟩, fun a ha b hb ↦ ?_⟩⟩
  · rw [List.length_append]
    omega
  · refine habove a ?_ b (hback.perm.mem_iff.1 hb)
    rw [hbl, hbr]
    rcases List.mem_append.1 ha with ha | ha <;> simp [ha]
  · refine hbelow a (hfront.perm.mem_iff.1 ha) b ?_
    rw [hfl, hfr]
    rcases List.mem_append.1 hb with hb | hb
    · rcases List.mem_append.1 hb with hb | hb <;> simp [hb]
    · rcases List.mem_append.1 (hback.perm.mem_iff.1 hb) with hb | hb <;> simp [hb]

theorem yields_mergeInward? (hls : ∀ l ∈ ls, s l) (hrs : ∀ r ∈ rs, s r)
    (hleft : TotalPreorderOn cmp s → Ascending cmp ls)
    (hright : TotalPreorderOn cmp s → Ascending cmp rs) (hshort : ls.length ≤ rs.length)
    (hlong : rs.length ≤ ls.length + 1) :
    Yields cmp s (mergeInward? cmp ls rs) (Sorts cmp s (ls ++ rs)) := by
  have hexists := fun horder ↦
    exists_mergeInward? horder hls hrs (hleft horder) (hright horder) hshort hlong
  refine ⟨fun ys hys ↦ ⟨perm_of_mergeInward? hys, fun horder ↦ ?_⟩, fun horder ↦ ?_⟩
  · obtain ⟨zs, hzs, hascending⟩ := hexists horder
    rwa [Option.some.inj (hys.symm.trans hzs)]
  · obtain ⟨zs, hzs, -⟩ := hexists horder
    exact ⟨zs, hzs⟩

end Inward

/-! ### Whole merges -/

section Whole

variable {ls rs : List α}

/-- What was drawn is all there is if it is as much. -/
theorem perm_of_whole {taken as bs cs ds : List α} (h : taken.Perm (as ++ bs))
    (hlength : taken.length = min (ls.length + rs.length) (ls.length + rs.length))
    (hls : (as ++ cs).Perm ls) (hrs : (bs ++ ds).Perm rs) : taken.Perm (ls ++ rs) := by
  have htaken := h.length_eq.symm.trans hlength
  have hleft := hls.length_eq
  have hright := hrs.length_eq
  simp only [List.length_append] at htaken hleft hright
  obtain rfl : cs = [] := List.length_eq_zero_iff.1 (by omega)
  obtain rfl : ds = [] := List.length_eq_zero_iff.1 (by omega)
  rw [List.append_nil] at hls hrs
  exact h.trans (hls.append hrs)

theorem merge_perm (ls rs : List α) : (merge cmp ls rs).Perm (ls ++ rs) := by
  unfold merge
  dsimp only
  split_ifs
  · obtain ⟨_, _, h⟩ := exists_takes_draw cmp (ls.length + rs.length) ls rs
    exact perm_of_whole h.perm h.length_eq (.of_eq h.left_eq.symm) (.of_eq h.right_eq.symm)
  · obtain ⟨_, _, h⟩ := exists_takesBack_drawBack cmp (ls.length + rs.length) ls rs
    exact perm_of_whole h.perm h.length_eq (List.perm_append_comm.trans (.of_eq h.left_eq.symm))
      (List.perm_append_comm.trans (.of_eq h.right_eq.symm))

theorem ascending_merge (horder : TotalPreorderOn cmp s) (hls : ∀ l ∈ ls, s l)
    (hrs : ∀ r ∈ rs, s r) (hleft : Ascending cmp ls) (hright : Ascending cmp rs) :
    Ascending cmp (merge cmp ls rs) := by
  unfold merge
  dsimp only
  split_ifs
  · obtain ⟨_, _, h⟩ := exists_takes_draw cmp (ls.length + rs.length) ls rs
    exact (h.cut horder hls hrs hleft hright).1
  · obtain ⟨_, _, h⟩ := exists_takesBack_drawBack cmp (ls.length + rs.length) ls rs
    exact (h.cut horder hls hrs hleft hright).1

end Whole

/-! ### Short lists -/

variable (cmp) in
theorem exists_pair (a b : α) : ∃ low high, pair cmp a b = (low, high) ∧
    [low, high].Perm [a, b] ∧
    (TotalPreorderOn cmp (· ∈ [a, b]) → (cmp low high).isLE) := by
  unfold pair
  split_ifs with hlt
  · exact ⟨b, a, rfl, .swap a b [], fun _ ↦ by simp [hlt]⟩
  · exact ⟨a, b, rfl, .refl _, fun horder ↦ horder.isLE_of_ne_lt (by simp) (by simp) hlt⟩

theorem enclose_perm (least a b greatest : α) :
    (enclose cmp least a b greatest).Perm [least, a, b, greatest] := by
  obtain ⟨low, high, hpair, hperm, -⟩ := exists_pair cmp a b
  rw [enclose, hpair]
  exact (hperm.append_right [greatest]).cons least

theorem ascending_enclose {least a b greatest : α} (horder : TotalPreorderOn cmp (· ∈ [a, b]))
    (hab : ∀ x ∈ [a, b], (cmp least x).isLE ∧ (cmp x greatest).isLE)
    (hends : (cmp least greatest).isLE) : Ascending cmp (enclose cmp least a b greatest) := by
  obtain ⟨low, high, hpair, hperm, hle⟩ := exists_pair cmp a b
  have hbetween : ∀ x ∈ [low, high], (cmp least x).isLE ∧ (cmp x greatest).isLE :=
    fun x hx ↦ hab x (hperm.mem_iff.1 hx)
  rw [enclose, hpair]
  simp only [List.forall_mem_cons] at hbetween
  simp [Ascending, hbetween, hends, hle horder]

variable (cmp) in
/-- The four branches put the same elements in different places. -/
theorem sortFour_perm (w x y z : α) : (sortFour cmp w x y z).Perm [w, x, y, z] := by
  classical
  obtain ⟨a, b, hwx, hab, -⟩ := exists_pair cmp w x
  obtain ⟨c, d, hyz, hcd, -⟩ := exists_pair cmp y z
  refine .trans ?_ (hab.append hcd)
  rw [sortFour, hwx, hyz]
  dsimp only
  split_ifs
  pick_goal 4
  · exact enclose_perm ..
  all_goals
    refine (enclose_perm ..).trans (List.perm_iff_count.2 fun e ↦ ?_)
    simp only [List.cons_append, List.nil_append, List.count_cons]
    omega

theorem ascending_sortFour {w x y z : α} (horder : TotalPreorderOn cmp (· ∈ [w, x, y, z])) :
    Ascending cmp (sortFour cmp w x y z) := by
  obtain ⟨a, b, hwx, hab, hle⟩ := exists_pair cmp w x
  obtain ⟨c, d, hyz, hcd, hle'⟩ := exists_pair cmp y z
  replace hle := hle (horder.mono fun e he ↦ List.mem_append_left [y, z] he)
  replace hle' := hle' (horder.mono fun e he ↦ List.mem_append_right [w, x] he)
  have hsame : ∀ e, e ∈ [a, b, c, d] ↔ e ∈ [w, x, y, z] := fun e ↦ (hab.append hcd).mem_iff
  replace horder : TotalPreorderOn cmp (· ∈ [a, b, c, d]) := horder.mono fun e ↦ (hsame e).1
  rw [sortFour, hwx, hyz]
  dsimp only
  -- on the four elements the comparison is that of their ranks
  have hlt_iff : ∀ {p q : α}, p ∈ [a, b, c, d] → q ∈ [a, b, c, d] →
      (cmp p q = .lt ↔ rank cmp [a, b, c, d] p < rank cmp [a, b, c, d] q) := by
    intro p q hp hq
    rw [horder.cmp_eq_compare_rank hp hq, Nat.compare_eq_lt]
  have hle_iff : ∀ {p q : α}, p ∈ [a, b, c, d] → q ∈ [a, b, c, d] →
      ((cmp p q).isLE ↔ rank cmp [a, b, c, d] p ≤ rank cmp [a, b, c, d] q) := by
    intro p q hp hq
    rw [horder.cmp_eq_compare_rank hp hq, Nat.isLE_compare]
  generalize rank cmp [a, b, c, d] = k at hlt_iff hle_iff
  rw [hle_iff (by simp) (by simp)] at hle hle'
  split_ifs with hca hdb hdb
  all_goals
    rw [hlt_iff (by simp) (by simp)] at hca hdb
    refine ascending_enclose (horder.mono fun e he ↦ ?_) ?_ ?_
    · simp only [List.mem_cons] at he ⊢
      tauto
    · simp (disch := simp) only [List.forall_mem_cons, hle_iff]
      simp
      omega
    · rw [hle_iff (by simp) (by simp)]
      omega

variable (cmp) in
theorem sortHalf_perm (byFour : Bool) (xs : List α) : (sortHalf cmp byFour xs).Perm xs := by
  fun_cases sortHalf cmp byFour xs with
  | case1 w x y z rest =>
    have hfour := (List.reverse_perm _).trans (sortFour_perm cmp w x y z)
    exact (List.reverse_perm _).trans ((sortDown_perm cmp rest _).trans
      ((hfour.append_left rest).trans List.perm_append_comm))
  | case2 => exact sortBy_perm cmp _
  | case3 => exact sortBy_perm cmp _

theorem ascending_sortHalf (horder : TotalPreorderOn cmp s) (byFour : Bool) {xs : List α}
    (hxs : ∀ x ∈ xs, s x) : Ascending cmp (sortHalf cmp byFour xs) := by
  fun_cases sortHalf cmp byFour xs with
  | case1 w x y z rest =>
    have hfour : ∀ e ∈ [w, x, y, z], s e := fun e he ↦ hxs e (List.mem_append_left rest he)
    have hrest : ∀ e ∈ rest, s e := fun e he ↦ hxs e (List.mem_append_right [w, x, y, z] he)
    have hmem : ∀ e ∈ (sortFour cmp w x y z).reverse, s e := fun e he ↦
      hfour e ((sortFour_perm cmp w x y z).mem_iff.1 (List.mem_reverse.1 he))
    exact List.pairwise_reverse.2 (descending_sortDown horder hrest hmem
      (List.pairwise_reverse.2 (ascending_sortFour (horder.mono hfour))))
  | case2 => exact pairwise_sortBy horder hxs
  | case3 => exact pairwise_sortBy horder hxs

theorem yields_sortShort? {xs : List α} (hxs : ∀ x ∈ xs, s x) :
    Yields cmp s (sortShort? cmp xs) (Sorts cmp s xs) := by
  unfold sortShort?
  dsimp only
  split_ifs with hshort
  · exact .some ⟨.refl _, fun _ ↦ ascending_of_length_le_one (by omega)⟩
  · have hleft := sortHalf_perm cmp (8 ≤ xs.length) (xs.take (xs.length / 2))
    have hright := sortHalf_perm cmp (8 ≤ xs.length) (xs.drop (xs.length / 2))
    have hfront : ∀ x ∈ xs.take (xs.length / 2), s x := fun x hx ↦ hxs x (List.mem_of_mem_take hx)
    have hback : ∀ x ∈ xs.drop (xs.length / 2), s x := fun x hx ↦ hxs x (List.mem_of_mem_drop hx)
    have hhalves := hleft.append hright
    rw [List.take_append_drop] at hhalves
    refine (yields_mergeInward? (fun x hx ↦ hfront x (hleft.mem_iff.1 hx))
      (fun x hx ↦ hback x (hright.mem_iff.1 hx)) (ascending_sortHalf · _ hfront)
      (ascending_sortHalf · _ hback) ?_ ?_).imp fun ys hys ↦ ⟨hys.1.trans hhalves, hys.2⟩
    all_goals
      rw [hleft.length_eq, hright.length_eq, List.length_take, List.length_drop]
      omega

end ArtifactIndex.RunSort
