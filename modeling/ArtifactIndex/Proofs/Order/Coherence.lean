import ArtifactIndex.Proofs.Order.Rank

/-!
# Three comparisons at a time

A comparison that can be turned around is a total preorder as soon as it is one on any three
elements, and there it is a matter of three answers: those for `a` and `b`, for `b` and `c`, and for
`a` and `c`. They are `Coherent` when the first two, unless they point in opposite directions, give
the third.

Coherence is kept when one comparison decides first and another one where it does not
(`Coherent.then_iff`), so the order of a pair, of a list or of a key is dealt with part by part.
-/

set_option autoImplicit false
set_option relaxedAutoImplicit false

namespace ArtifactIndex

/-- The answers for `a` and `b`, `b` and `c`, and `a` and `c` are those of three places in an
order. -/
def Coherent (ab bc ac : Ordering) : Prop :=
  ac = ab.then bc ∨ ab ≠ .eq ∧ bc = ab.swap

instance (ab bc ac : Ordering) : Decidable (Coherent ab bc ac) :=
  inferInstanceAs (Decidable (_ ∨ _))

namespace Coherent

variable {ab bc ac ab' bc' ac' : Ordering}

/-- The same three elements with the first two exchanged. -/
theorem exchange_iff : Coherent ab.swap ac bc ↔ Coherent ab bc ac := by
  unfold Coherent
  cases ab <;> cases bc <;> cases ac <;> simp

/-- The same three elements the other way round. -/
theorem reverse_iff : Coherent bc.swap ab.swap ac.swap ↔ Coherent ab bc ac := by
  unfold Coherent
  cases ab <;> cases bc <;> cases ac <;> simp

/-- Where the first answers are coherent, the second ones matter only if the first decide
nothing. -/
theorem then_iff (h : Coherent ab bc ac) :
    Coherent (ab.then ab') (bc.then bc') (ac.then ac') ↔
      (ab = .eq → bc = .eq → Coherent ab' bc' ac') := by
  revert h
  unfold Coherent
  cases ab <;> cases bc <;> cases ac <;> cases ab' <;> simp

/-- Two elements that stand to the third alike may stand to each other as they please. -/
theorem of_alike (h : bc ≠ .eq) : Coherent ab bc bc := by
  unfold Coherent
  cases ab <;> cases bc <;> simp_all

theorem isLE_trans (h : Coherent ab bc ac) (hab : ab.isLE) (hbc : bc.isLE) : ac.isLE := by
  revert h hab hbc
  unfold Coherent
  cases ab <;> cases bc <;> cases ac <;> simp

/-- What is equal compares alike with everything else. -/
theorem eq_of_eq (h : Coherent ab bc ac) (hab : ab = .eq) : ac = bc := by
  subst hab
  simpa [Coherent] using h

end Coherent

variable {α : Type} {cmp : α → α → Ordering}

namespace TotalPreorderOn

variable {s : α → Prop} {a b c : α}

theorem of_transCmp [Std.TransCmp cmp] : TotalPreorderOn cmp s where
  swap _ _ _ _ := Std.OrientedCmp.eq_swap.symm
  trans _ _ _ _ _ _ := Std.TransCmp.isLE_trans

theorem of_coherent (hswap : ∀ a b, s a → s b → (cmp a b).swap = cmp b a)
    (h : ∀ a b c, s a → s b → s c → Coherent (cmp a b) (cmp b c) (cmp a c)) :
    TotalPreorderOn cmp s :=
  ⟨hswap, fun a b c ha hb hc ↦ (h a b c ha hb hc).isLE_trans⟩

theorem coherent (h : TotalPreorderOn cmp s) (ha : s a) (hb : s b) (hc : s c) :
    Coherent (cmp a b) (cmp b c) (cmp a c) := by
  have habc := h.trans a b c ha hb hc
  have hbca := h.trans b c a hb hc ha
  have hcab := h.trans c a b hc ha hb
  have hcba := h.trans c b a hc hb ha
  have hbac := h.trans b a c hb ha hc
  have hacb := h.trans a c b ha hc hb
  rw [← h.swap a b ha hb, ← h.swap b c hb hc, ← h.swap a c ha hc] at *
  revert habc hbca hcab hcba hbac hacb
  unfold Coherent
  cases cmp a b <;> cases cmp b c <;> cases cmp a c <;> simp

end TotalPreorderOn

theorem Coherent.of_transCmp (cmp : α → α → Ordering) [Std.TransCmp cmp] (a b c : α) :
    Coherent (cmp a b) (cmp b c) (cmp a c) :=
  TotalPreorderOn.of_transCmp.coherent (s := fun _ ↦ True) trivial trivial trivial

end ArtifactIndex
