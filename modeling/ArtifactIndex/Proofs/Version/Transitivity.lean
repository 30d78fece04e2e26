import ArtifactIndex.Proofs.Order.Coherence
import ArtifactIndex.Proofs.Version.ReleaseOrder

/-!
# Where the version order is transitive

The order of versions is not transitive, and padding is why: a list that has ended is compared with
what another list goes on with by rules that do not fit the order of such entries among themselves.
So `7-alpha` comes before `7` and `7` before `7.x`, but `7.x` comes before `7-alpha`; and since a
sub list is compared with its absence by its first entry alone, `7-0.1` and `7-0.2` both tie with
`7` (`Version.cmp_not_transitive`).

As long as none of three lists has ended, their entries are compared by a total preorder. At the
place where one of them ends, all entries before it being equal, the other two must stand to each
other as padding between them says (`Components.PaddingAgrees`). That is all: the order is
transitive on some versions exactly when this holds for any three of them
(`Version.transitive_iff_concordant`). It does hold for release-style versions, with qualifiers and
without (`ReleaseLiteral.concordant`), so revisions in such versions are in order.
-/

set_option autoImplicit false
set_option relaxedAutoImplicit false

namespace ArtifactIndex

/-! ### Entries -/

theorem Qualifier.cmp_eq_compareLex :
    Qualifier.cmp = compareLex (compareOn Qualifier.rank) (compareOn Qualifier.tieBreak) :=
  rfl

instance : Std.TransCmp Qualifier.cmp :=
  Qualifier.cmp_eq_compareLex ▸ inferInstance

namespace Component

theorem cmpSublist_ne_eq (c : Component) : c.cmpSublist ≠ .eq := by
  cases c <;> simp [cmpSublist]

theorem coherent_cmp (c d e : Component) : Coherent (c.cmp d) (d.cmp e) (c.cmp e) := by
  cases c <;> cases d <;> cases e
  case number.number.number => exact .of_transCmp compare _ _ _
  case qualifier.qualifier.qualifier => exact .of_transCmp Qualifier.cmp _ _ _
  case number.number.qualifier => exact .of_alike (by simp [cmp])
  case qualifier.qualifier.number => exact .of_alike (by simp [cmp])
  all_goals simp [Coherent, cmp]

/-- Entries that are equal stand to a sub list alike. -/
theorem coherent_cmpSublist (c d : Component) :
    Coherent (c.cmp d) d.cmpSublist c.cmpSublist := by
  cases c <;> cases d
  case number.number => exact .of_alike (by simp [cmpSublist])
  case qualifier.qualifier => exact .of_alike (by simp [cmpSublist])
  all_goals simp [Coherent, cmp, cmpSublist]

end Component

namespace Components

variable {xs ys zs : Components}

theorem coherent_comm_left :
    Coherent (ys.cmp xs) (xs.cmp zs) (ys.cmp zs) ↔
      Coherent (xs.cmp ys) (ys.cmp zs) (xs.cmp zs) := by
  rw [← cmp_swap xs ys]
  exact Coherent.exchange_iff

theorem coherent_reverse :
    Coherent (zs.cmp ys) (ys.cmp xs) (zs.cmp xs) ↔
      Coherent (xs.cmp ys) (ys.cmp zs) (xs.cmp zs) := by
  rw [← cmp_swap xs ys, ← cmp_swap ys zs, ← cmp_swap xs zs]
  exact Coherent.reverse_iff

theorem coherent_comm_right :
    Coherent (xs.cmp zs) (zs.cmp ys) (xs.cmp ys) ↔
      Coherent (xs.cmp ys) (ys.cmp zs) (xs.cmp zs) := by
  rw [← coherent_reverse, coherent_comm_left, coherent_reverse]

/-! ### Lists -/

/-- Two lists stand to each other as padding between them says. -/
def PaddingAgrees (xs ys : Components) : Prop :=
  Coherent xs.cmpEnd ys.cmpEnd.swap (xs.cmp ys)

theorem paddingAgrees_iff :
    PaddingAgrees xs ys ↔ Coherent (xs.cmp done) (done.cmp ys) (xs.cmp ys) := by
  rw [cmp_done, cmp, PaddingAgrees]

/-- Where one of the lists ends and all entries before that are equal, padding agrees with the order
of the other two. -/
def Concordant : Components → Components → Components → Prop
  | done, ys, zs => ys.PaddingAgrees zs
  | xs, done, zs => xs.PaddingAgrees zs
  | xs, ys, done => xs.PaddingAgrees ys
  | item c xs, item d ys, item e zs => c.cmp d = .eq → d.cmp e = .eq → Concordant xs ys zs
  | sublist xs, sublist ys, sublist zs => Concordant xs ys zs
  | _, _, _ => True

/-- Two lists that go on with an entry and one that goes on with a sub list. -/
theorem coherent_item_item_sublist (c d : Component) :
    Coherent ((item c xs).cmp (item d ys)) ((item d ys).cmp (sublist zs))
      ((item c xs).cmp (sublist zs)) := by
  have hthen : Coherent ((c.cmp d).then (xs.cmp ys)) (d.cmpSublist.then .eq)
      (c.cmpSublist.then .eq) :=
    (Component.coherent_cmpSublist c d).then_iff.2 fun _ heq ↦ absurd heq d.cmpSublist_ne_eq
  rw [Ordering.then_eq, Ordering.then_eq] at hthen
  exact hthen

theorem coherent_sublist_sublist_item (c : Component) :
    Coherent ((sublist xs).cmp (sublist ys)) ((sublist ys).cmp (item c zs))
      ((sublist xs).cmp (item c zs)) :=
  .of_alike fun heq ↦ c.cmpSublist_ne_eq (Ordering.swap_eq_eq.1 heq)

/-- The three comparisons of lists are coherent as far as padding is concordant with them. -/
theorem coherent_cmp_iff (xs ys zs : Components) :
    Coherent (xs.cmp ys) (ys.cmp zs) (xs.cmp zs) ↔ Concordant xs ys zs := by
  fun_induction Concordant xs ys zs with
  | case1 ys zs => rw [paddingAgrees_iff, coherent_comm_left]
  | case2 xs zs => exact paddingAgrees_iff.symm
  | case3 xs ys => rw [paddingAgrees_iff, coherent_comm_right]
  | case4 c xs d ys e zs ih =>
    rw [← ih]
    exact (Component.coherent_cmp c d e).then_iff
  | case5 xs ys zs ih => exact ih
  | case6 xs ys zs hys hzs hxs hitems hsublists =>
    -- the lists go on, some with an entry and some with a sub list
    refine iff_of_true ?_ trivial
    cases xs <;> cases ys <;> cases zs <;>
      simp only [reduceCtorEq, imp_false, not_true_eq_false] at hxs hys hzs
    case item.item.item => exact (hitems _ _ _ _ _ _ rfl rfl rfl).elim
    case item.item.sublist => exact coherent_item_item_sublist _ _
    case item.sublist.item => exact coherent_comm_right.1 (coherent_item_item_sublist _ _)
    case item.sublist.sublist => exact coherent_reverse.1 (coherent_sublist_sublist_item _)
    case sublist.item.item => exact coherent_reverse.1 (coherent_item_item_sublist _ _)
    case sublist.item.sublist => exact coherent_comm_right.1 (coherent_sublist_sublist_item _)
    case sublist.sublist.item => exact coherent_sublist_sublist_item _
    case sublist.sublist.sublist => exact (hsublists _ _ _ rfl rfl rfl).elim

end Components

namespace Version

/-- Padding stands in no way of the order of three versions. -/
def Concordant (a b c : Version) : Prop :=
  Components.Concordant a.components b.components c.components

theorem coherent_cmp_iff {a b c : Version} :
    Coherent (a.cmp b) (b.cmp c) (a.cmp c) ↔ Concordant a b c :=
  Components.coherent_cmp_iff a.components b.components c.components

/-- A set of versions is in order if padding is concordant with it throughout. -/
theorem totalPreorderOn_of_concordant {s : Version → Prop}
    (h : ∀ a b c, s a → s b → s c → Concordant a b c) : TotalPreorderOn cmp s :=
  .of_coherent (fun a b _ _ ↦ cmp_swap a b) fun a b c ha hb hc ↦
    coherent_cmp_iff.2 (h a b c ha hb hc)

/-- On the versions of `s` the order is transitive, and equal ones compare alike, exactly when
padding is concordant with it on any three of them. -/
theorem transitive_iff_concordant (s : Version → Prop) :
    (∀ a b c, s a → s b → s c →
      ((a.cmp b).isLE → (b.cmp c).isLE → (a.cmp c).isLE) ∧
        (a.cmp b = .eq → a.cmp c = b.cmp c)) ↔
      ∀ a b c, s a → s b → s c → Concordant a b c := by
  constructor
  · intro h a b c ha hb hc
    have hpreorder : TotalPreorderOn cmp s :=
      ⟨fun a b _ _ ↦ cmp_swap a b, fun a b c ha hb hc ↦ (h a b c ha hb hc).1⟩
    exact coherent_cmp_iff.1 (hpreorder.coherent ha hb hc)
  · intro h a b c ha hb hc
    have hcoherent := coherent_cmp_iff.2 (h a b c ha hb hc)
    exact ⟨hcoherent.isLE_trans, hcoherent.eq_of_eq⟩

/-- A cycle of three, and two versions that tie with a third and not with each other. -/
theorem cmp_not_transitive :
    let plain : Version := ⟨"7", by decide +kernel⟩
    let alpha : Version := ⟨"7-alpha", by decide +kernel⟩
    let named : Version := ⟨"7.x", by decide +kernel⟩
    let lower : Version := ⟨"7-0.1", by decide +kernel⟩
    let upper : Version := ⟨"7-0.2", by decide +kernel⟩
    (alpha.cmp plain = .lt ∧ plain.cmp named = .lt ∧ alpha.cmp named = .gt) ∧
      lower.cmp plain = .eq ∧ plain.cmp upper = .eq ∧ lower.cmp upper = .lt := by
  decide +kernel

end Version

/-- Padding is concordant with release-style versions, however many numbers they have and whatever
their qualifiers. -/
theorem ReleaseLiteral.concordant (s t u : ReleaseLiteral) :
    Version.Concordant s.version t.version u.version := by
  rw [← Version.coherent_cmp_iff, cmp_version, cmp_version, cmp_version]
  exact .of_transCmp Precedence.cmp _ _ _

end ArtifactIndex
