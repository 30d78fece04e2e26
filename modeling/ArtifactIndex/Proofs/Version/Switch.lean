import Mathlib.Data.List.DropRight
import ArtifactIndex.Proofs.Version.Reading
import ArtifactIndex.Proofs.Version.Scan

/-!
# A switch between digits and letters is a hyphen

Where a number and letters meet in a version, a list is opened just as a hyphen opens one. So a
hyphen may be written between them: `1.0rc2`, `1.0-rc2` and `1.0rc-2` have the same components.
There is one exception. A lone `a`, `b` or `m` is short for a longer name where a number follows it
directly, and loses that meaning behind the hyphen: `1.0b-2` is not `1.0b2`.
`Version.hyphen_at_switch` says that this exception is the only one and that there the components
always differ.

The scanner is in the same state behind the switch as behind the hyphen, and what the first part
has finished is put in front of the same components (`scan_digits_hyphen`, `scan_letters_hyphen`).
In the case of the exception two qualifiers differ, neither of them null, so that no normalization
of the lists around them can hide the difference (`Components.Apart`). Lower-casing comes before
scanning; it can be cut at the digit of the switch and at the hyphen, so it does not see the one or
the other (`Text.lowerChars_append_cons`).
-/

set_option autoImplicit false
set_option relaxedAutoImplicit false

namespace ArtifactIndex

open Text (isLetter)

/-! ### Short names -/

namespace Qualifier

/-- The texts that are short for a name directly before a digit. -/
def shorthands : List String := ["a", "b", "m"]

theorem ofText_eq_of_not_mem {text : String} (h : text ∉ shorthands) :
    ofText text false = ofText text true := by
  obtain ⟨ha, hb, hm⟩ : text ≠ "a" ∧ text ≠ "b" ∧ text ≠ "m" := by
    simpa [shorthands] using h
  unfold ofText
  split <;> simp_all

theorem ofText_ne_of_mem {text : String} (h : text ∈ shorthands) :
    ofText text false ≠ ofText text true := by
  have hall : ∀ text ∈ shorthands, ofText text false ≠ ofText text true := by
    decide
  exact hall text h

theorem rank_ofText_of_mem {text : String} (h : text ∈ shorthands) (beforeDigit : Bool) :
    (ofText text beforeDigit).rank ≠ release.rank := by
  have hall : ∀ text ∈ shorthands, ∀ beforeDigit : Bool,
      (ofText text beforeDigit).rank ≠ release.rank := by
    decide
  exact hall text h beforeDigit

end Qualifier

namespace Components

/-! ### Behind the switch -/

/-- A number that letters follow. -/
theorem scan_digits_hyphen (n : ℕ) {d : Char} (hd : isLetter d) (back : List Char) :
    scan (.digits n) ('-' :: d :: back) = scan (.digits n) (d :: back) := by
  obtain ⟨hdigit, hstop, hhyphen⟩ := Text.isLetter_iff.1 hd
  rw [scan_hyphen, scan, scan, if_neg hstop, if_neg hhyphen, if_neg hdigit, if_neg hstop,
    if_neg hhyphen, if_neg hdigit]
  rfl

/-- Letters that a hyphen follows. -/
theorem scan_letters_hyphen (reversed back : List Char) :
    scan (.letters reversed) ('-' :: back) =
      item (.qualifier (.ofText (String.ofList reversed.reverse) false))
        (sublist (scan .none back)) :=
  scan_hyphen _ _

/-! ### Differences that stay -/

/-- The normal forms differ, and neither is empty or looks empty from in front when the other does
not; so they differ behind any components and inside any list. -/
structure Apart (xs ys : Components) : Prop where
  ne : xs.normalize ≠ ys.normalize
  left_ne_done : xs.normalize ≠ done
  right_ne_done : ys.normalize ≠ done
  startsClosed_eq : xs.normalize.startsClosed = ys.normalize.startsClosed

theorem normalize_sublist_of_ne_done {xs : Components} (h : xs.normalize ≠ done) :
    (sublist xs).normalize = sublist xs.normalize := by
  rw [normalize]
  split
  · next hdone => exact absurd hdone h
  · rfl

theorem Apart.sublist {xs ys : Components} (h : Apart xs ys) : Apart (sublist xs) (sublist ys) := by
  have hxs := normalize_sublist_of_ne_done h.left_ne_done
  have hys := normalize_sublist_of_ne_done h.right_ne_done
  constructor
  · rw [hxs, hys]
    exact fun heq ↦ h.ne (Components.sublist.inj heq)
  · rw [hxs]
    exact Components.noConfusion
  · rw [hys]
    exact Components.noConfusion
  · rw [hxs, hys]
    rfl

theorem Apart.item (c : Component) {xs ys : Components} (h : Apart xs ys) :
    Apart (item c xs) (item c ys) := by
  have hform : ∀ zs : Components, zs.normalize.startsClosed = ys.normalize.startsClosed →
      (Components.item c zs).normalize =
        if c.isNull && ys.normalize.startsClosed then zs.normalize
        else .item c zs.normalize := by
    intro zs hzs
    rw [normalize, hzs]
  have hxs := hform xs h.startsClosed_eq
  have hys := hform ys rfl
  by_cases hdropped : c.isNull && ys.normalize.startsClosed
  · -- the component is dropped in front of both
    rw [if_pos hdropped] at hxs hys
    exact ⟨by rw [hxs, hys]; exact h.ne, hxs ▸ h.left_ne_done, hys ▸ h.right_ne_done,
      by rw [hxs, hys]; exact h.startsClosed_eq⟩
  · rw [if_neg hdropped] at hxs hys
    constructor
    · rw [hxs, hys]
      exact fun heq ↦ h.ne (Components.item.inj heq).2
    · rw [hxs]
      exact Components.noConfusion
    · rw [hys]
      exact Components.noConfusion
    · rw [hxs, hys]
      rfl

theorem apart_qualifiers {p q : Qualifier} (hne : p ≠ q) (hp : p.rank ≠ Qualifier.release.rank)
    (hq : q.rank ≠ Qualifier.release.rank) (rest : Components) :
    Apart (.item (.qualifier p) rest) (.item (.qualifier q) rest) := by
  have hform : ∀ r : Qualifier, r.rank ≠ Qualifier.release.rank →
      (Components.item (.qualifier r) rest).normalize = .item (.qualifier r) rest.normalize := by
    intro r hr
    simp [normalize, isNull_qualifier, hr]
  constructor
  · rw [hform p hp, hform q hq]
    exact fun heq ↦ hne (Component.qualifier.inj (Components.item.inj heq).1)
  · rw [hform p hp]
    exact Components.noConfusion
  · rw [hform q hq]
    exact Components.noConfusion
  · rw [hform p hp, hform q hq]
    rfl

/-! ### Texts with a hyphen at the switch -/

theorem ofChars_hyphen_of_isDigit {c d : Char} (hc : c.isDigit) (hd : isLetter d)
    (front back : List Char) :
    ofChars (front ++ [c] ++ '-' :: d :: back) = ofChars (front ++ [c] ++ d :: back) := by
  obtain ⟨n, hn⟩ := after_concat_isDigit .none front hc
  refine congrArg normalize (scan_append_congr (R := Eq) (fun d _ _ h ↦ congrArg (item d) h)
    (fun h ↦ congrArg sublist h) _ _ ?_)
  rw [hn, scan_digits_hyphen n hd]

theorem ofChars_hyphen_iff {front letters : List Char} {d : Char}
    (hfront : ∀ c ∈ front.getLast?, ¬ isLetter c) (hne : letters ≠ [])
    (hletters : ∀ c ∈ letters, isLetter c) (hd : d.isDigit) (back : List Char) :
    ofChars (front ++ letters ++ '-' :: d :: back) = ofChars (front ++ letters ++ d :: back) ↔
      String.ofList letters ∉ Qualifier.shorthands := by
  have hrun := after_letterRun hfront hne hletters
  have hhyphen := scan_letters_hyphen letters.reverse (d :: back)
  have hdirect := scan_letters_isDigit letters.reverse hd back
  rw [List.reverse_reverse] at hhyphen hdirect
  constructor
  · intro heq hshort
    have hqualifiers : Qualifier.ofText (String.ofList letters) false ≠
        Qualifier.ofText (String.ofList letters) true := Qualifier.ofText_ne_of_mem hshort
    have hapart : Apart (scan .none (front ++ letters ++ '-' :: d :: back))
        (scan .none (front ++ letters ++ d :: back)) := by
      refine scan_append_congr (R := Apart) (fun d _ _ h ↦ h.item d) (fun h ↦ h.sublist) _ _ ?_
      rw [hrun, hhyphen, hdirect]
      exact apart_qualifiers hqualifiers (Qualifier.rank_ofText_of_mem hshort _)
        (Qualifier.rank_ofText_of_mem hshort _) _
    exact hapart.ne heq
  · intro hlong
    refine congrArg normalize (scan_append_congr (R := Eq) (fun d _ _ h ↦ congrArg (item d) h)
      (fun h ↦ congrArg sublist h) _ _ ?_)
    rw [hrun, hhyphen, hdirect, Qualifier.ofText_eq_of_not_mem hlong]

end Components

/-! ### Lower-casing around the switch -/

namespace Text

/-- The run of letters at the end of a text. -/
def lastLetters (cs : List Char) : List Char :=
  cs.rtakeWhile isLetter

theorem lowerChars_append_isDigit {c : Char} (hc : c.isDigit) (xs ys : List Char) :
    lowerChars (xs ++ c :: ys) = lowerChars xs ++ c :: lowerChars ys := by
  have hself := (lowerChar_of_not_isLetter fun h ↦ (isLetter_iff.1 h).1 hc).2
  rw [lowerChars_append_cons (isNeutral_of_isDigit hc), hself]
  rfl

theorem lowerChars_append_hyphen (xs ys : List Char) :
    lowerChars (xs ++ '-' :: ys) = lowerChars xs ++ '-' :: lowerChars ys := by
  rw [lowerChars_append_cons isNeutral_hyphen, lowerChar_hyphen]
  rfl

/-- The last letters of a text become the last letters of the text in lower case. -/
theorem exists_lowerChars_lastLetters (cs : List Char) :
    ∃ low before, (∀ c ∈ low.getLast?, ¬ isLetter c) ∧
      lowerChars cs = low ++ lowerAfter before (lastLetters cs) := by
  have hsplit : cs.rdropWhile isLetter ++ lastLetters cs = cs := List.rdropWhile_append_rtakeWhile
  rcases List.eq_nil_or_concat' (cs.rdropWhile isLetter) with hnil | ⟨front, c, hfront⟩
  · rw [hnil, List.nil_append] at hsplit
    exact ⟨[], [], by simp, by rw [hsplit]; rfl⟩
  · have hc : ¬ isLetter c := by
      have hlast := List.rdropWhile_last_not isLetter cs (by simp [hfront])
      simpa [hfront] using hlast
    obtain ⟨low, hlow⟩ := exists_lowerAfter_append [] front (c :: lastLetters cs)
    obtain ⟨hsigma, hself⟩ := lowerChar_of_not_isLetter hc
    refine ⟨low ++ [c], c :: (front.reverse ++ []), by simpa using hc, ?_⟩
    calc lowerChars cs
      _ = lowerAfter [] (front ++ c :: lastLetters cs) := by
        rw [List.append_cons, ← hfront, hsplit]
        rfl
      _ = low ++ lowerAfter (front.reverse ++ []) (c :: lastLetters cs) := hlow
      _ = low ++ [c] ++ lowerAfter (c :: (front.reverse ++ [])) (lastLetters cs) := by
        rw [lowerAfter, if_neg hsigma, hself, List.append_assoc]

/-- Whether letters are a shorthand does not depend on what stands in front of them. -/
theorem ofList_lowerAfter_mem_shorthands_iff (before cs : List Char) :
    String.ofList (lowerAfter before cs) ∈ Qualifier.shorthands ↔
      String.ofList (lowerChars cs) ∈ Qualifier.shorthands := by
  have hsame : ∀ name ∈ Qualifier.shorthands,
      String.ofList (lowerAfter before cs) = name ↔ String.ofList (lowerChars cs) = name := by
    intro name hname
    obtain ⟨x, hx, rfl⟩ : ∃ x, (x ≠ 'ς' ∧ x ≠ 'σ') ∧ String.ofList [x] = name := by
      simp only [Qualifier.shorthands, List.mem_cons, List.not_mem_nil, or_false] at hname
      rcases hname with rfl | rfl | rfl
      · exact ⟨'a', by decide, rfl⟩
      · exact ⟨'b', by decide, rfl⟩
      · exact ⟨'m', by decide, rfl⟩
    rw [String.ofList_inj, String.ofList_inj, lowerChars, lowerAfter_eq_singleton_iff hx,
      lowerAfter_eq_singleton_iff hx]
  constructor
  · exact fun h ↦ (hsame _ h).1 rfl ▸ h
  · exact fun h ↦ (hsame _ h).2 rfl ▸ h

end Text

/-! ### Versions with a hyphen at a switch -/

namespace Version

open Text (lastLetters lowerChars)

/-- The version with a hyphen written between two parts of its literal. -/
def withHyphen (v : Version) {front back : List Char} (h : v.literal.toList = front ++ back) :
    Version where
  literal := String.ofList (front ++ '-' :: back)
  legal := by
    have hadmits := (isLegal_iff.1 v.legal).2
    have hhyphen : admits '-' := by
      decide +kernel
    rw [h, List.forall_mem_append] at hadmits
    rw [isLegal_iff, String.toList_ofList]
    exact ⟨by simp, List.forall_mem_append.2
      ⟨hadmits.1, List.forall_mem_cons.2 ⟨hhyphen, hadmits.2⟩⟩⟩

theorem components_eq_ofChars {v : Version} {cs : List Char} (h : v.literal.toList = cs) :
    v.components = .ofChars (lowerChars cs) := by
  rw [components, h]

theorem components_withHyphen (v : Version) {front back : List Char}
    (h : v.literal.toList = front ++ back) :
    (v.withHyphen h).components = .ofChars (lowerChars front ++ '-' :: lowerChars back) := by
  have hliteral : (v.withHyphen h).literal.toList = front ++ '-' :: back := String.toList_ofList
  rw [components_eq_ofChars hliteral, Text.lowerChars_append_hyphen]

variable {front back : List Char} {c d : Char}

/-- Letters behind a digit. -/
theorem components_withHyphen_of_isDigit (v : Version) (hc : c.isDigit) (hd : isLetter d)
    (h : v.literal.toList = (front ++ [c]) ++ d :: back) :
    (v.withHyphen h).components = v.components := by
  obtain ⟨low, hne, hletters, hlow⟩ := Text.lowerAfter_cons_of_isLetter hd [] back
  obtain ⟨x, low, rfl⟩ := List.exists_cons_of_ne_nil hne
  have hback : lowerChars (d :: back) = x :: (low ++ Text.lowerAfter [d] back) := hlow
  have hfront : lowerChars (front ++ [c]) = lowerChars front ++ [c] :=
    Text.lowerChars_append_isDigit hc front []
  have hwhole : lowerChars (front ++ [c] ++ d :: back) =
      lowerChars front ++ [c] ++ lowerChars (d :: back) := by
    rw [List.append_assoc, List.append_assoc]
    exact Text.lowerChars_append_isDigit hc front (d :: back)
  rw [components_withHyphen, components_eq_ofChars h, hwhole, hfront, hback]
  exact Components.ofChars_hyphen_of_isDigit hc (hletters x List.mem_cons_self) _ _

/-- A digit behind letters. -/
theorem components_withHyphen_iff (v : Version) (hc : isLetter c) (hd : d.isDigit)
    (h : v.literal.toList = (front ++ [c]) ++ d :: back) :
    (v.withHyphen h).components = v.components ↔
      String.ofList (lowerChars (lastLetters (front ++ [c]))) ∉ Qualifier.shorthands := by
  have hrun : lastLetters (front ++ [c]) ≠ [] := by
    rw [lastLetters, List.rtakeWhile_concat_pos _ _ _ hc]
    simp
  have hletters : ∀ x ∈ lastLetters (front ++ [c]), isLetter x :=
    fun x hx ↦ List.mem_rtakeWhile_imp hx
  obtain ⟨low, before, hlow, hfront⟩ := Text.exists_lowerChars_lastLetters (front ++ [c])
  have hback : lowerChars (d :: back) = d :: lowerChars back :=
    Text.lowerChars_append_isDigit hd [] back
  rw [components_withHyphen, components_eq_ofChars h, Text.lowerChars_append_isDigit hd, hback,
    hfront, ← Text.ofList_lowerAfter_mem_shorthands_iff before]
  exact Components.ofChars_hyphen_iff hlow (Text.lowerAfter_ne_nil hrun)
    (Text.isLetter_of_mem_lowerAfter hletters) hd _

/-- In a version that was read, a hyphen may be written wherever a digit and a letter meet: the text
is read as a version with the same components, except where the letters in front of a digit are a
shorthand; there the components differ. -/
theorem hyphen_at_switch {s : String} {v : Version} (htrim : Text.trim s = s)
    (hparse : parse s = .ok v) (hs : s.toList = front ++ c :: d :: back)
    (hswitch : c.isDigit ∧ isLetter d ∨ isLetter c ∧ d.isDigit) :
    ∃ w, parse (String.ofList (front ++ c :: '-' :: d :: back)) = .ok w ∧
      w.literal = String.ofList (front ++ c :: '-' :: d :: back) ∧
      (w.components = v.components ↔ ¬ (d.isDigit ∧
        String.ofList (lowerChars (lastLetters (front ++ [c]))) ∈ Qualifier.shorthands)) := by
  have hliteral : v.literal.toList = (front ++ [c]) ++ d :: back := by
    rw [literal_of_parse hparse, htrim, hs, List.append_cons]
  have hhyphen : (v.withHyphen hliteral).literal =
      String.ofList (front ++ c :: '-' :: d :: back) :=
    congrArg String.ofList (List.append_cons front c ('-' :: d :: back)).symm
  refine ⟨v.withHyphen hliteral, hhyphen ▸ parse_literal _, hhyphen, ?_⟩
  rcases hswitch with ⟨hc, hd⟩ | ⟨hc, hd⟩
  · have hnot : ¬ d.isDigit := (Text.isLetter_iff.1 hd).1
    exact iff_of_true (v.components_withHyphen_of_isDigit hc hd hliteral) fun h ↦ hnot h.1
  · rw [v.components_withHyphen_iff hc hd hliteral]
    simp only [hd, true_and]

/-- Three switches of one version: letters behind a digit, a digit behind letters, and a digit
behind a shorthand. The capital sigma is lower-cased by what stands around it. -/
theorem hyphen_at_switch_shorthand :
    let v : Version := ⟨"1ΑΣ2.B3", by decide +kernel⟩
    Text.trim "1ΑΣ2.B3" = "1ΑΣ2.B3" ∧ parse "1ΑΣ2.B3" = .ok v ∧
      (∃ w, parse "1-ΑΣ2.B3" = .ok w ∧ w.components = v.components) ∧
      (∃ w, parse "1ΑΣ-2.B3" = .ok w ∧ w.components = v.components) ∧
      ∃ w, parse "1ΑΣ2.B-3" = .ok w ∧ w.components ≠ v.components := by
  intro v
  have htrim : Text.trim "1ΑΣ2.B3" = "1ΑΣ2.B3" := by
    decide +kernel
  have hparse : parse "1ΑΣ2.B3" = .ok v := v.parse_literal
  have hletters : "1ΑΣ2.B3".toList = [] ++ '1' :: 'Α' :: ['Σ', '2', '.', 'B', '3'] := by
    decide +kernel
  have hdigit : "1ΑΣ2.B3".toList = ['1', 'Α'] ++ 'Σ' :: '2' :: ['.', 'B', '3'] := by
    decide +kernel
  have hshort : "1ΑΣ2.B3".toList = ['1', 'Α', 'Σ', '2', '.'] ++ 'B' :: '3' :: [] := by
    decide +kernel
  obtain ⟨w, hw, -, hsame⟩ := hyphen_at_switch htrim hparse hletters (by decide +kernel)
  obtain ⟨w', hw', -, hsame'⟩ := hyphen_at_switch htrim hparse hdigit (by decide +kernel)
  obtain ⟨w'', hw'', -, hdiffer⟩ := hyphen_at_switch htrim hparse hshort (by decide +kernel)
  exact ⟨htrim, hparse, ⟨w, hw, hsame.2 (by decide +kernel)⟩,
    ⟨w', hw', hsame'.2 (by decide +kernel)⟩,
    ⟨w'', hw'', fun heq ↦ hdiffer.1 heq (by decide +kernel)⟩⟩

end Version
end ArtifactIndex
