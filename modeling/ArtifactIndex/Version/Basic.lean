import ArtifactIndex.Text.Blank
import ArtifactIndex.Text.Case
import ArtifactIndex.Version.Components
/-!
Versions. A version is its literal: equality is equality of literals, and the components are read
from the literal whenever two versions are compared. `Version.cmp` is the component order, in which
`1` and `1.0` are equal; `compare` breaks such ties by the literal.
-/

set_option autoImplicit false

namespace ArtifactIndex

namespace Version

/-- Blanks and the punctuation of ranges are not allowed in a version. -/
def admits (c : Char) : Bool :=
  !Text.isBlank c && c != '[' && c != ']' && c != '(' && c != ')' && c != ','

def isLegal (literal : String) : Bool :=
  !literal.toList.isEmpty && literal.toList.all admits

theorem isLegal_iff {literal : String} :
    isLegal literal ↔ literal.toList ≠ [] ∧ ∀ c ∈ literal.toList, admits c := by
  simp [isLegal]

end Version

structure Version where
  literal : String
  legal : Version.isLegal literal
  deriving DecidableEq

namespace Version

instance : ToString Version := ⟨literal⟩

@[ext]
theorem ext {v w : Version} (h : v.literal = w.literal) : v = w := by
  cases v; cases w; simp_all

/-! ### Reading -/

/-- Why a text is not a version. -/
inductive Fault where
  | empty
  | unexpected (c : Char)
  deriving DecidableEq, Repr

namespace Fault

def message : Fault → String
  | empty => "empty version"
  | unexpected c => s!"unexpected character '{c}'"

end Fault

structure Error where
  text : String
  fault : Fault
  deriving DecidableEq, Repr

namespace Error

def message (e : Error) : String :=
  s!"Invalid version '{e.text}': {e.fault.message}"

end Error

/-- What is wrong with a trimmed text: it is empty, or it holds a character no version admits. -/
def fault (literal : String) : Fault :=
  match literal.toList.find? fun c ↦ !admits c with
  | some c => .unexpected c
  | none => .empty

def parse (text : String) : Except Error Version :=
  let literal := Text.trim text
  if legal : isLegal literal then .ok ⟨literal, legal⟩ else .error ⟨literal, fault literal⟩

/-- The lowest version, where complements of ranges start. -/
def zero : Version :=
  ⟨"0", by decide +kernel⟩

/-! ### Order -/

def components (v : Version) : Components :=
  .ofChars (Text.lowerChars v.literal.toList)

/-- The component order, without regard to spelling. -/
def cmp (v w : Version) : Ordering :=
  v.components.cmp w.components

theorem cmp_swap (v w : Version) : (v.cmp w).swap = w.cmp v :=
  Components.cmp_swap _ _

theorem cmp_self (v : Version) : v.cmp v = .eq := by
  have hswap : (v.cmp v).swap = v.cmp v := cmp_swap v v
  cases hcmp : v.cmp v <;> simp [hcmp] at hswap ⊢

instance : Ord Version :=
  ⟨fun v w ↦ (v.cmp w).then (compare v.literal w.literal)⟩

/-- A snapshot is a version in progress; its literal ends in `SNAPSHOT` in any ASCII case. -/
def isSnapshot (v : Version) : Bool :=
  "SNAPSHOT".toList.isSuffixOf (Text.upperAscii v.literal.toList)

end Version
end ArtifactIndex
