import ArtifactIndex.Range.Reader
/-!
The version a dependency asks for: one exact version, or any version of a range.
-/

set_option autoImplicit false

namespace ArtifactIndex

inductive Constraint where
  | exact (version : Version)
  | range (range : Range)
  deriving DecidableEq

namespace Constraint

inductive Error where
  | version (e : Version.Error)
  | range (e : Range.Error)
  deriving DecidableEq, Repr

def parse (s : String) : Except Error Constraint :=
  if Range.isRangeText s then ((Range.parse s).map .range).mapError .range
  else ((Version.parse s).map .exact).mapError .version

def isRange : Constraint → Bool
  | exact _ => false
  | range _ => true

def contains : Constraint → Version → Bool
  | exact v, w => v.cmp w == .eq
  | range r, w => r.contains w

def text : Constraint → String
  | exact v => v.literal
  | range r => r.text

end Constraint
end ArtifactIndex
