import ArtifactIndex.Text.Utf8
/-!
JSON documents as they are written. Numbers keep their digits and strings keep their bytes, because
a part of a document that nobody uses may hold a number beyond every range or a string that is no
text. Members of an object stand in order, repeated names included.
-/

set_option autoImplicit false

namespace ArtifactIndex

open Text (Bytes)

namespace Json

/-- A number in decimal digits. The exponent is a sign, true when negative, and its digits. -/
structure Numeral where
  negative : Bool
  whole : List Nat
  fraction : List Nat
  exponent : Option (Bool × List Nat)
  deriving DecidableEq, Repr

namespace Numeral

def digitsOf (n : Nat) : List Nat :=
  (Nat.toDigits 10 n).map fun c ↦ c.toNat - 48

def ofNat (n : Nat) : Numeral :=
  ⟨false, digitsOf n, [], none⟩

def ofInt (n : Int) : Numeral :=
  ⟨n < 0, digitsOf n.natAbs, [], none⟩

def value (digits : List Nat) : Nat :=
  digits.foldl (fun n d ↦ 10 * n + d) 0

def isInteger (n : Numeral) : Bool :=
  n.fraction.isEmpty && n.exponent.isNone

/-- The integer written without fraction and exponent; `-0` is none. -/
def int? (n : Numeral) : Option Int :=
  if n.isInteger then
    let v := value n.whole
    if n.negative then (if v = 0 then none else some (-v)) else some v
  else
    none

end Numeral

end Json

inductive Json where
  | null
  | bool (b : Bool)
  | number (n : Json.Numeral)
  | string (s : Bytes)
  | array (items : List Json)
  | object (members : List (Bytes × Json))

namespace Json

instance : Inhabited Json := ⟨null⟩

def ofString (s : String) : Json :=
  .string (Text.encode s)

def ofNat (n : Nat) : Json :=
  .number (.ofNat n)

def ofInt (n : Int) : Json :=
  .number (.ofInt n)

def ofMembers (members : List (String × Json)) : Json :=
  .object (members.map fun (name, value) ↦ (Text.encode name, value))

/-- The text of a string; bytes that are no text have none. -/
def text? : Json → Option String
  | string s => Text.decode? s
  | _ => none

theorem text?_ofString (s : String) : (ofString s).text? = some s :=
  Text.decode?_encode s

end Json
end ArtifactIndex
