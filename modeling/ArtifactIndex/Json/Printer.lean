import ArtifactIndex.Json.Basic
/-!
Written forms of JSON documents: on one line without spaces, or with one entry a line, two spaces
deeper than what holds it. An exponent is written with its sign. A string escapes quotes,
backslashes and control characters and nothing else, so the other bytes of a text stand as they
are.
-/

set_option autoImplicit false

namespace ArtifactIndex.Json

open Text (Bytes)

/-! ### Scalars -/

def digitByte (d : Nat) : UInt8 :=
  (0x30 + d).toUInt8

def hexByte (d : Nat) : UInt8 :=
  if d < 10 then (0x30 + d).toUInt8 else (0x57 + d).toUInt8

namespace Numeral

def bytes (n : Numeral) : Bytes :=
  (if n.negative then [0x2D] else []) ++ n.whole.map digitByte ++
    (if n.fraction.isEmpty then [] else 0x2E :: n.fraction.map digitByte) ++
    match n.exponent with
    | none => []
    | some (negative, digits) =>
      0x65 :: (if negative then 0x2D else 0x2B) :: digits.map digitByte

end Numeral

def escapeByte (b : UInt8) : Bytes :=
  if b = 0x22 then [0x5C, 0x22]
  else if b = 0x5C then [0x5C, 0x5C]
  else if b = 0x08 then [0x5C, 0x62]
  else if b = 0x09 then [0x5C, 0x74]
  else if b = 0x0A then [0x5C, 0x6E]
  else if b = 0x0C then [0x5C, 0x66]
  else if b = 0x0D then [0x5C, 0x72]
  else if b < 0x20 then
    [0x5C, 0x75, 0x30, 0x30, hexByte (b.toNat / 16), hexByte (b.toNat % 16)]
  else [b]

def stringBytes (s : Bytes) : Bytes :=
  0x22 :: s.flatMap escapeByte ++ [0x22]

def boolBytes : Bool → Bytes
  | true => [0x74, 0x72, 0x75, 0x65]
  | false => [0x66, 0x61, 0x6C, 0x73, 0x65]

def nullBytes : Bytes := [0x6E, 0x75, 0x6C, 0x6C]

/-! ### On one line -/

mutual

def compact : Json → Bytes
  | null => nullBytes
  | bool b => boolBytes b
  | number n => n.bytes
  | string s => stringBytes s
  | array [] => [0x5B, 0x5D]
  | array (item :: items) => 0x5B :: compact item ++ compactItems items
  | object [] => [0x7B, 0x7D]
  | object ((name, value) :: members) =>
    0x7B :: stringBytes name ++ 0x3A :: compact value ++ compactMembers members

/-- The items after the first and the end of their array. -/
def compactItems : List Json → Bytes
  | [] => [0x5D]
  | item :: items => 0x2C :: compact item ++ compactItems items

/-- The members after the first and the end of their object. -/
def compactMembers : List (Bytes × Json) → Bytes
  | [] => [0x7D]
  | (name, value) :: members =>
    0x2C :: stringBytes name ++ 0x3A :: compact value ++ compactMembers members

end

/-- The compact form as text. -/
def text (j : Json) : String :=
  Text.decodeLossy j.compact

/-! ### One entry a line -/

def newline (depth : Nat) : Bytes :=
  0x0A :: List.replicate (2 * depth) 0x20

mutual

/-- The written form inside `depth` arrays and objects. -/
def prettyAt (depth : Nat) : Json → Bytes
  | null => nullBytes
  | bool b => boolBytes b
  | number n => n.bytes
  | string s => stringBytes s
  | array [] => [0x5B, 0x5D]
  | array (item :: items) =>
    0x5B :: newline (depth + 1) ++ prettyAt (depth + 1) item ++ prettyItems depth items
  | object [] => [0x7B, 0x7D]
  | object ((name, value) :: members) =>
    0x7B :: newline (depth + 1) ++ stringBytes name ++ [0x3A, 0x20] ++
      prettyAt (depth + 1) value ++ prettyMembers depth members

def prettyItems (depth : Nat) : List Json → Bytes
  | [] => newline depth ++ [0x5D]
  | item :: items =>
    0x2C :: newline (depth + 1) ++ prettyAt (depth + 1) item ++ prettyItems depth items

def prettyMembers (depth : Nat) : List (Bytes × Json) → Bytes
  | [] => newline depth ++ [0x7D]
  | (name, value) :: members =>
    0x2C :: newline (depth + 1) ++ stringBytes name ++ [0x3A, 0x20] ++
      prettyAt (depth + 1) value ++ prettyMembers depth members

end

def pretty (j : Json) : Bytes :=
  j.prettyAt 0

end ArtifactIndex.Json
