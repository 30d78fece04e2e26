import ArtifactIndex.Json.Double
import ArtifactIndex.Json.Shortest
/-!
Documents taken as values. All strings must be texts, members are sorted by name with the last of
equal names kept, integers of at most sixty-four bits stay integers and all other numbers become
doubles. Arrays and objects may be nested 127 deep.
-/

set_option autoImplicit false

namespace ArtifactIndex.Json

open Text (Bytes)

def depthLimit : Nat := 127

def isText (bytes : Bytes) : Bool :=
  (Text.decode? bytes).isSome

namespace Numeral

/-- Integers from the least signed to the greatest unsigned word. -/
def fitsWord (n : Int) : Bool :=
  -(1 <<< 63) ≤ n && n < 1 <<< 64

/-- The integer as a word. Documents have no leading zeros, so more than twenty digits are too
many. -/
def word? (n : Numeral) : Option Int :=
  if n.whole.length ≤ 20 then n.int?.filter fitsWord else none

def settle? (n : Numeral) : Option Numeral :=
  match n.word? with
  | some i => some (.ofInt i)
  | none => n.double?.map Shortest.ofDouble

end Numeral

/-- Puts a member where its name belongs, in place of one with the same name. -/
def insertMember (name : Bytes) (value : Json) : List (Bytes × Json) → List (Bytes × Json)
  | [] => [(name, value)]
  | (n, v) :: rest =>
    match compare name n with
    | .lt => (name, value) :: (n, v) :: rest
    | .eq => (name, value) :: rest
    | .gt => (n, v) :: insertMember name value rest

mutual

/-- The value of a document that may still hold `depth` levels of arrays and objects. -/
def settleAt? (depth : Nat) : Json → Option Json
  | null => some null
  | bool b => some (bool b)
  | number n => n.settle?.map number
  | string s => if isText s then some (string s) else none
  | array items => if depth = 0 then none else (settleItems? (depth - 1) items).map array
  | object members =>
    if depth = 0 then none else (settleMembers? (depth - 1) [] members).map object

def settleItems? (depth : Nat) : List Json → Option (List Json)
  | [] => some []
  | item :: items => do
    let item ← settleAt? depth item
    let items ← settleItems? depth items
    return item :: items

/-- Adds the members to those already sorted. -/
def settleMembers? (depth : Nat) (sorted : List (Bytes × Json)) :
    List (Bytes × Json) → Option (List (Bytes × Json))
  | [] => some sorted
  | (name, value) :: members =>
    if isText name then do
      let value ← settleAt? depth value
      settleMembers? depth (insertMember name value sorted) members
    else
      none

end

def settle? (j : Json) : Option Json :=
  settleAt? depthLimit j

end ArtifactIndex.Json
