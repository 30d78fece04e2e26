import ArtifactIndex.Json.Basic
/-!
Numbers of a document as doubles. The digits are collected into a 64-bit significand as long as they
fit; further digits before the point only raise the exponent, and further digits after it are
dropped. The significand is then scaled by one power of ten, so the result may be off by a unit in
the last place where a correctly rounded reading would not be.
-/

set_option autoImplicit false

namespace ArtifactIndex.Json.Numeral

def significandBound : Nat := 1 <<< 64

/-- The significand of the digits before the point and the number of digits it leaves out. -/
def takeWhole (significand : Nat) : List Nat → Nat × Nat
  | [] => (significand, 0)
  | d :: ds =>
    if 10 * significand + d < significandBound then takeWhole (10 * significand + d) ds
    else (significand, ds.length + 1)

/-- The significand with the digits after the point and the number of digits it takes in. -/
def takeFraction (significand taken : Nat) : List Nat → Nat × Nat
  | [] => (significand, taken)
  | d :: ds =>
    if 10 * significand + d < significandBound then
      takeFraction (10 * significand + d) (taken + 1) ds
    else (significand, taken)

def powerOfTen (n : Nat) : Float :=
  Float.ofScientific 1 false n

def greatestPower : Nat := 308

/-- Divides by a power of ten in steps that doubles can hold. -/
def scaleDown (x : Float) (n : Nat) : Float :=
  if n ≤ greatestPower then x / powerOfTen n
  else if x == 0 then x
  else scaleDown (x / powerOfTen greatestPower) (n - greatestPower)
  termination_by n
  decreasing_by simp only [greatestPower] at *; omega

/-- Multiplies or divides by a power of ten; a number beyond the doubles is none. -/
def scale? (x : Float) (exponent : Int) : Option Float :=
  match exponent with
  | .ofNat n =>
    if n ≤ greatestPower then
      let y := x * powerOfTen n
      if y.isInf then none else some y
    else if x == 0 then some x
    else none
  | .negSucc n => some (scaleDown x (n + 1))

/-- Exponents at or beyond this bound decide by their sign alone. -/
def exponentBound : Nat := 1 <<< 31

def magnitude? (n : Numeral) : Option Float :=
  let (significand, dropped) := takeWhole 0 n.whole
  let (significand, taken) := takeFraction significand 0 n.fraction
  let x := significand.toUInt64.toFloat
  let own : Int := (dropped : Int) - taken
  match n.exponent with
  | none => scale? x own
  | some (negative, digits) =>
    let e := value digits
    if e < exponentBound then scale? x (if negative then own - e else own + e)
    else if negative || significand == 0 then some 0
    else none

/-- The double that the number stands for, unless it is too large. -/
def double? (n : Numeral) : Option Float :=
  n.magnitude?.map fun x ↦ if n.negative then -x else x

end ArtifactIndex.Json.Numeral
