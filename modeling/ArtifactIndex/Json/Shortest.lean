import ArtifactIndex.Json.Basic
/-!
The shortest decimal numeral of a double: the fewest digits that read back as the same double, the
nearest of those to it, and an even last digit where two are equally near. Values whose point falls
within the first sixteen places, or up to five places before the digits, are written positionally
and with at least one digit after the point.
-/

set_option autoImplicit false

namespace ArtifactIndex.Json.Shortest

/-- A positive double as `mantissa · 2 ^ exponent`, with the distances to the ends of the interval
that rounds to it in quarters of a unit. -/
structure Spread where
  mantissa : Nat
  exponent : Int
  below : Nat

/-- The leading bit that the written mantissa of most doubles leaves out. -/
def hiddenBit : Nat := 1 <<< 52

def signBit : Nat := 1 <<< 63

def ofBits (bits : Nat) : Spread :=
  let fraction := bits % hiddenBit
  let biased := bits / hiddenBit % 2048
  if biased = 0 then ⟨fraction, -1074, 2⟩
  else ⟨hiddenBit + fraction, Int.ofNat biased - 1075, if fraction = 0 ∧ 1 < biased then 1 else 2⟩

/-- The number of decimal places of `n`, none for `0`. -/
def places (n : Nat) : Nat :=
  if n = 0 then 0 else (Nat.toDigits 10 n).length

/-- The least power of ten above `num / den`, where `num < den` and at most `fuel` places follow the
point before the first digit. -/
def placesBelowOne (num den : Nat) : Nat → Int
  | 0 => 0
  | fuel + 1 => if den ≤ 10 * num then 0 else placesBelowOne (10 * num) den fuel - 1

def pointPlace (num den : Nat) : Int :=
  if den ≤ num then places (num / den) else placesBelowOne num den 400

/-- Digits and the place of the last one. -/
structure Decimal where
  digits : Nat
  place : Int
  deriving DecidableEq

/-- `value`, `low` and `high` over `den` are the double and the ends of its interval. -/
structure Target where
  value : Nat
  low : Nat
  high : Nat
  den : Nat
  closed : Bool

namespace Target

def ofSpread (s : Spread) : Target :=
  let up := 1 <<< (s.exponent - 2).toNat
  ⟨4 * s.mantissa * up, (4 * s.mantissa - s.below) * up, (4 * s.mantissa + 2) * up,
    1 <<< (2 - s.exponent).toNat, s.mantissa % 2 = 0⟩

/-- The same target with the digit at `place` in the units. -/
def shift (t : Target) (place : Int) : Target :=
  let up := Nat.pow 10 (-place).toNat
  { t with
    value := t.value * up
    low := t.low * up
    high := t.high * up
    den := t.den * Nat.pow 10 place.toNat }

def admits (t : Target) (digits : Nat) : Bool :=
  let n := digits * t.den
  if t.closed then t.low ≤ n && n ≤ t.high else t.low < n && n < t.high

/-- The integer next to the value that lies in the interval and is nearest. -/
def nearest? (t : Target) : Option Nat :=
  let floor := t.value / t.den
  let ahead := t.value % t.den
  let behind := t.den - ahead
  match t.admits floor && floor != 0, t.admits (floor + 1) with
  | false, false => none
  | true, false => some floor
  | false, true => some (floor + 1)
  | true, true =>
    if ahead < behind then some floor
    else if behind < ahead then some (floor + 1)
    else some (if floor % 2 = 0 then floor else floor + 1)

end Target

/-- Tries one digit, then two, and so on; seventeen always suffice. -/
def search (t : Target) (point : Int) (count : Nat) : Nat → Decimal
  | 0 => ⟨0, 0⟩
  | fuel + 1 =>
    let place := point - count
    match (t.shift place).nearest? with
    | some digits => ⟨digits, place⟩
    | none => search t point (count + 1) fuel

/-- Moves trailing zeros into the place. -/
def strip (d : Decimal) : Nat → Decimal
  | 0 => d
  | fuel + 1 =>
    if d.digits % 10 = 0 ∧ d.digits ≠ 0 then strip ⟨d.digits / 10, d.place + 1⟩ fuel else d

def ofPositive (bits : Nat) : Decimal :=
  let t := Target.ofSpread (ofBits bits)
  strip (search t (pointPlace t.value t.den) 1 17) 20

/-- Writes digits positionally or with an exponent. -/
def layout (negative : Bool) (d : Decimal) : Numeral :=
  let digits := Numeral.digitsOf d.digits
  let point : Int := digits.length + d.place
  if 0 ≤ d.place ∧ point ≤ 16 then
    ⟨negative, digits ++ List.replicate d.place.toNat 0, [0], none⟩
  else if 0 < point ∧ point ≤ 16 then
    ⟨negative, digits.take point.toNat, digits.drop point.toNat, none⟩
  else if -5 < point ∧ point ≤ 0 then
    ⟨negative, [0], List.replicate (-point).toNat 0 ++ digits, none⟩
  else
    let exponent := point - 1
    ⟨negative, digits.take 1, digits.drop 1,
      some (exponent < 0, Numeral.digitsOf exponent.natAbs)⟩

/-- The numeral of a finite double. -/
def ofDouble (x : Float) : Numeral :=
  let bits := x.toBits.toNat
  let negative := signBit ≤ bits
  let magnitude := bits % signBit
  if magnitude = 0 then ⟨negative, [0], [0], none⟩ else layout negative (ofPositive magnitude)

end ArtifactIndex.Json.Shortest
