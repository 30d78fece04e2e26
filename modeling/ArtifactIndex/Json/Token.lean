import ArtifactIndex.Json.Basic
/-!
The tokens of a JSON document. The scanner reads one byte after the other; `Scan` is what it
remembers between two bytes, and a number ends at the first byte that does not continue it.
-/

set_option autoImplicit false

namespace ArtifactIndex.Json

open Text (Bytes)

inductive Token where
  | arrayOpen
  | arrayClose
  | objectOpen
  | objectClose
  | colon
  | comma
  | null
  | bool (b : Bool)
  | number (n : Numeral)
  | string (s : Bytes)
  deriving DecidableEq

/-! ### Numbers -/

/-- The part of a number that has been read last. -/
inductive NumeralPart where
  | sign
  | zero
  | whole
  | point
  | fraction
  | mark
  | markSign
  | exponent
  deriving DecidableEq

/-- An unfinished number; its digits stand in reverse. -/
structure NumeralScan where
  part : NumeralPart
  negative : Bool
  whole : List Nat
  fraction : List Nat
  exponentNegative : Bool
  exponent : List Nat
  deriving DecidableEq

def digit? (b : UInt8) : Option Nat :=
  if 0x30 ≤ b ∧ b ≤ 0x39 then some (b.toNat - 0x30) else none

namespace NumeralScan

def start? (b : UInt8) : Option NumeralScan :=
  if b = 0x2D then some ⟨.sign, true, [], [], false, []⟩
  else
    (digit? b).map fun d ↦ ⟨if d = 0 then .zero else .whole, false, [d], [], false, []⟩

def addDigit (n : NumeralScan) (d : Nat) : Option NumeralScan :=
  match n.part with
  | .sign => some { n with part := if d = 0 then .zero else .whole, whole := [d] }
  | .zero => none
  | .whole => some { n with whole := d :: n.whole }
  | .point | .fraction => some { n with part := .fraction, fraction := d :: n.fraction }
  | .mark | .markSign | .exponent =>
    some { n with part := .exponent, exponent := d :: n.exponent }

/-- The number with one more byte, `none` when the byte does not belong to it. -/
def add? (n : NumeralScan) (b : UInt8) : Option NumeralScan :=
  match digit? b with
  | some d => n.addDigit d
  | none =>
    match n.part with
    | .zero | .whole =>
      if b = 0x2E then some { n with part := .point }
      else if b = 0x65 ∨ b = 0x45 then some { n with part := .mark }
      else none
    | .fraction => if b = 0x65 ∨ b = 0x45 then some { n with part := .mark } else none
    | .mark =>
      if b = 0x2B then some { n with part := .markSign }
      else if b = 0x2D then some { n with part := .markSign, exponentNegative := true }
      else none
    | _ => none

/-- The number read so far, if it may end here. -/
def finish? (n : NumeralScan) : Option Numeral :=
  match n.part with
  | .zero | .whole | .fraction => some ⟨n.negative, n.whole.reverse, n.fraction.reverse, none⟩
  | .exponent =>
    some ⟨n.negative, n.whole.reverse, n.fraction.reverse,
      some (n.exponentNegative, n.exponent.reverse)⟩
  | _ => none

end NumeralScan

/-! ### Strings -/

/-- An unfinished string: its bytes in reverse, without the first half of a surrogate pair that
still waits for the second. -/
structure StringScan where
  reversed : Bytes
  high : Option Nat
  deriving DecidableEq

namespace StringScan

def empty : StringScan := ⟨[], none⟩

/-- Gives up waiting: the half becomes bytes that are no text. -/
def settle (s : StringScan) : StringScan :=
  match s.high with
  | none => s
  | some h => ⟨(Text.encodeCodePoint h).reverse ++ s.reversed, none⟩

def addByte (s : StringScan) (b : UInt8) : StringScan :=
  ⟨b :: s.settle.reversed, none⟩

/-- Adds an escaped code unit, pairing it with a waiting half where that is possible. -/
def addUnit (s : StringScan) (n : Nat) : StringScan :=
  match s.high with
  | some h =>
    if 0xDC00 ≤ n ∧ n ≤ 0xDFFF then
      let point := 0x10000 + (h - 0xD800) * 0x400 + (n - 0xDC00)
      ⟨(Text.encodeCodePoint point).reverse ++ s.reversed, none⟩
    else if 0xD800 ≤ n ∧ n ≤ 0xDBFF then ⟨s.settle.reversed, some n⟩
    else ⟨(Text.encodeCodePoint n).reverse ++ s.settle.reversed, none⟩
  | none =>
    if 0xD800 ≤ n ∧ n ≤ 0xDBFF then ⟨s.reversed, some n⟩
    else ⟨(Text.encodeCodePoint n).reverse ++ s.reversed, none⟩

def finish (s : StringScan) : Bytes :=
  s.settle.reversed.reverse

end StringScan

/-- The byte that a one-letter escape stands for. -/
def escaped? (b : UInt8) : Option UInt8 :=
  if b = 0x22 ∨ b = 0x5C ∨ b = 0x2F then some b
  else if b = 0x62 then some 0x08
  else if b = 0x66 then some 0x0C
  else if b = 0x6E then some 0x0A
  else if b = 0x72 then some 0x0D
  else if b = 0x74 then some 0x09
  else none

def hexDigit? (b : UInt8) : Option Nat :=
  if 0x30 ≤ b ∧ b ≤ 0x39 then some (b.toNat - 0x30)
  else if 0x41 ≤ b ∧ b ≤ 0x46 then some (b.toNat - 0x37)
  else if 0x61 ≤ b ∧ b ≤ 0x66 then some (b.toNat - 0x57)
  else none

/-! ### The scanner -/

inductive Scan where
  | between
  | word (token : Token) (expected : Bytes)
  | number (n : NumeralScan)
  | string (s : StringScan)
  | escape (s : StringScan)
  | hex (s : StringScan) (missing value : Nat)
  deriving DecidableEq

/-- The tokens found so far, the last first, and the state after them. -/
structure Lexing where
  reversed : List Token
  scan : Scan
  deriving DecidableEq

namespace Lexing

def start : Lexing := ⟨[], .between⟩

def emit (l : Lexing) (t : Token) : Lexing :=
  ⟨t :: l.reversed, .between⟩

def goTo (l : Lexing) (s : Scan) : Lexing :=
  ⟨l.reversed, s⟩

def isSpace (b : UInt8) : Bool :=
  b == 0x20 || b == 0x09 || b == 0x0A || b == 0x0D

/-- Takes a byte that starts a token or stands between two. -/
def open? (l : Lexing) (b : UInt8) : Option Lexing :=
  if isSpace b then some (l.goTo .between)
  else if b = 0x5B then some (l.emit .arrayOpen)
  else if b = 0x5D then some (l.emit .arrayClose)
  else if b = 0x7B then some (l.emit .objectOpen)
  else if b = 0x7D then some (l.emit .objectClose)
  else if b = 0x3A then some (l.emit .colon)
  else if b = 0x2C then some (l.emit .comma)
  else if b = 0x22 then some (l.goTo (.string .empty))
  else if b = 0x6E then some (l.goTo (.word .null [0x75, 0x6C, 0x6C]))
  else if b = 0x74 then some (l.goTo (.word (.bool true) [0x72, 0x75, 0x65]))
  else if b = 0x66 then some (l.goTo (.word (.bool false) [0x61, 0x6C, 0x73, 0x65]))
  else (NumeralScan.start? b).map fun n ↦ l.goTo (.number n)

def step (l : Lexing) (b : UInt8) : Option Lexing :=
  match l.scan with
  | .between => l.open? b
  | .word token [e] => if b = e then some (l.emit token) else none
  | .word token (e :: es) => if b = e then some (l.goTo (.word token es)) else none
  | .word _ [] => none
  | .number n =>
    match n.add? b with
    | some n => some (l.goTo (.number n))
    | none => n.finish?.bind fun numeral ↦ (l.emit (.number numeral)).open? b
  | .string s =>
    if b = 0x22 then some (l.emit (.string s.finish))
    else if b = 0x5C then some (l.goTo (.escape s))
    else if b < 0x20 then none
    else some (l.goTo (.string (s.addByte b)))
  | .escape s =>
    if b = 0x75 then some (l.goTo (.hex s 4 0))
    else (escaped? b).map fun e ↦ l.goTo (.string (s.addByte e))
  | .hex s missing value =>
    (hexDigit? b).map fun d ↦
      let value := value * 16 + d
      l.goTo (if missing ≤ 1 then .string (s.addUnit value) else .hex s (missing - 1) value)

def finish? (l : Lexing) : Option (List Token) :=
  match l.scan with
  | .between => some l.reversed.reverse
  | .number n => n.finish?.map fun numeral ↦ (Token.number numeral :: l.reversed).reverse
  | _ => none

end Lexing

def tokens? (bytes : Bytes) : Option (List Token) :=
  (bytes.foldlM Lexing.step .start).bind Lexing.finish?

end ArtifactIndex.Json
