/-!
Texts as bytes. A code point is written with the bits of UTF-8 whether or not it stands for a
character, so half of a surrogate pair has a written form too, which no decoder accepts.

`decode?` accepts exactly the written forms of texts. `decodeLossy` reads any bytes and puts a
replacement character in the place of each longest run that could have begun a character.
-/

set_option autoImplicit false

namespace ArtifactIndex.Text

abbrev Bytes := List UInt8

def encode (s : String) : Bytes :=
  s.toUTF8.data.toList

def decode? (bytes : Bytes) : Option String :=
  String.fromUTF8? ⟨bytes.toArray⟩

theorem decode?_encode (s : String) : decode? (encode s) = some s := by
  have h : (⟨(encode s).toArray⟩ : ByteArray) = s.toUTF8 := by simp [encode]
  rw [decode?, h]
  exact dif_pos s.isValidUTF8

def encodeCodePoint (n : Nat) : Bytes :=
  if n < 0x80 then [n.toUInt8]
  else if n < 0x800 then [(0xC0 + n / 0x40).toUInt8, (0x80 + n % 0x40).toUInt8]
  else if n < 0x10000 then
    [(0xE0 + n / 0x1000).toUInt8, (0x80 + n / 0x40 % 0x40).toUInt8, (0x80 + n % 0x40).toUInt8]
  else
    [(0xF0 + n / 0x40000).toUInt8, (0x80 + n / 0x1000 % 0x40).toUInt8,
      (0x80 + n / 0x40 % 0x40).toUInt8, (0x80 + n % 0x40).toUInt8]

/-! ### Reading bytes that need not be a text -/

/-- A character that has begun: how many bytes are missing, what the next one may be, and the code
point so far. -/
structure Begun where
  missing : Nat
  least : UInt8
  greatest : UInt8
  value : Nat

inductive Lead where
  | whole (c : Char)
  | begun (b : Begun)
  | broken

/-- What a byte in first place means. The bounds rule out longer forms than needed, surrogates and
code points beyond the last. -/
def lead (b : UInt8) : Lead :=
  if b < 0x80 then .whole (Char.ofNat b.toNat)
  else if b < 0xC2 then .broken
  else if b < 0xE0 then .begun ⟨1, 0x80, 0xBF, b.toNat - 0xC0⟩
  else if b < 0xF0 then
    .begun ⟨2, if b = 0xE0 then 0xA0 else 0x80, if b = 0xED then 0x9F else 0xBF, b.toNat - 0xE0⟩
  else if b < 0xF5 then
    .begun ⟨3, if b = 0xF0 then 0x90 else 0x80, if b = 0xF4 then 0x8F else 0xBF, b.toNat - 0xF0⟩
  else .broken

def replacement : Char := '\ufffd'

/-- The characters a byte completes in first place, and what it begins. -/
def takeLead (b : UInt8) : List Char × Option Begun :=
  match lead b with
  | .whole c => ([c], none)
  | .begun s => ([], some s)
  | .broken => ([replacement], none)

def takeByte (state : Option Begun) (b : UInt8) : List Char × Option Begun :=
  match state with
  | none => takeLead b
  | some s =>
    if s.least ≤ b ∧ b ≤ s.greatest then
      let value := s.value * 0x40 + (b.toNat - 0x80)
      if s.missing ≤ 1 then ([Char.ofNat value], none)
      else ([], some ⟨s.missing - 1, 0x80, 0xBF, value⟩)
    else
      let (cs, next) := takeLead b
      (replacement :: cs, next)

def decodeLossyFrom (state : Option Begun) : Bytes → List Char
  | [] => if state.isSome then [replacement] else []
  | b :: bs =>
    let (cs, next) := takeByte state b
    cs ++ decodeLossyFrom next bs

def decodeLossy (bytes : Bytes) : String :=
  String.ofList (decodeLossyFrom none bytes)

end ArtifactIndex.Text
