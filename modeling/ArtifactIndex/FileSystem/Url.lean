import ArtifactIndex.FileSystem.Basic
/-!
URLs of files. The names of a location are percent-encoded byte by byte: controls, everything
beyond ASCII and the characters with a meaning in URLs are written as two hexadecimal digits.
-/

set_option autoImplicit false

namespace ArtifactIndex.Url

open Text (Bytes)

/-- Printable ASCII characters that a name in a URL does not show as they are. -/
def reserved : List Char :=
  [' ', '"', '#', '<', '>', '?', Char.ofNat 0x60, '\x7b', '\x7d', '%', '\\', '/']

def isEncoded (b : UInt8) : Bool :=
  b < 0x20 || 0x7F ≤ b || reserved.contains (Char.ofNat b.toNat)

def upperHexDigit (n : Nat) : Char :=
  if n < 10 then Char.ofNat (48 + n) else Char.ofNat (55 + n)

def encodeByte (b : UInt8) : List Char :=
  if isEncoded b then ['%', upperHexDigit (b.toNat / 16), upperHexDigit (b.toNat % 16)]
  else [Char.ofNat b.toNat]

def encodeName (name : String) : String :=
  String.ofList ((Text.encode name).flatMap encodeByte)

def ofLocation (loc : Location) : String :=
  "file:///" ++ "/".intercalate (loc.map encodeName)

end ArtifactIndex.Url
