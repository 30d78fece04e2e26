import ArtifactIndex.Text.Hidden
/-!
Quoted texts as summaries show them: double quotes around, the usual backslash escapes, and hidden
characters by their code point in braces.
-/

set_option autoImplicit false

namespace ArtifactIndex.Text

/-- Lower-case hexadecimal without leading zeros. -/
def hexNumeral (n : Nat) : List Char :=
  Nat.toDigits 16 n

def quoteChar (c : Char) : List Char :=
  if c = '"' then ['\\', '"']
  else if c = '\\' then ['\\', '\\']
  else if c = '\t' then ['\\', 't']
  else if c = '\r' then ['\\', 'r']
  else if c = '\n' then ['\\', 'n']
  else if c.toNat = 0 then ['\\', '0']
  else if isHidden c then ['\\', 'u', '\x7b'] ++ hexNumeral c.toNat ++ ['\x7d']
  else [c]

def quote (s : String) : String :=
  String.ofList ('"' :: s.toList.flatMap quoteChar ++ ['"'])

end ArtifactIndex.Text
