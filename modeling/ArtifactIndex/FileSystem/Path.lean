import ArtifactIndex.Text.Blank
/-!
Paths as texts. Joining keeps the text as it is and only adds a separator where one is missing;
`names` and `components` see through doubled separators and single dots, and `directory?` cuts the
text in front of the last name.
-/

set_option autoImplicit false

namespace ArtifactIndex.Path

def isAbsolute (path : String) : Bool :=
  path.toList.head? == some '/'

/-- The second path seen from the first one; an absolute path stands for itself. -/
def join (base path : String) : String :=
  if isAbsolute path then path
  else if base.toList.getLast?.all (· == '/') then base ++ path
  else base ++ "/" ++ path

/-- The names between the separators, empty ones left out. -/
def names (path : String) : List String :=
  ((Text.splitBy (· == '/') path.toList).filter (· ≠ [])).map String.ofList

/-- Names without the dots that stand for the directory they are in, except a leading one. -/
def components (path : String) : List String :=
  match names path with
  | [] => []
  | first :: rest =>
    let rest := rest.filter (· ≠ ".")
    if first = "." ∧ isAbsolute path then rest else first :: rest

/-- Drops the pieces that name nothing, empty ones and dots, from the front of the pieces of a path
in reverse order. The very first piece of a path stays. -/
def dropBlankPieces : List (List Char) → List (List Char)
  | piece :: next :: rest =>
    if piece = [] ∨ piece = ['.'] then dropBlankPieces (next :: rest) else piece :: next :: rest
  | pieces => pieces

/-- The directory a path lies in, as the text in front of the last name; it is empty for a single
name. An empty path and the root lie in none. -/
def directory? (path : String) : Option String :=
  match dropBlankPieces (Text.splitBy (· == '/') path.toList).reverse with
  | [] | [[]] => none
  | _ :: rest =>
    match dropBlankPieces rest with
    | [[]] => some "/"
    | pieces => some ("/".intercalate (pieces.reverse.map String.ofList))

def endsInSeparator (path : String) : Bool :=
  path.toList.getLast? == some '/'

/-- The last name is the dot of the directory in front of it. -/
def endsInDot (path : String) : Bool :=
  (names path).getLast? == some "."

end ArtifactIndex.Path
