import ArtifactIndex.Json.Token
/-!
From tokens to documents. The reader takes one token after the other and keeps the arrays and
objects that are still open, the innermost first.
-/

set_option autoImplicit false

namespace ArtifactIndex.Json

open Text (Bytes)

/-- An open array or object with what it holds so far in reverse; an object also has the name of the
member being read. -/
inductive Frame where
  | array (reversed : List Json)
  | object (reversed : List (Bytes × Json)) (name : Bytes)

/-- What may come next. Names are asked for with the members before them. -/
inductive Expected where
  | value
  | firstItem
  | firstName
  | name (reversed : List (Bytes × Json))
  | colon (reversed : List (Bytes × Json)) (name : Bytes)
  | separator (value : Json)

structure Reading where
  frames : List Frame
  expected : Expected

namespace Reading

def start : Reading := ⟨[], .value⟩

/-- Begins a value. -/
def begin? (frames : List Frame) : Token → Option Reading
  | .null => some ⟨frames, .separator .null⟩
  | .bool b => some ⟨frames, .separator (.bool b)⟩
  | .number n => some ⟨frames, .separator (.number n)⟩
  | .string s => some ⟨frames, .separator (.string s)⟩
  | .arrayOpen => some ⟨.array [] :: frames, .firstItem⟩
  | .objectOpen => some ⟨frames, .firstName⟩
  | _ => none

/-- Puts a finished value into the innermost frame and goes on or closes the frame. -/
def close? (value : Json) : List Frame → Token → Option Reading
  | .array rev :: frames, .comma => some ⟨.array (value :: rev) :: frames, .value⟩
  | .array rev :: frames, .arrayClose =>
    some ⟨frames, .separator (.array (value :: rev).reverse)⟩
  | .object rev name :: frames, .comma => some ⟨frames, .name ((name, value) :: rev)⟩
  | .object rev name :: frames, .objectClose =>
    some ⟨frames, .separator (.object ((name, value) :: rev).reverse)⟩
  | _, _ => none

def step (r : Reading) (t : Token) : Option Reading :=
  match r.expected, t with
  | .value, t => begin? r.frames t
  | .firstItem, .arrayClose => some ⟨r.frames.tail, .separator (.array [])⟩
  | .firstItem, t => begin? r.frames t
  | .firstName, .objectClose => some ⟨r.frames, .separator (.object [])⟩
  | .firstName, .string name => some ⟨r.frames, .colon [] name⟩
  | .name rev, .string name => some ⟨r.frames, .colon rev name⟩
  | .colon rev name, .colon => some ⟨.object rev name :: r.frames, .value⟩
  | .separator value, t => close? value r.frames t
  | _, _ => none

def finish? (r : Reading) : Option Json :=
  match r.frames, r.expected with
  | [], .separator value => some value
  | _, _ => none

end Reading

def ofTokens? (ts : List Token) : Option Json :=
  (ts.foldlM Reading.step .start).bind Reading.finish?

def ofBytes? (bytes : Bytes) : Option Json :=
  (tokens? bytes).bind ofTokens?

def parse? (s : String) : Option Json :=
  ofBytes? (Text.encode s)

end ArtifactIndex.Json
