/-
A reader walks over source text from its beginning. It is moved by a number of bytes of the text's UTF-8 form and keeps
line and column in step with what it has read.
-/
import TypedScript.Source

namespace TypedScript

/-- the text still to be read and the position of its first character -/
structure Reader where
  rest : List Char
  position : Position
deriving DecidableEq, Inhabited

namespace Reader

/-- at the beginning of a text -/
def ofText (text : String) : Reader := ⟨text.toList, .first⟩

/-- the next character, if there is one -/
def peek? (r : Reader) : Option Char := r.rest.head?

def atEnd (r : Reader) : Bool := r.rest.isEmpty

/-- the number of leading characters of a text that fit whole into `bytes` bytes -/
def charsWithin : Nat → List Char → Nat
  | _, [] => 0
  | bytes, c :: text => if c.utf8Size ≤ bytes then charsWithin (bytes - c.utf8Size) text + 1 else 0

/-- past the next `bytes` bytes, or to the end where fewer remain -/
def advance (r : Reader) (bytes : Nat) : Reader :=
  let count := charsWithin bytes r.rest
  ⟨r.rest.drop count, r.position.after (r.rest.take count)⟩

end Reader

end TypedScript
