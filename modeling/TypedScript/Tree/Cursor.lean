/-
A cursor stands on one token of a list that ends in a token of kind `endOfText`, and never moves past the last one.
`Parse` is reading with a cursor: a failed reading leaves the cursor where it failed. `Cursor.remaining_next` says that
a move off any token but the last leaves one token fewer.
-/
import TypedScript.Token
import TypedScript.SyntaxError

namespace TypedScript

structure Cursor where
  /-- the token most recently passed -/
  before : Option Token
  current : Token
  ahead : List Token
  /-- the number of the next function literal. Literals are counted without a bound; a counter of 32 bits has the same
  numbers for the first `2 ^ 32` of them, which no memory holds the tokens of. -/
  nextId : Nat
deriving Inhabited

namespace Cursor

/-- on the first of the tokens; where the last one is not the end of the text, an end is added behind it -/
def ofTokens (tokens : List Token) : Cursor :=
  let closing :=
    match tokens.getLast? with
    | none => [Token.endAt .null]
    | some last => if last.kind = .endOfText then [] else [Token.endAt last.span.stop]
  match tokens ++ closing with
  | [] => ⟨none, .endAt .null, [], 0⟩
  | first :: rest => ⟨none, first, rest, 0⟩

/-- the tokens not yet passed -/
def remaining (c : Cursor) : Nat := c.ahead.length + 1

/-- on the token after the current one, if there is one -/
def next (c : Cursor) : Cursor :=
  match c.ahead with
  | [] => c
  | token :: rest => { c with before := some c.current, current := token, ahead := rest }

def position (c : Cursor) : Position := c.current.span.start

/-- where the token most recently passed ends -/
def previousEnd (c : Cursor) : Position :=
  match c.before with
  | none => c.position
  | some token => token.span.stop

/-- from a position to the end of the token most recently passed -/
def spanFrom (c : Cursor) (start : Position) : Span := ⟨start, c.previousEnd⟩

/-- the current token is not the end of the text -/
def hasTokens (c : Cursor) : Bool := c.current.kind ≠ .endOfText

/-- the error that the current token is out of place -/
def unexpected (c : Cursor) : SyntaxError := ⟨.unexpectedToken c.current.value, c.position⟩

/-- the error that the current token is out of place where something else was wanted -/
def unexpectedDetailed (c : Cursor) (message : String) : SyntaxError :=
  ⟨.unexpectedTokenDetailed c.current.value message, c.position⟩

/-- how deep the rules may nest from here: each of them passes a token within a few steps -/
def depth (c : Cursor) : Nat := 8 * c.remaining

theorem remaining_next {c : Cursor} (h : c.ahead ≠ []) : c.next.remaining + 1 = c.remaining := by
  unfold next
  split
  · contradiction
  · next heq => simp [remaining, heq]

end Cursor

/-- reading with a cursor -/
abbrev Parse := EStateM SyntaxError Cursor

namespace Parse

/-- the kind of the current token -/
def kind : Parse TokenKind := return (← get).current.kind

/-- pass the current token -/
def advance : Parse Token := do
  let c ← get
  set c.next
  return c.current

/-- fail at the current token -/
def unexpected {α : Type} : Parse α := do throw (← get).unexpected

/-- fail at the current token, saying what was wanted -/
def unexpectedDetailed {α : Type} (message : String) : Parse α := do
  throw ((← get).unexpectedDetailed message)

/-- pass a token of the kind, or fail with the error -/
def expectOr (kind : TokenKind) (error : SyntaxError) : Parse Token := do
  if (← get).current.kind = kind then advance else throw error

/-- pass a token of the kind -/
def expect (kind : TokenKind) : Parse Token := do
  if (← get).current.kind = kind then advance else unexpected

/-- pass a token of the kind, or fail saying what was wanted -/
def expectDetailed (kind : TokenKind) (message : String) : Parse Token := do
  if (← get).current.kind = kind then advance else unexpectedDetailed message

/-- the number of a new function literal -/
def freshId : Parse Nat := do
  let c ← get
  set { c with nextId := c.nextId + 1 }
  return c.nextId

/-- from a position to the end of the token most recently passed -/
def spanFrom (start : Position) : Parse Span := return (← get).spanFrom start

end Parse

end TypedScript
