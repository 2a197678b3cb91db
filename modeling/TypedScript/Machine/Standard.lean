/-
The module every program may import: printing, the length of a text, the text of a number, and an assertion. What is
printed is handed to the host line by line; the other functions only answer.
-/
import TypedScript.Machine.Run

namespace TypedScript.StandardFunction

/-- the values of a call as one line -/
def line (arguments : List Value) : String := " ".intercalate (arguments.map Value.render)

/-- what a function gives for its arguments -/
def answer (f : StandardFunction) (arguments : List Value) : Except String Value :=
  match f, arguments with
  | print, _ => .ok .none
  | len, [.str text] => .ok (.int (Int64.ofNat text.length))
  | len, _ => .error "expected a single Str argument"
  | str, [.int n] => .ok (.str (toString n.toInt))
  | str, _ => .error "expected a single Int argument"
  | assert, [.bool true, _] => .ok .none
  | assert, [.bool false, message] => .error ("assertion failed: " ++ message.render)
  | assert, _ => .error "expected Bool and Str arguments"

/-- the line a call prints, if it prints one -/
def printed (f : StandardFunction) (arguments : List Value) : Option String :=
  if f = print then some (line arguments) else none

/-- a host that takes printed lines with `output` and answers for its own functions with `respond` -/
def host {σ : Type} (output : String → σ → σ) (respond : Nat → List Value → σ → Except String Value × σ)
    (store : Store) : Host σ where
  respond id arguments memory :=
    match id with
    | .standard f => (f.answer arguments, ((f.printed arguments).map fun text => output text memory).getD memory)
    | .host number => respond number arguments memory
  store := store

end TypedScript.StandardFunction
