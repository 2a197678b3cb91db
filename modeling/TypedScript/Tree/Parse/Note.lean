/-
Reading a type as it is written. A type is a name, a list type `[T]` or a tuple `(A B)`, and any number of question
marks behind it; a tuple with `=> R` behind it is a function type, and a question mark after `R` belongs to `R`. Commas
between the items of a tuple may be left out.
-/
import TypedScript.Tree
import TypedScript.Tree.Cursor
import TypedScript.Tree.BindingPower

namespace TypedScript.Parse

/-- the question marks behind a type, where they bind more tightly than `power` -/
def noteMarks : Nat → BindingPower → Note → Parse Note
  | 0, _, note => return note
  | fuel + 1, power, note => do
    if (← kind) = .question ∧ power.weaker .call then
      let _ ← advance
      noteMarks fuel power (.optional note)
    else return note

mutual

/-- a type whose question marks bind more tightly than `power` -/
def noteWithin : Nat → BindingPower → Parse Note
  | 0, _ => unexpected
  | fuel + 1, power => do
    let note ← noteHead fuel
    noteMarks fuel power note

/-- a type up to the question marks behind it -/
def noteHead : Nat → Parse Note
  | 0 => unexpected
  | fuel + 1 => do
    match ← kind with
    | .identifier =>
      let name ← advance
      return .named name.value
    | .openBracket =>
      let _ ← advance
      let element ← noteWithin fuel .default
      let _ ← expect .closeBracket
      return .list element
    | .openParen =>
      let _ ← advance
      let items ← noteItems fuel
      let _ ← expect .closeParen
      if (← kind) = .arrow then
        let _ ← advance
        let result ← noteWithin fuel .default
        return .function items result
      else return .tuple items
    | _ => unexpected

/-- the items of a tuple type, up to the parenthesis that closes it -/
def noteItems : Nat → Parse (List Note)
  | 0 => unexpected
  | fuel + 1 => do
    if (← kind) = .closeParen then return []
    else
      let item ← noteWithin fuel .default
      if (← kind) = .comma then
        let _ ← advance
      let items ← noteItems fuel
      return item :: items

end

/-- a type whose question marks bind more tightly than `power` -/
def note (power : BindingPower) : Parse Note := do noteWithin (← get).depth power

end TypedScript.Parse
