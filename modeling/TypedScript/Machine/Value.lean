/-
Values of a running program. Numbers, texts, truth values and lists are equal by content; a function is equal to itself
alone, so that every function made while a program runs has an identity. Values are the same whatever functions are made
from; unless it is said otherwise, they are made from templates. `Value.eqv_refl` says that every value equals itself.
-/
import TypedScript.Code.Instruction
import TypedScript.Linking.Native

namespace TypedScript

/-- a frame's place in its store -/
abbrev FrameId := Nat

/-- a function made from a template, over the frame in which it was made -/
structure Closure (φ : Type := Template) where
  identity : Nat
  template : φ
  frame : FrameId
deriving Inhabited

inductive Value (φ : Type := Template)
  /-- what a function that gives nothing gives, and an element that is not there -/
  | none
  | int (value : Int64)
  | str (value : String)
  | bool (value : Bool)
  | list (items : List (Value φ))
  | builtin (b : Builtin)
  | closure (c : Closure φ)
deriving Inhabited

namespace Value

variable {φ : Type}

/-- the kind of a value, as faults name it -/
def kind : Value φ → String
  | none => "None"
  | int _ => "Int"
  | str _ => "Str"
  | bool _ => "Bool"
  | list _ => "List"
  | builtin _ => "Builtin"
  | closure _ => "Closure"

def int? : Value φ → Option Int64
  | int value => some value
  | _ => Option.none

def str? : Value φ → Option String
  | str value => some value
  | _ => Option.none

def bool? : Value φ → Option Bool
  | bool value => some value
  | _ => Option.none

mutual

/-- equal by content, functions by identity -/
def eqv : Value φ → Value φ → Bool
  | none, none => true
  | int l, int r => l = r
  | str l, str r => l = r
  | bool l, bool r => l = r
  | list l, list r => eqvItems l r
  | builtin l, builtin r => l.id = r.id
  | closure l, closure r => l.identity = r.identity
  | _, _ => false

def eqvItems : List (Value φ) → List (Value φ) → Bool
  | [], [] => true
  | l :: ls, r :: rs => eqv l r && eqvItems ls rs
  | _, _ => false

end

mutual

/-- a value as programs print it -/
def render : Value → String
  | none => "none"
  | int value => toString value.toInt
  | str value => value
  | bool value => toString value
  | list items => "[" ++ renderItems items ++ "]"
  | builtin b => "<builtin " ++ b.name ++ ">"
  | closure c => "<closure #" ++ toString c.template.id ++ ">"

/-- values separated by commas -/
def renderItems : List Value → String
  | [] => ""
  | [item] => render item
  | item :: items => render item ++ ", " ++ renderItems items

end

mutual

theorem eqv_refl (v : Value φ) : eqv v v = true := by
  cases v <;> simp only [eqv, decide_true]
  exact eqvItems_refl _
termination_by structural v

theorem eqvItems_refl (vs : List (Value φ)) : eqvItems vs vs = true := by
  cases vs with
  | nil => rfl
  | cons v vs => simp only [eqvItems, eqv_refl v, eqvItems_refl vs, Bool.and_self]
termination_by structural vs

end

end Value

end TypedScript
