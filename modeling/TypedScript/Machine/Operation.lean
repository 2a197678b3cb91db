/-
What the machine's operators and subscripts give. Whole numbers are 64 bits wide and wrap around; division goes toward
zero and refuses a divisor of zero. A text counts its characters. `apply_add_str` says that adding texts joins them.
-/
import TypedScript.Fault
import TypedScript.Machine.Value

namespace TypedScript

variable {φ : Type}

/-- the fault that an operand is not of the kind wanted -/
def wrongOperand (expected : String) (received : Value φ) : RuntimeFault := .wrongOperand expected received.kind

namespace Value

/-- a value as a whole number -/
def asInt (v : Value φ) : Except RuntimeFault Int64 :=
  match v.int? with
  | some n => .ok n
  | Option.none => .error (wrongOperand "Int" v)

/-- a value as a truth value -/
def asBool (v : Value φ) : Except RuntimeFault Bool :=
  match v.bool? with
  | some b => .ok b
  | Option.none => .error (wrongOperand "Bool" v)

end Value

namespace BinaryOp

/-- two whole numbers under an operator that takes no others -/
def onInts (op : BinaryOp) (l r : Int64) : Except RuntimeFault (Value φ) :=
  match op with
  | add => .ok (.int (l + r))
  | subtract => .ok (.int (l - r))
  | multiply => .ok (.int (l * r))
  | divide => if r = 0 then .error .divisionByZero else .ok (.int (l / r))
  | modulo => if r = 0 then .error .divisionByZero else .ok (.int (l % r))
  | less => .ok (.bool (l < r))
  | lessEquals => .ok (.bool (l ≤ r))
  | greater => .ok (.bool (r < l))
  | greaterEquals => .ok (.bool (r ≤ l))
  | equals => .ok (.bool (l = r))
  | notEquals => .ok (.bool (l ≠ r))
  | and | or => .error (wrongOperand "Bool" (.int l : Value φ))

/-- an operator on two values; the left one is looked at first -/
def apply (op : BinaryOp) (left right : Value φ) : Except RuntimeFault (Value φ) :=
  match op, left, right with
  | add, .str l, .str r => .ok (.str (l ++ r))
  | equals, l, r => .ok (.bool (l.eqv r))
  | notEquals, l, r => .ok (.bool (!l.eqv r))
  | and, l, r => do
    let a ← l.asBool
    let b ← r.asBool
    return .bool (a && b)
  | or, l, r => do
    let a ← l.asBool
    let b ← r.asBool
    return .bool (a || b)
  | op, l, r => do
    let a ← l.asInt
    let b ← r.asInt
    op.onInts a b

theorem apply_add_str (l r : String) : apply add (.str l : Value φ) (.str r) = .ok (.str (l ++ r)) := rfl

end BinaryOp

namespace Value

/-- the element of a list at an index from zero on, or nothing -/
def itemAt (items : List (Value φ)) (index : Int64) : Value φ :=
  if index < 0 then none else (items[index.toInt.toNat]?).getD none

/-- the element of a list or the character of a text; there is none outside -/
def subscript (target index : Value φ) : Except RuntimeFault (Value φ) := do
  let i ← index.asInt
  match target with
  | list items => return itemAt items i
  | str text => return itemAt (text.toList.map fun c => str (String.singleton c)) i
  | other => throw (wrongOperand "List or Str" other)

end Value

end TypedScript
