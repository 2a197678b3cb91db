/-
What binary operators, and subscripts of what is not a list, take and give. Each rule names an operator, its two operand
types and its result; the first rule of the operator that fits both operands decides. An operand of type `Any` fits
every rule.
-/
import TypedScript.Typing.Ty

namespace TypedScript

structure OperatorRule where
  operator : String
  left : Ty
  right : Ty
  result : Ty
deriving Inhabited

/-- why an operator has no result -/
inductive OperatorError
  /-- no rule names the operator -/
  | unknown
  /-- no rule of the operator fits the operands -/
  | mismatch
deriving DecidableEq, Inhabited

namespace OperatorRule

/-- the subscript among the operators -/
def subscript : String := "["

/-- two operands of one type -/
def same (operand result : Ty) (operator : String) : OperatorRule := ⟨operator, operand, operand, result⟩

/-- every rule, in the order in which they are tried -/
def all : List OperatorRule :=
  [same .int .int "+", same .str .str "+", ⟨subscript, .str, .int, .optional .str⟩]
    ++ ["-", "*", "/", "%"].map (same .int .int)
    ++ ["<", "<=", ">", ">="].map (same .int .bool)
    ++ ["==", "!="].flatMap (fun op => [.int, .str, .bool].map fun operand => same operand .bool op)
    ++ ["&&", "||"].map (same .bool .bool)

/-- the rule fits the two operands -/
def fits (rule : OperatorRule) (left right : Ty) : Bool := rule.left.equals left && rule.right.equals right

end OperatorRule

/-- the type of an operator's result -/
def resolveOperator (operator : String) (left right : Ty) : Except OperatorError Ty :=
  let rules := OperatorRule.all.filter fun rule => rule.operator = operator
  match rules.find? fun rule => rule.fits left right with
  | some rule => .ok rule.result
  | none => .error (if rules.isEmpty then .unknown else .mismatch)

end TypedScript
