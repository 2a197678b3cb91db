/-
How tightly a token binds the expression before it. `ofToken` gives the power of each token that may follow an operand;
any other token has the weakest power and so ends the expression.
-/
import TypedScript.Token

namespace TypedScript

/-- from the weakest to the tightest -/
inductive BindingPower
  | default
  | assignment
  | logicalOr
  | logicalAnd
  | relational
  | additive
  | multiplicative
  | call
deriving DecidableEq, Inhabited

namespace BindingPower

def rank : BindingPower → Nat
  | default => 0
  | assignment => 1
  | logicalOr => 2
  | logicalAnd => 3
  | relational => 4
  | additive => 5
  | multiplicative => 6
  | call => 7

/-- the name a power is shown by -/
def name : BindingPower → String
  | default => "Default"
  | assignment => "Assignment"
  | logicalOr => "LogicalOr"
  | logicalAnd => "LogicalAnd"
  | relational => "Relational"
  | additive => "Additive"
  | multiplicative => "Multiplicative"
  | call => "Call"

/-- every power, from the weakest to the tightest -/
def all : List BindingPower :=
  [default, assignment, logicalOr, logicalAnd, relational, additive, multiplicative, call]

/-- the power shown by a name -/
def ofName? (name : String) : Option BindingPower := all.find? fun p => p.name = name

/-- `p` binds less tightly than `q` -/
def weaker (p q : BindingPower) : Bool := p.rank < q.rank

def ofToken : TokenKind → BindingPower
  | .assignment => assignment
  | .or => logicalOr
  | .and => logicalAnd
  | .less | .lessEquals | .greater | .greaterEquals | .equals | .notEquals => relational
  | .plus | .dash => additive
  | .star | .slash | .percent => multiplicative
  | .openParen | .openBracket => call
  | _ => default

end BindingPower

end TypedScript
