/-
Faults other than those of source text. An `InternalFault` says that two parts of the tool chain disagree about a
program; a `RuntimeFault` stops a running program.
-/
import TypedScript.Text.Quoted

namespace TypedScript

inductive InternalFault
  /-- a module is needed by itself -/
  | malformedGraph (module : String)
  | unlinkedImport (path : String)
  /-- a function literal was never checked -/
  | missingFunctionScope (id : Nat)
  | missingVariable (name : String)
  | invalidAssignee
  | unknownOperator (operator : String)
  | uncheckedModule (path : String)
deriving DecidableEq, Inhabited

namespace InternalFault

/-- the name of the kind of fault -/
def name : InternalFault → String
  | malformedGraph _ => "MalformedGraph"
  | unlinkedImport _ => "UnlinkedImport"
  | missingFunctionScope _ => "MissingFunctionScope"
  | missingVariable _ => "MissingVariable"
  | invalidAssignee => "InvalidAssignee"
  | unknownOperator _ => "UnknownOperator"
  | uncheckedModule _ => "UncheckedModule"

def message : InternalFault → String
  | malformedGraph module =>
    "module graph is not a DAG: " ++ quoted module ++ " was revisited while still in progress"
  | unlinkedImport path => "import " ++ quoted path ++ " was never linked"
  | missingFunctionScope id => "no scope was recorded for function literal #" ++ toString id
  | missingVariable name => "variable " ++ quoted name ++ " has no cell"
  | invalidAssignee => "only variables can be assigned to"
  | unknownOperator operator => "operator " ++ quoted operator ++ " has no instruction"
  | uncheckedModule path => "module " ++ quoted path ++ " has not been checked"

end InternalFault

inductive RuntimeFault
  /-- no frame in reach has the cell -/
  | missingCell (id : Nat) (name : String)
  /-- the cell is in reach and empty -/
  | uninitialisedCell (id : Nat) (name : String)
  | stackUnderflow
  | wrongOperand (expected received : String)
  | notCallable (received : String)
  | noSelf
  | divisionByZero
  | callDepthExceeded (limit : Nat)
  /-- a builtin of the host failed -/
  | host (name message : String)
  | missingExport (module name : String)
deriving DecidableEq, Inhabited

namespace RuntimeFault

/-- the name of the kind of fault -/
def name : RuntimeFault → String
  | missingCell _ _ => "MissingCell"
  | uninitialisedCell _ _ => "UninitialisedCell"
  | stackUnderflow => "StackUnderflow"
  | wrongOperand _ _ => "WrongOperand"
  | notCallable _ => "NotCallable"
  | noSelf => "NoSelf"
  | divisionByZero => "DivisionByZero"
  | callDepthExceeded _ => "CallDepthExceeded"
  | host _ _ => "Host"
  | missingExport _ _ => "MissingExport"

def message : RuntimeFault → String
  | missingCell id name => "cell #" ++ toString id ++ " (" ++ name ++ ") is not reachable from the current environment"
  | uninitialisedCell id name => "cell #" ++ toString id ++ " (" ++ name ++ ") was read before it was assigned"
  | stackUnderflow => "operand stack underflow"
  | wrongOperand expected received => "expected " ++ expected ++ " operand, got " ++ received
  | notCallable received => "cannot call a value of kind " ++ received
  | noSelf => "`self` used outside of a function"
  | divisionByZero => "division by zero"
  | callDepthExceeded limit => "call depth exceeded " ++ toString limit
  | host name message => "builtin " ++ name ++ " failed: " ++ message
  | missingExport module name => "module " ++ quoted module ++ " does not export " ++ quoted name

end RuntimeFault

end TypedScript
