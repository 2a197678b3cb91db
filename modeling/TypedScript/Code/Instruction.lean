/-
Code for the stack machine: constants, instructions and templates. A template is the code of one function body together
with the cells of its parameters; a constant may be a template, which becomes a function when it is pushed. The code of
a body is a list of instructions, and a jump names its target by its place in that list.
-/
import TypedScript.Text.Quoted
import TypedScript.Typing.Scope

namespace TypedScript

/-- the operators the machine knows -/
inductive BinaryOp
  | add
  | subtract
  | multiply
  | divide
  | modulo
  | less
  | lessEquals
  | greater
  | greaterEquals
  | equals
  | notEquals
  | and
  | or
deriving DecidableEq, Inhabited

namespace BinaryOp

/-- the operators by their spelling in source text -/
def spellings : List (String × BinaryOp) :=
  [("+", add), ("-", subtract), ("*", multiply), ("/", divide), ("%", modulo), ("<", less), ("<=", lessEquals),
  (">", greater), (">=", greaterEquals), ("==", equals), ("!=", notEquals), ("&&", and), ("||", or)]

def ofText? (operator : String) : Option BinaryOp := spellings.lookup operator

def render : BinaryOp → String
  | add => "ADD"
  | subtract => "SUB"
  | multiply => "MUL"
  | divide => "DIV"
  | modulo => "MOD"
  | less => "LT"
  | lessEquals => "LE"
  | greater => "GT"
  | greaterEquals => "GE"
  | equals => "EQ"
  | notEquals => "NE"
  | and => "AND"
  | or => "OR"

end BinaryOp

mutual

/-- a value known before the program runs -/
inductive Constant
  | none
  | int (value : Int64)
  | str (value : String)
  | bool (value : Bool)
  /-- a function over the frame in which it is pushed -/
  | function (template : Template)

inductive Instruction
  /-- leave the body with no value -/
  | halt
  | push (constant : Constant)
  | pop
  /-- make an empty cell in the running frame -/
  | reserve (cell : Cell)
  | load (cell : Cell)
  | store (cell : Cell)
  /-- push the running function -/
  | loadSelf
  /-- pop a truth value and go to the target if it is false -/
  | jumpIfFalse (target : Nat)
  /-- pop a function, then that many arguments, and call it -/
  | dispatch (count : Nat)
  /-- pop a value and leave the body with it -/
  | giveBack
  | binary (operator : BinaryOp)
  /-- pop that many values and push the list of them -/
  | makeList (count : Nat)
  /-- pop an index and a target and push the element -/
  | subscript
  /-- push an export of a module that has run -/
  | loadImport (module name : String)

/-- the code of a function body -/
structure Template where
  id : Nat
  parameters : List Cell
  code : List Instruction

end

/-- the code of one body -/
abbrev Code := List Instruction

instance : Inhabited Constant := ⟨.none⟩

instance : Inhabited Instruction := ⟨.halt⟩

instance : Inhabited Template := ⟨⟨0, [], []⟩⟩

namespace Constant

def render : Constant → String
  | none => "none"
  | int value => toString value.toInt
  | str value => quoted value
  | bool value => toString value
  | function template => "<closure #" ++ toString template.id ++ ">"

end Constant

namespace Instruction

def render : Instruction → String
  | halt => "HALT"
  | push constant => "PUSH " ++ constant.render
  | pop => "POP"
  | reserve cell => "RESERVE " ++ cell.render
  | load cell => "LOAD " ++ cell.render
  | store cell => "STORE " ++ cell.render
  | loadSelf => "LOAD_SELF"
  | jumpIfFalse target => "JUMP_IF_FALSE " ++ toString target
  | dispatch count => "DISPATCH " ++ toString count
  | giveBack => "RETURN"
  | binary operator => operator.render
  | makeList count => "MAKE_LIST " ++ toString count
  | subscript => "SUBSCRIPT"
  | loadImport module name => "IMPORT " ++ module ++ "." ++ name

/-- a place in code, in at least four digits -/
def renderPlace (place : Nat) : String :=
  let digits := toString place
  String.ofList (List.replicate (4 - digits.length) '0') ++ digits

end Instruction

namespace Code

/-- code with one more instruction, and the place of that instruction -/
def emit (code : Code) (i : Instruction) : Nat × Code := (code.length, code ++ [i])

/-- code with another instruction at a place -/
def patch (code : Code) (place : Nat) (i : Instruction) : Code := code.set place i

/-- a line for each instruction, its place and the instruction, from a place on -/
def renderFrom : Nat → Code → String
  | _, [] => ""
  | place, i :: code => Instruction.renderPlace place ++ " " ++ i.render ++ "\n" ++ renderFrom (place + 1) code

def render (code : Code) : String := renderFrom 0 code

end Code

namespace Template

/-- the templates pushed by code -/
def pushed : Code → List Template
  | [] => []
  | .push (.function template) :: code => template :: pushed code
  | _ :: code => pushed code

/-- the templates of the function literals that stand directly in the body -/
def nested (t : Template) : List Template := pushed t.code

/-- the line that stands before a template's code -/
def header (t : Template) : String :=
  "closure #" ++ toString t.id ++ " (" ++ " ".intercalate (t.parameters.map Cell.render) ++ ")\n"

mutual

/-- a template and then every nested one, each before those nested in it -/
def render : Template → String
  | ⟨id, parameters, code⟩ => header ⟨id, parameters, code⟩ ++ Code.render code ++ renderPushed code

/-- the templates pushed by code, one after the other -/
def renderPushed : List Instruction → String
  | [] => ""
  | i :: code => renderInstruction i ++ renderPushed code

/-- the template that an instruction pushes, if it pushes one -/
def renderInstruction : Instruction → String
  | .push constant => renderConstant constant
  | _ => ""

/-- the template that a constant is, if it is one -/
def renderConstant : Constant → String
  | .function template => render template
  | _ => ""

end

mutual

/-- the length of the longest code among a template and those nested in it -/
def longest : Template → Nat
  | ⟨_, _, code⟩ => max code.length (longestPushed code)

def longestPushed : List Instruction → Nat
  | [] => 0
  | i :: code => max (longestIn i) (longestPushed code)

def longestIn : Instruction → Nat
  | .push constant => longestOf constant
  | _ => 0

def longestOf : Constant → Nat
  | .function template => longest template
  | _ => 0

end

end Template

end TypedScript
