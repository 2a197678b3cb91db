/-
Code for a checked module. Each function body becomes a template of its own, the body of the module included. The code
of a body first makes a cell for every variable of the body's scope that is not a parameter, and then runs the
statements. An expression's code leaves one value, a statement's code leaves none.

A name does not mean the last variable of that name but the one it meant when it was checked, so declarations are
counted again as their code is laid down: a variable of a scope can be meant only once its declaration is behind.
-/
import TypedScript.Code.Instruction
import TypedScript.Linking.Program

namespace TypedScript

namespace Compile

/-- what code is laid down for: a module of a program -/
structure Job where
  program : Program
  module : LinkedModule

/-- how far code has been laid down -/
structure Progress where
  /-- how many variables of each scope have been declared so far -/
  visible : Table ScopeId Nat
  /-- the number of the next template. There is one for each function literal, so that a counter of 32 bits has the same
  numbers as long as one does in a cursor (`Cursor.nextId`). -/
  nextTemplate : Nat
deriving Inhabited

end Compile

/-- laying down code -/
abbrev Compile := StateT Compile.Progress (Except InternalFault)

namespace Compile

def freshTemplate : Compile Nat :=
  modifyGet fun s => (s.nextTemplate, { s with nextTemplate := s.nextTemplate + 1 })

/-- let the first `count` variables of a scope be meant -/
def setVisible (scope : ScopeId) (count : Nat) : Compile Unit :=
  modify fun s => { s with visible := s.visible.insert scope count }

/-- the place and the cell of a name in a scope -/
def place? (arena : Arena) (scope : ScopeId) (name : String) : Option (Nat × Cell) := do
  let s ← arena.get? scope
  let index ← s.variableIndex? name
  let v ← s.variableAt? index
  return (index, v.cell)

/-- the cell of a variable whose declaration is laid down; from here on its name can mean it -/
def declare (job : Job) (scope : ScopeId) (name : String) : Compile Cell :=
  match place? job.program.arena scope name with
  | some (index, cell) => do
    setVisible scope (index + 1)
    return cell
  | none => throw (.missingVariable name)

/-- the cell that a name means in a scope, where `visible` counts the variables declared so far -/
def resolve? (arena : Arena) (visible : Table ScopeId Nat) (scope : ScopeId) (name : String) : Option Cell :=
  (arena.chain scope).findSome? fun s =>
    match place? arena s name with
    | some (index, cell) => if index < (visible.find? s).getD 0 then some cell else none
    | none => none

/-- the cell that a name means at this point -/
def resolve (job : Job) (scope : ScopeId) (name : String) : Compile Cell := do
  match resolve? job.program.arena (← get).visible scope name with
  | some cell => return cell
  | none => throw (.missingVariable name)

/-- the scope that was opened for a function literal -/
def functionScope (job : Job) (id : Nat) : Compile ScopeId :=
  match job.module.scopes.functions.find? id with
  | some scope => return scope
  | none => throw (.missingFunctionScope id)

/-- the module that an import's path leads to -/
def linkedModule (job : Job) (path : String) : Compile LinkedModule :=
  match (job.module.links.find? path).bind fun i => job.program.modules[i]? with
  | some m => return m
  | none => throw (.unlinkedImport path)

/-- code that fetches each of a module's exports into the variable that an import declares for it -/
def imports (job : Job) (scope : ScopeId) (key : String) : List String → Compile Code
  | [] => return []
  | name :: names => do
    let cell ← declare job scope name
    let rest ← imports job scope key names
    return .loadImport key name :: .store cell :: rest

/-- the exports that an import asks for and gets -/
def importedNames (exports : List (String × Ty)) : Option (List String) → List String
  | none => exports.map Prod.fst
  | some names => names.filter fun name => exports.any fun e => e.1 = name

/-- an import -/
def use (job : Job) (scope : ScopeId) (path : String) (names : Option (List String)) : Compile Code := do
  let dependency ← linkedModule job path
  let exports := job.program.arena.exports dependency.scopes.global
  imports job scope dependency.module.key (importedNames exports names)

/-- the variable that an assignment stores to -/
def assignee (job : Job) (scope : ScopeId) : Expr → Compile Cell
  | .ident name _ => resolve job scope name
  | _ => throw .invalidAssignee

/-- an operator the machine knows -/
def operator (text : String) : Compile BinaryOp :=
  match BinaryOp.ofText? text with
  | some op => return op
  | none => throw (.unknownOperator text)

/-- the cells of a scope's parameters -/
def parameterCells (job : Job) (scope : ScopeId) : List Cell :=
  ((job.program.arena.get? scope).map fun s => s.parameters.map Variable.cell).getD []

/-- a cell for every variable of a scope that is not a parameter -/
def reservations (job : Job) (scope : ScopeId) : Code :=
  ((job.program.arena.get? scope).map fun s => s.locals.map fun v => Instruction.reserve v.cell).getD []

/-- how the code of a body ends where no statement has left the body -/
def ending : (isModule : Bool) → Code
  | true => [.halt]
  | false => [.push .none, .giveBack]

mutual

/-- code that leaves an expression's value -/
def expr (job : Job) (scope : ScopeId) : Expr → Compile Code
  | .number value _ => return [.push (.int value)]
  | .text value _ => return [.push (.str value)]
  | .truth value _ => return [.push (.bool value)]
  | .ident name _ => return [.load (← resolve job scope name)]
  | .self _ => return [.loadSelf]
  | .function id _ _ body _ => do
    let bodyScope ← functionScope job id
    let inner ← template job bodyScope false body
    return [.push (.function inner)]
  | .call callee arguments _ => do
    let given ← exprs job scope arguments
    let function ← expr job scope callee
    return given ++ function ++ [.dispatch arguments.length]
  | .assign target value _ => do
    let code ← expr job scope value
    let cell ← assignee job scope target
    return code ++ [.store cell, .push .none]
  | .binary op left right _ => do
    let l ← expr job scope left
    let r ← expr job scope right
    return l ++ r ++ [.binary (← operator op)]
  | .subscript target index _ => do
    let t ← expr job scope target
    let i ← expr job scope index
    return t ++ i ++ [.subscript]
  | .list items _ => do
    let code ← exprs job scope items
    return code ++ [.makeList items.length]

/-- code that leaves the values of expressions, the last one on top -/
def exprs (job : Job) (scope : ScopeId) : List Expr → Compile Code
  | [] => return []
  | e :: es => do
    let code ← expr job scope e
    let rest ← exprs job scope es
    return code ++ rest

/-- code that stores a declared variable's first value -/
def declaration (job : Job) (scope : ScopeId) : Declaration → Compile Code
  | ⟨name, _, value, _⟩ => do
    let code ← expr job scope value
    let cell ← declare job scope name
    return code ++ [.store cell]

/-- code for a statement whose first instruction stands at `start`; an assignment leaves no value behind to pop -/
def stmt (job : Job) (scope : ScopeId) (start : Nat) : Stmt → Compile Code
  | .eval (.assign target value _) _ => do
    let code ← expr job scope value
    let cell ← assignee job scope target
    return code ++ [.store cell]
  | .eval e _ => do
    let code ← expr job scope e
    return code ++ [.pop]
  | .declare d => declaration job scope d
  | .pub d _ => declaration job scope d
  | .cond condition ⟨body, _⟩ _ => do
    let test ← expr job scope condition
    let inner := start + test.length + 1
    let code ← stmts job scope inner body
    return test ++ .jumpIfFalse (inner + code.length) :: code
  | .giveBack none _ => return [.push .none, .giveBack]
  | .giveBack (some e) _ => do
    let code ← expr job scope e
    return code ++ [.giveBack]
  | .use path names _ => use job scope path names

/-- code for statements, the first of which starts at `start` -/
def stmts (job : Job) (scope : ScopeId) (start : Nat) : List Stmt → Compile Code
  | [] => return []
  | s :: ss => do
    let code ← stmt job scope start s
    let rest ← stmts job scope (start + code.length) ss
    return code ++ rest

/-- the template of a body that runs in a scope -/
def template (job : Job) (scope : ScopeId) (isModule : Bool) : Block → Compile Template
  | ⟨body, _⟩ => do
    let id ← freshTemplate
    let parameters := parameterCells job scope
    setVisible scope parameters.length
    let cells := reservations job scope
    let code ← stmts job scope cells.length body
    return ⟨id, parameters, cells ++ code ++ ending isModule⟩

end

end Compile

/-- the template of a source module's body; a native module has none -/
def Program.compileModule (p : Program) (m : LinkedModule) : Except InternalFault (Option Template) :=
  match m.module.content with
  | .native _ => return none
  | .source body => do
    let (template, _) ← (Compile.template ⟨p, m⟩ m.scopes.global true body).run ⟨.empty, 0⟩
    return some template

/-- the templates of all modules, in the order of the modules -/
def Program.compile (p : Program) : Except InternalFault (List (Option Template)) := p.modules.mapM p.compileModule

end TypedScript
