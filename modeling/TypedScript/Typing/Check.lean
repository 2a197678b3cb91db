/-
Checking a module. The check walks the tree of a module once, in source order, declares what the module declares in an
arena of scopes and reports every fault on the module's global scope; it never stops early. An expression that fails has
the type `error`, which is reported where it arises and nowhere else. What is left behind for code generation is the
global scope and the scope of each function literal.
-/
import TypedScript.Table
import TypedScript.Typing.Operator
import TypedScript.Typing.Scope

namespace TypedScript

/-- the global scopes of the modules that a module imports, by the path its imports name -/
abbrev Imports := Table String ScopeId

/-- the scopes of a checked module -/
structure ModuleScopes where
  global : ScopeId
  /-- the scope of each function literal -/
  functions : Table Nat ScopeId
deriving Inhabited

namespace Check

/-- where the check is: in which module, in which scope, and whether inside a condition's body -/
structure Place where
  imports : Imports
  global : ScopeId
  scope : ScopeId
  conditional : Bool

/-- directly in the body of the module -/
def Place.atTop (p : Place) : Bool := p.scope = p.global && !p.conditional

/-- what the check has built so far -/
structure Record where
  arena : Arena
  functions : Table Nat ScopeId
deriving Inhabited

end Check

/-- checking, with all that has been built so far at hand -/
abbrev Check := StateM Check.Record

namespace Check

def report (p : Place) (position : Position) (text : String) : Check Unit :=
  modify fun r => { r with arena := r.arena.report p.scope position text }

/-- report and give the type of what failed -/
def refuse (p : Place) (position : Position) (text : String) : Check Ty := do
  report p position text
  return .error

def newVariable (scope : ScopeId) (name : String) (ty : Ty) (position : Position) : Check (Option Cell) :=
  modifyGet fun r =>
    let (cell, arena) := r.arena.newVariable scope name ty position
    (cell, { r with arena })

def newParameter (scope : ScopeId) (name : String) (ty : Ty) (position : Position) : Check (Option Cell) :=
  modifyGet fun r =>
    let (cell, arena) := r.arena.newParameter scope name ty position
    (cell, { r with arena })

def addExport (scope : ScopeId) (name : String) (ty : Ty) (position : Position) : Check Bool :=
  modifyGet fun r =>
    let (added, arena) := r.arena.addExport scope name ty position
    (added, { r with arena })

/-- open the scope of a function literal -/
def openScope (p : Place) (id : Nat) (signature : Signature) : Check ScopeId :=
  modifyGet fun r =>
    let (scope, arena) := r.arena.newLocal p.scope signature
    (scope, ⟨arena, r.functions.insert id scope⟩)

/-- a type between the quotes of a message -/
def inQuotes (ty : Ty) : String := "'" ++ ty.render ++ "'"

/-- the type of a name -/
def ident (p : Place) (name : String) (span : Span) : Check Ty := do
  match (← get).arena.lookup? p.scope name with
  | some v => return v.ty
  | none => refuse p span.start ("'" ++ name ++ "' is not declared")

/-- the type of the function around a place -/
def selfReference (p : Place) (span : Span) : Check Ty := do
  match (← get).arena.signature? p.scope with
  | some signature => return signature.ty
  | none => refuse p span.start "'self' can only be used inside a function"

/-- what a value has to be; a call of a function that gives nothing is none -/
def asValue (p : Place) (span : Span) (ty : Ty) : Check Ty :=
  if ty.isVoid then refuse p span.start "expected a value, got 'Void'" else return ty

/-- the result of an operator on two operands -/
def binary (p : Place) (operator : String) (left right : Ty) (span : Span) : Check Ty :=
  if left.isError || right.isError then return .error
  else
    match resolveOperator operator left right with
    | .ok ty => return ty
    | .error .unknown => refuse p span.start ("unknown operator '" ++ operator ++ "'")
    | .error .mismatch =>
      refuse p span.start ("cannot apply '" ++ operator ++ "' to " ++ inQuotes left ++ " and " ++ inQuotes right)

/-- the element of a list, which may be missing, or what the subscript operator gives -/
def subscript (p : Place) (target index : Ty) (indexSpan span : Span) : Check Ty :=
  if target.isError || index.isError then return .error
  else
    match target with
    | .list element =>
      if Ty.int.equals index then return .optional element
      else refuse p indexSpan.start ("expected list index of type 'Int', got " ++ inQuotes index)
    | _ =>
      match resolveOperator OperatorRule.subscript target index with
      | .ok ty => return ty
      | .error _ => refuse p span.start ("cannot subscript " ++ inQuotes target ++ " with " ++ inQuotes index)

/-- compare arguments, each with its place in the text, with parameters, counting from `index` -/
def compareArguments (p : Place) : Nat → List Ty → List (Ty × Span) → Check Unit
  | index, expected :: params, (received, span) :: arguments => do
    if !received.isError && !expected.equals received then
      report p span.start ("expected argument " ++ toString index ++ " to be " ++ inQuotes expected ++ ", got "
        ++ inQuotes received)
    compareArguments p (index + 1) params arguments
  | _, _, _ => return ()

/-- the result of a call -/
def call (p : Place) (callee : Ty) (arguments : List (Ty × Span)) (span : Span) : Check Ty := do
  match callee with
  | .error => return .error
  | .any => return .any
  | .function params result =>
    if params.length ≠ arguments.length then
      refuse p span.start ("expected " ++ toString params.length ++ " arguments, got " ++ toString arguments.length)
    else
      compareArguments p 1 params arguments
      return result
  | other => refuse p span.start ("cannot call function on type " ++ inQuotes other)

/-- the complaint about an assignment to anything but a variable -/
def onlyVariables : String := "only variables can be assigned to"

/-- the assignment of a value to an expression -/
def assign (p : Place) (target : Expr) (value : Ty) (valueSpan : Span) : Check Ty := do
  match target with
  | .ident name span =>
    match (← get).arena.lookup? p.scope name with
    | none => refuse p span.start ("'" ++ name ++ "' is not declared")
    | some v =>
      if !value.isError && !v.ty.isError && !v.ty.equals value then
        report p valueSpan.start ("cannot assign " ++ inQuotes value ++ " to '" ++ name ++ "' of type "
          ++ inQuotes v.ty)
      return .void
  | _ => refuse p target.span.start onlyVariables

/-- the variable of a declaration, and its type if the name was free -/
def declare (p : Place) (name : String) (note : Option Note) (value : Ty) (valueSpan span : Span) :
    Check (Option Ty) := do
  let ty := (note.map Ty.ofNote).getD value
  if note.isSome && !value.isError && !ty.equals value then
    report p valueSpan.start ("cannot declare '" ++ name ++ "' as " ++ inQuotes ty ++ " with a value of type "
      ++ inQuotes value)
  let cell ← newVariable p.scope name ty span.start
  return cell.map fun _ => ty

/-- a value given back from a function -/
def giveBack (p : Place) (value : Option (Ty × Span)) (span : Span) : Check Unit := do
  match (← get).arena.signature? p.scope with
  | none => report p span.start "cannot return outside of a function"
  | some signature =>
    let expected := signature.result
    match value with
    | none =>
      if !expected.isVoid then
        report p span.start ("expected to return " ++ inQuotes expected ++ ", got no value")
    | some (received, valueSpan) =>
      if received.isError then return ()
      else if expected.isVoid then
        report p valueSpan.start ("expected no return value, got " ++ inQuotes received)
      else if !expected.equals received then
        report p valueSpan.start ("expected to return " ++ inQuotes expected ++ ", got " ++ inQuotes received)

/-- the exports among the names an import asks for -/
def importedNames (p : Place) (path : String) (dependency : ScopeId) (span : Span) :
    List String → Check (List (String × Ty))
  | [] => return []
  | name :: names => do
    match (← get).arena.export? dependency name with
    | some ty => return (name, ty) :: (← importedNames p path dependency span names)
    | none =>
      report p span.start ("'" ++ name ++ "' is not exported by '" ++ path ++ "'")
      importedNames p path dependency span names

/-- declare imported names in the module's global scope -/
def declareImported (p : Place) (span : Span) : List (String × Ty) → Check Unit
  | [] => return ()
  | (name, ty) :: names => do
    let _ ← newVariable p.global name ty span.start
    declareImported p span names

/-- an import -/
def use (p : Place) (path : String) (names : Option (List String)) (span : Span) : Check Unit := do
  if !p.atTop then report p span.start "'use' is only allowed at the top level of a module"
  else
    match p.imports.find? path with
    | none => report p span.start ("module '" ++ path ++ "' was not resolved")
    | some dependency =>
      match names with
      | some names => declareImported p span (← importedNames p path dependency span names)
      | none => declareImported p span ((← get).arena.exports dependency)

/-- declare the parameters of a function literal in its scope -/
def declareParams (scope : ScopeId) : List Parameter → Check Unit
  | [] => return ()
  | param :: params => do
    let _ ← newParameter scope param.name (.ofNote param.note) param.span.start
    declareParams scope params

mutual

/-- the type of an expression -/
def expr (p : Place) : Expr → Check Ty
  | .number _ _ => return .int
  | .text _ _ => return .str
  | .truth _ _ => return .bool
  | .ident name span => ident p name span
  | .self span => selfReference p span
  | .list items span => list p items span
  | .function id params result body _ => do
    let signature : Signature := ⟨params.map fun param => .ofNote param.note, .ofNote result⟩
    let scope ← openScope p id signature
    declareParams scope params
    block { p with scope } body
    return signature.ty
  | .call callee arguments span => do
    let received ← values p arguments
    let function ← expr p callee >>= asValue p callee.span
    call p function received span
  | .assign target assigned _ => do
    let ty ← expr p assigned >>= asValue p assigned.span
    assign p target ty assigned.span
  | .binary operator left right span => do
    let l ← expr p left >>= asValue p left.span
    let r ← expr p right >>= asValue p right.span
    binary p operator l r span
  | .subscript target index span => do
    let t ← expr p target >>= asValue p target.span
    let i ← expr p index >>= asValue p index.span
    subscript p t i index.span span

/-- the types of expressions whose values are used, each with its place in the text -/
def values (p : Place) : List Expr → Check (List (Ty × Span))
  | [] => return []
  | e :: es => do
    let ty ← expr p e >>= asValue p e.span
    let tys ← values p es
    return (ty, e.span) :: tys

/-- the type of a list, which its first element decides -/
def list (p : Place) (items : List Expr) (span : Span) : Check Ty := do
  match items with
  | [] => refuse p span.start "cannot infer the element type of an empty list"
  | first :: rest =>
    let element ← expr p first >>= asValue p first.span
    let agree ← elements p element rest
    return if element.isError || !agree then .error else .list element

/-- the elements behind the first one agree with it; the first that does not is reported -/
def elements (p : Place) (element : Ty) : List Expr → Check Bool
  | [] => return true
  | e :: es => do
    let ty ← expr p e >>= asValue p e.span
    if element.isError || ty.isError || element.equals ty then elements p element es
    else
      report p e.span.start ("expected list element of type " ++ inQuotes element ++ ", got " ++ inQuotes ty)
      discard <| values p es
      return false

def declaration (p : Place) : Declaration → Check (Option Ty)
  | ⟨name, note, initial, span⟩ => do
    let ty ← expr p initial >>= asValue p initial.span
    declare p name note ty initial.span span

def stmt (p : Place) : Stmt → Check Unit
  | .cond condition body _ => do
    let ty ← expr p condition >>= asValue p condition.span
    if !ty.isError && !Ty.bool.equals ty then
      report p condition.span.start ("expected condition of type 'Bool', got " ++ inQuotes ty)
    block { p with conditional := true } body
  | .declare d => discard <| declaration p d
  | .giveBack none span => giveBack p none span
  | .giveBack (some e) span => do
    let ty ← expr p e >>= asValue p e.span
    giveBack p (some (ty, e.span)) span
  | .eval e _ => discard <| expr p e
  | .pub d span => do
    if !p.atTop then
      report p span.start Arena.exportNotAtTop
      discard <| declaration p d
    else
      match ← declaration p d with
      | some ty => discard <| addExport p.scope d.name ty span.start
      | none => return ()
  | .use path names span => use p path names span

def stmts (p : Place) : List Stmt → Check Unit
  | [] => return ()
  | s :: ss => do
    stmt p s
    stmts p ss

def block (p : Place) : Block → Check Unit
  | ⟨body, _⟩ => stmts p body

end

end Check

/-- check the body of a module in a new global scope of an arena -/
def checkModule (arena : Arena) (body : Block) (imports : Imports) : ModuleScopes × Arena :=
  let (global, arena) := arena.newGlobal
  let (_, record) := (Check.block ⟨imports, global, global, false⟩ body).run ⟨arena, .empty⟩
  (⟨global, record.functions⟩, record.arena)

end TypedScript
