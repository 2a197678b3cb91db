/-
The bound tree that the check of a module finds. `Check.bindExpr` and its companions follow the check through a tree:
each name is bound to the cell of the variable that the check finds for it when it comes to the name, and each declared
name to the cell that the check makes for it. What the check has built when it comes to a part of the tree is what it
has built by checking all that stands before that part.
-/
import TypedScript.Proofs.Bound.Tree

namespace TypedScript

namespace Check

/-- what has been built when a piece of checking is over -/
def past {α : Type} (x : Check α) (r : Record) : Record := (x r).2

/-- the variables that parameters are declared as -/
def bindParams (scope : ScopeId) (r : Record) : List Parameter → Option (List Cell)
  | [] => some []
  | param :: params => do
    let declared := newParameter scope param.name (.ofNote param.note) param.span.start
    let cell ← (declared r).1
    let rest ← bindParams scope (past declared r) params
    return cell :: rest

/-- the names that an import declares, with their types -/
def importedAs (p : Place) (path : String) (dependency : ScopeId) (span : Span) (r : Record) :
    Option (List String) → List (String × Ty)
  | some names => (importedNames p path dependency span names r).1
  | none => r.arena.exports dependency

/-- the variables that imported names are declared as -/
def bindImports (p : Place) (span : Span) (r : Record) : List (String × Ty) → Option (List (String × Cell))
  | [] => some []
  | (name, ty) :: names => do
    let declared := newVariable p.global name ty span.start
    let cell ← (declared r).1
    let rest ← bindImports p span (past declared r) names
    return (name, cell) :: rest

/-- the variable that is assigned to -/
def bindTarget (p : Place) (r : Record) : Expr → Option Cell
  | .ident name _ => (r.arena.lookup? p.scope name).map Variable.cell
  | _ => none

/-- the check of an expression whose value is used -/
def value (p : Place) (e : Expr) : Check Ty := expr p e >>= asValue p e.span

variable (keyOf : String → Option String)

mutual

/-- an expression with each of its names bound to the cell of the variable that the check finds for it; `keyOf` gives
the key of the module that an import's path leads to -/
def bindExpr (p : Place) (r : Record) : Expr → Option Bound.Expr
  | .number value _ => some (.number value)
  | .text value _ => some (.text value)
  | .truth value _ => some (.truth value)
  | .ident name _ => (r.arena.lookup? p.scope name).map fun v => .read v.cell
  | .self _ => some .self
  | .list items _ => (bindExprs p r items).map .list
  | .function id params result body _ =>
    let signature : Signature := ⟨params.map fun param => .ofNote param.note, .ofNote result⟩
    let scope := (openScope p id signature r).1
    let opened := past (openScope p id signature) r
    do
      let cells ← bindParams scope opened params
      let bound ← bindBlock { p with scope } (past (declareParams scope params) opened) body
      return .function ⟨scope - p.global, signature, cells, Bound.Stmt.declaredIn bound, bound⟩
  | .call callee arguments _ => do
    let given ← bindExprs p r arguments
    let function ← bindExpr p (past (values p arguments) r) callee
    return .call function given
  | .assign target assigned _ => do
    let bound ← bindExpr p r assigned
    let cell ← bindTarget p (past (value p assigned) r) target
    return .assign cell bound
  | .binary operator left right _ => do
    let l ← bindExpr p r left
    let r ← bindExpr p (past (value p left) r) right
    let op ← BinaryOp.ofText? operator
    return .binary op l r
  | .subscript target index _ => do
    let t ← bindExpr p r target
    let i ← bindExpr p (past (value p target) r) index
    return .subscript t i

/-- expressions whose values are used, one after the other -/
def bindExprs (p : Place) (r : Record) : List Expr → Option (List Bound.Expr)
  | [] => some []
  | e :: es => do
    let bound ← bindExpr p r e
    let rest ← bindExprs p (past (value p e) r) es
    return bound :: rest

def bindDeclaration (p : Place) (r : Record) : Declaration → Option Bound.Stmt
  | ⟨name, note, initial, span⟩ => do
    let bound ← bindExpr p r initial
    let ty := (value p initial r).1
    let cell ← (newVariable p.scope name ((note.map Ty.ofNote).getD ty) span.start (past (value p initial) r)).1
    return .declare cell bound

def bindStmt (p : Place) (r : Record) : Stmt → Option Bound.Stmt
  | .cond condition body _ => do
    let test ← bindExpr p r condition
    let inner ← bindBlock { p with conditional := true } (past (value p condition) r) body
    return .cond test inner
  | .declare d => bindDeclaration p r d
  | .giveBack none _ => some (.giveBack none)
  | .giveBack (some e) _ => (bindExpr p r e).map fun bound => .giveBack (some bound)
  | .eval e _ => (bindExpr p r e).map .eval
  | .pub d _ => bindDeclaration p r d
  | .use path names span => do
    let module ← keyOf path
    let dependency ← p.imports.find? path
    let cells ← bindImports p span r (importedAs p path dependency span r names)
    return .use module cells

def bindStmts (p : Place) (r : Record) : List Stmt → Option (List Bound.Stmt)
  | [] => some []
  | s :: ss => do
    let bound ← bindStmt p r s
    let rest ← bindStmts p (past (stmt p s) r) ss
    return bound :: rest

def bindBlock (p : Place) (r : Record) : Block → Option (List Bound.Stmt)
  | ⟨body, _⟩ => bindStmts p r body

end

/-- the body of a module that is checked in a new global scope of an arena -/
def bindModule (arena : Arena) (imports : Imports) (body : Block) : Option Bound.Function := do
  let (global, opened) := arena.newGlobal
  let bound ← bindBlock keyOf ⟨imports, global, global, false⟩ ⟨opened, .empty⟩ body
  return ⟨0, Bound.moduleSignature, [], Bound.Stmt.declaredIn bound, bound⟩

end Check

end TypedScript
