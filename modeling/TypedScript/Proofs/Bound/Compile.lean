/-
The bound tree that code is laid down for. `Compile.bindExpr` and its companions ask for cells just as the laying down
of code does, in the same order and with the same faults, and keep the tree; what is left of laying down code needs no
names.

- `Compile.expr_eq`, `Compile.stmt_eq`: the code of an expression or a statement is that of its bound tree.
- `Compile.template_eq`: the template of a body is that of its bound tree.
-/
import TypedScript.Proofs.Bound.Tree

namespace TypedScript

namespace Compile

/-! ## Binding -/

/-- the cells of a scope's variables that are not parameters -/
def localCells (job : Job) (scope : ScopeId) : List Cell :=
  ((job.program.arena.get? scope).map fun s => s.locals.map Variable.cell).getD []

/-- the cells that an import declares its names in -/
def bindImports (job : Job) (scope : ScopeId) : List String → Compile (List (String × Cell))
  | [] => return []
  | name :: names => do
    let cell ← declare job scope name
    let rest ← bindImports job scope names
    return (name, cell) :: rest

mutual

/-- an expression with each of its names bound to the cell that its code gets -/
def bindExpr (job : Job) (scope : ScopeId) : Expr → Compile Bound.Expr
  | .number value _ => return .number value
  | .text value _ => return .text value
  | .truth value _ => return .truth value
  | .ident name _ => return .read (← resolve job scope name)
  | .self _ => return .self
  | .function id params result body _ => do
    let bodyScope ← functionScope job id
    let inner ← bindBody job bodyScope ⟨params.map fun param => .ofNote param.note, .ofNote result⟩ body
    return .function inner
  | .call callee arguments _ => do
    let given ← bindExprs job scope arguments
    let function ← bindExpr job scope callee
    return .call function given
  | .assign target value _ => do
    let bound ← bindExpr job scope value
    let cell ← assignee job scope target
    return .assign cell bound
  | .binary op left right _ => do
    let l ← bindExpr job scope left
    let r ← bindExpr job scope right
    return .binary (← operator op) l r
  | .subscript target index _ => do
    let t ← bindExpr job scope target
    let i ← bindExpr job scope index
    return .subscript t i
  | .list items _ => return .list (← bindExprs job scope items)

def bindExprs (job : Job) (scope : ScopeId) : List Expr → Compile (List Bound.Expr)
  | [] => return []
  | e :: es => do
    let bound ← bindExpr job scope e
    let rest ← bindExprs job scope es
    return bound :: rest

def bindDeclaration (job : Job) (scope : ScopeId) : Declaration → Compile Bound.Stmt
  | ⟨name, _, value, _⟩ => do
    let bound ← bindExpr job scope value
    let cell ← declare job scope name
    return .declare cell bound

def bindStmt (job : Job) (scope : ScopeId) : Stmt → Compile Bound.Stmt
  | .eval e _ => return .eval (← bindExpr job scope e)
  | .declare d => bindDeclaration job scope d
  | .pub d _ => bindDeclaration job scope d
  | .cond condition ⟨body, _⟩ _ => do
    let test ← bindExpr job scope condition
    let inner ← bindStmts job scope body
    return .cond test inner
  | .giveBack none _ => return .giveBack none
  | .giveBack (some e) _ => return .giveBack (some (← bindExpr job scope e))
  | .use path names _ => do
    let dependency ← linkedModule job path
    let exports := job.program.arena.exports dependency.scopes.global
    return .use dependency.module.key (← bindImports job scope (importedNames exports names))

def bindStmts (job : Job) (scope : ScopeId) : List Stmt → Compile (List Bound.Stmt)
  | [] => return []
  | s :: ss => do
    let bound ← bindStmt job scope s
    let rest ← bindStmts job scope ss
    return bound :: rest

/-- the body of a function or a module, which runs in a scope -/
def bindBody (job : Job) (scope : ScopeId) (signature : Signature) : Block → Compile Bound.Function
  | ⟨body, _⟩ => do
    let id ← freshTemplate
    let parameters := parameterCells job scope
    setVisible scope parameters.length
    let locals := localCells job scope
    let bound ← bindStmts job scope body
    return ⟨id, signature, parameters, locals, bound⟩

end

/-! ## Code is that of the bound tree -/

theorem reservations_eq (job : Job) (scope : ScopeId) :
    reservations job scope = (localCells job scope).map Instruction.reserve := by
  unfold reservations localCells
  cases job.program.arena.get? scope with
  | none => rfl
  | some s => simp

theorem imports_eq (job : Job) (scope : ScopeId) (key : String) (names : List String) :
    imports job scope key names = Bound.fetches key <$> bindImports job scope names := by
  induction names with
  | nil => rfl
  | cons name names ih =>
    simp only [imports, bindImports, ih, map_bind, bind_map_left, map_pure, Bound.fetches]

/-- as many expressions are bound as there are -/
theorem bindExprs_congr {α : Type} (job : Job) (scope : ScopeId) (es : List Expr) {f g : List Bound.Expr → Compile α}
    (h : ∀ bs, bs.length = es.length → f bs = g bs) : bindExprs job scope es >>= f = bindExprs job scope es >>= g := by
  induction es generalizing f g with
  | nil =>
    simp only [bindExprs, pure_bind]
    exact h [] rfl
  | cons e es ih =>
    simp only [bindExprs, bind_assoc, pure_bind]
    refine bind_congr fun b => ih fun bs hbs => h (b :: bs) ?_
    rw [List.length_cons, List.length_cons, hbs]

mutual

theorem expr_eq (job : Job) (scope : ScopeId) (e : Expr) :
    expr job scope e = Bound.Expr.code <$> bindExpr job scope e := by
  cases e with
  | number value span => rfl
  | text value span => rfl
  | truth value span => rfl
  | ident name span => simp only [expr, bindExpr, map_bind, map_pure, Bound.Expr.code]
  | self span => rfl
  | list items span =>
    simp only [expr, bindExpr, exprs_eq job scope items, map_bind, bind_map_left, map_pure, Bound.Expr.code]
    exact bindExprs_congr job scope items fun bs hbs => by rw [hbs]
  | function id params result body span =>
    simp only [expr, bindExpr, map_bind, map_pure, Bound.Expr.code]
    refine bind_congr fun bodyScope => ?_
    rw [template_eq job bodyScope false _ body, bind_map_left]
  | call callee arguments span =>
    simp only [expr, bindExpr, exprs_eq job scope arguments, expr_eq job scope callee, map_bind,
      bind_map_left, map_pure, Bound.Expr.code]
    exact bindExprs_congr job scope arguments fun bs hbs => by rw [hbs]
  | assign target value span =>
    simp only [expr, bindExpr, expr_eq job scope value, map_bind, bind_map_left, map_pure, Bound.Expr.code]
  | binary op left right span =>
    simp only [expr, bindExpr, expr_eq job scope left, expr_eq job scope right, map_bind, bind_map_left, map_pure,
      Bound.Expr.code]
  | subscript target index span =>
    simp only [expr, bindExpr, expr_eq job scope target, expr_eq job scope index, map_bind, bind_map_left, map_pure,
      Bound.Expr.code]
termination_by structural e

theorem exprs_eq (job : Job) (scope : ScopeId) (es : List Expr) :
    exprs job scope es = Bound.Expr.codeOf <$> bindExprs job scope es := by
  cases es with
  | nil => rfl
  | cons e es =>
    simp only [exprs, bindExprs, expr_eq job scope e, exprs_eq job scope es, map_bind, bind_map_left, map_pure,
      Bound.Expr.codeOf]
termination_by structural es

theorem declaration_eq (job : Job) (scope : ScopeId) (start : Nat) (d : Declaration) :
    declaration job scope d = Bound.Stmt.code start <$> bindDeclaration job scope d := by
  cases d with
  | mk name note value span =>
    simp only [declaration, bindDeclaration, expr_eq job scope value, map_bind, bind_map_left,
      map_pure, Bound.Stmt.code]
termination_by structural d

theorem stmt_eq (job : Job) (scope : ScopeId) (start : Nat) (s : Stmt) :
    stmt job scope start s = Bound.Stmt.code start <$> bindStmt job scope s := by
  cases s with
  | cond condition body span =>
    obtain ⟨body, bodySpan⟩ := body
    simp only [stmt, bindStmt, expr_eq job scope condition, stmts_eq job scope _ body, map_bind,
      bind_map_left, map_pure, Bound.Stmt.code]
  | declare d => exact declaration_eq job scope start d
  | pub d span => exact declaration_eq job scope start d
  | giveBack value span =>
    cases value with
    | none => rfl
    | some e => simp only [stmt, bindStmt, expr_eq job scope e, map_bind, bind_map_left, map_pure, Bound.Stmt.code]
  | eval e span =>
    have he := expr_eq job scope e
    cases e with
    | assign target value =>
      simp only [stmt, bindStmt, bindExpr, expr_eq job scope value, map_bind, bind_map_left, bind_assoc, pure_bind,
        map_pure, Bound.Stmt.code]
    | _ =>
      simp only [stmt, bindStmt, he]
      simp only [bindExpr, map_bind, bind_assoc, pure_bind, map_pure, Bound.Stmt.code]
  | use path names span =>
    simp only [stmt, use, bindStmt, imports_eq, Bound.Stmt.code, map_eq_pure_bind, bind_assoc, pure_bind]
termination_by structural s

theorem stmts_eq (job : Job) (scope : ScopeId) (start : Nat) (ss : List Stmt) :
    stmts job scope start ss = Bound.Stmt.codeOf start <$> bindStmts job scope ss := by
  cases ss with
  | nil => rfl
  | cons s ss =>
    simp only [stmts, bindStmts, stmt_eq job scope start s, stmts_eq job scope _ ss, map_bind, bind_map_left, map_pure,
      Bound.Stmt.codeOf]
termination_by structural ss

theorem template_eq (job : Job) (scope : ScopeId) (isModule : Bool) (signature : Signature) (body : Block) :
    template job scope isModule body = Bound.Function.template isModule <$> bindBody job scope signature body := by
  cases body with
  | mk body span =>
    simp only [template, bindBody, reservations_eq, stmts_eq job scope _ body, List.length_map, map_bind, bind_map_left,
      map_pure, Bound.Function.template]
termination_by structural body

end

end Compile

end TypedScript
