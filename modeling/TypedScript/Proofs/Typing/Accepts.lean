/-
What the check accepts. A derivation of `AcceptsExpr keyOf p r e ty b r'` says of the expression `e` at the place `p`
that the check, with `r` built so far, finds nothing wrong with it, that its type is `ty` and its bound tree `b`, and
that `r'` is built when the check is over. There is one rule for each form of expression and statement; a rule that asks
whether types fit asks the check itself, which must leave what it has built as it is.
-/
import TypedScript.Proofs.Bound.Check

namespace TypedScript

namespace Check

/-- the parameters of a function literal are declared in its scope, each in a cell -/
inductive AcceptsParams (scope : ScopeId) : Record → List Parameter → List Cell → Record → Prop
  | nil {r : Record} : AcceptsParams scope r [] [] r
  | cons {r r' r'' : Record} {param : Parameter} {params : List Parameter} {cell : Cell} {cells : List Cell}
      (declared : newParameter scope param.name (.ofNote param.note) param.span.start r = (some cell, r'))
      (rest : AcceptsParams scope r' params cells r'') :
      AcceptsParams scope r (param :: params) (cell :: cells) r''

/-- imported names are declared in the global scope of the module, each in a cell -/
inductive AcceptsImports (p : Place) (span : Span) :
    Record → List (String × Ty) → List (String × Cell) → Record → Prop
  | nil {r : Record} : AcceptsImports p span r [] [] r
  | cons {r r' r'' : Record} {name : String} {ty : Ty} {names : List (String × Ty)} {cell : Cell}
      {cells : List (String × Cell)}
      (declared : newVariable p.global name ty span.start r = (some cell, r'))
      (rest : AcceptsImports p span r' names cells r'') :
      AcceptsImports p span r ((name, ty) :: names) ((name, cell) :: cells) r''

variable (keyOf : String → Option String)

mutual

inductive AcceptsExpr : Place → Record → Expr → Ty → Bound.Expr → Record → Prop
  | number {p : Place} {r : Record} (value : Int64) (span : Span) :
      AcceptsExpr p r (.number value span) .int (.number value) r
  | text {p : Place} {r : Record} (value : String) (span : Span) :
      AcceptsExpr p r (.text value span) .str (.text value) r
  | truth {p : Place} {r : Record} (value : Bool) (span : Span) :
      AcceptsExpr p r (.truth value span) .bool (.truth value) r
  | ident {p : Place} {r : Record} {name : String} {v : Variable} (span : Span)
      (found : r.arena.lookup? p.scope name = some v) :
      AcceptsExpr p r (.ident name span) v.ty (.read v.cell) r
  | self {p : Place} {r : Record} {signature : Signature} (span : Span)
      (around : r.arena.signature? p.scope = some signature) :
      AcceptsExpr p r (.self span) signature.ty .self r
  | list {p : Place} {r r' r'' : Record} {first : Expr} {rest : List Expr} {element : Ty} {tys : List (Ty × Span)}
      {b : Bound.Expr} {bs : List Bound.Expr} (span : Span)
      (head : AcceptsExpr p r first element b r') (used : element.isVoid = false)
      (tail : AcceptsExprs p r' rest tys bs r'')
      (agree : ∀ t ∈ tys, (element.isError || t.1.isError || element.equals t.1) = true) :
      AcceptsExpr p r (.list (first :: rest) span) (if element.isError then .error else .list element) (.list (b :: bs))
        r''
  | function {p : Place} {r opened declared r' : Record} {id : Nat} {params : List Parameter} {result : Note}
      {body : List Stmt} {scope : ScopeId} {cells : List Cell} {bs : List Bound.Stmt} (span bodySpan : Span)
      (opens : openScope p id ⟨params.map fun param => .ofNote param.note, .ofNote result⟩ r = (scope, opened))
      (parameters : AcceptsParams scope opened params cells declared)
      (inside : AcceptsStmts { p with scope } declared body bs r') :
      AcceptsExpr p r (.function id params result ⟨body, bodySpan⟩ span)
        (Signature.ty ⟨params.map fun param => .ofNote param.note, .ofNote result⟩)
        (.function ⟨scope - p.global, ⟨params.map fun param => .ofNote param.note, .ofNote result⟩, cells,
          Bound.Stmt.declaredIn bs, bs⟩) r'
  | call {p : Place} {r r' r'' : Record} {callee : Expr} {arguments : List Expr}
      {tys : List (Ty × Span)} {ty result : Ty} {b : Bound.Expr} {bs : List Bound.Expr} (span : Span)
      (given : AcceptsExprs p r arguments tys bs r')
      (function : AcceptsExpr p r' callee ty b r'') (used : ty.isVoid = false)
      (fits : call p ty tys span r'' = (result, r'')) :
      AcceptsExpr p r (.call callee arguments span) result (.call b bs) r''
  | assign {p : Place} {r r' : Record} {name : String} {assigned : Expr} {ty : Ty} {v : Variable} {b : Bound.Expr}
      (span nameSpan : Span) (accepted : AcceptsExpr p r assigned ty b r') (used : ty.isVoid = false)
      (found : r'.arena.lookup? p.scope name = some v)
      (fits : (ty.isError || v.ty.isError || v.ty.equals ty) = true) :
      AcceptsExpr p r (.assign (.ident name nameSpan) assigned span) .void (.assign v.cell b) r'
  | binary {p : Place} {r r' r'' : Record} {operator : String} {op : BinaryOp} {left right : Expr} {lty rty ty : Ty}
      {l b : Bound.Expr} (span : Span)
      (onLeft : AcceptsExpr p r left lty l r') (usedLeft : lty.isVoid = false)
      (onRight : AcceptsExpr p r' right rty b r'') (usedRight : rty.isVoid = false)
      (known : BinaryOp.ofText? operator = some op)
      (fits : binary p operator lty rty span r'' = (ty, r'')) :
      AcceptsExpr p r (.binary operator left right span) ty (.binary op l b) r''
  | subscript {p : Place} {r r' r'' : Record} {target index : Expr} {tty ity ty : Ty} {t i : Bound.Expr} (span : Span)
      (onTarget : AcceptsExpr p r target tty t r') (usedTarget : tty.isVoid = false)
      (onIndex : AcceptsExpr p r' index ity i r'') (usedIndex : ity.isVoid = false)
      (fits : subscript p tty ity index.span span r'' = (ty, r'')) :
      AcceptsExpr p r (.subscript target index span) ty (.subscript t i) r''

/-- expressions whose values are used, one after the other -/
inductive AcceptsExprs : Place → Record → List Expr → List (Ty × Span) → List Bound.Expr → Record → Prop
  | nil {p : Place} {r : Record} : AcceptsExprs p r [] [] [] r
  | cons {p : Place} {r r' r'' : Record} {e : Expr} {es : List Expr} {ty : Ty} {tys : List (Ty × Span)} {b : Bound.Expr}
      {bs : List Bound.Expr} (head : AcceptsExpr p r e ty b r') (used : ty.isVoid = false)
      (tail : AcceptsExprs p r' es tys bs r'') : AcceptsExprs p r (e :: es) ((ty, e.span) :: tys) (b :: bs) r''

inductive AcceptsDeclaration : Place → Record → Declaration → Ty → Cell → Bound.Expr → Record → Prop
  | mk {p : Place} {r r' r'' : Record} {name : String} {note : Option Note} {initial : Expr} {value : Ty} {cell : Cell}
      {b : Bound.Expr} (span : Span) (accepted : AcceptsExpr p r initial value b r') (used : value.isVoid = false)
      (fits : (note.isNone || value.isError || ((note.map Ty.ofNote).getD value).equals value) = true)
      (declared : newVariable p.scope name ((note.map Ty.ofNote).getD value) span.start r' = (some cell, r'')) :
      AcceptsDeclaration p r ⟨name, note, initial, span⟩ ((note.map Ty.ofNote).getD value) cell b r''

inductive AcceptsStmt : Place → Record → Stmt → Bound.Stmt → Record → Prop
  | cond {p : Place} {r r' r'' : Record} {condition : Expr} {body : List Stmt} {ty : Ty} {b : Bound.Expr}
      {bs : List Bound.Stmt} (span bodySpan : Span)
      (test : AcceptsExpr p r condition ty b r') (used : ty.isVoid = false)
      (fits : (ty.isError || Ty.bool.equals ty) = true)
      (inside : AcceptsStmts { p with conditional := true } r' body bs r'') :
      AcceptsStmt p r (.cond condition ⟨body, bodySpan⟩ span) (.cond b bs) r''
  | declare {p : Place} {r r' : Record} {d : Declaration} {ty : Ty} {cell : Cell} {b : Bound.Expr}
      (declared : AcceptsDeclaration p r d ty cell b r') : AcceptsStmt p r (.declare d) (.declare cell b) r'
  | giveNothing {p : Place} {r : Record} (span : Span) (fits : giveBack p none span r = ((), r)) :
      AcceptsStmt p r (.giveBack none span) (.giveBack none) r
  | giveBack {p : Place} {r r' : Record} {e : Expr} {ty : Ty} {b : Bound.Expr} (span : Span)
      (given : AcceptsExpr p r e ty b r') (used : ty.isVoid = false)
      (fits : giveBack p (some (ty, e.span)) span r' = ((), r')) :
      AcceptsStmt p r (.giveBack (some e) span) (.giveBack (some b)) r'
  | eval {p : Place} {r r' : Record} {e : Expr} {ty : Ty} {b : Bound.Expr} (span : Span)
      (evaluated : AcceptsExpr p r e ty b r') : AcceptsStmt p r (.eval e span) (.eval b) r'
  | pub {p : Place} {r r' r'' : Record} {d : Declaration} {ty : Ty} {cell : Cell} {b : Bound.Expr} (span : Span)
      (top : p.atTop = true) (declared : AcceptsDeclaration p r d ty cell b r')
      (exported : addExport p.scope d.name ty span.start r' = (true, r'')) :
      AcceptsStmt p r (.pub d span) (.declare cell b) r''
  | use {p : Place} {r r' : Record} {path key : String} {names : Option (List String)} {dependency : ScopeId}
      {cells : List (String × Cell)} (span : Span) (top : p.atTop = true)
      (linked : p.imports.find? path = some dependency) (named : keyOf path = some key)
      (found : ∀ asked, names = some asked → ∀ name ∈ asked, (r.arena.export? dependency name).isSome = true)
      (imports : AcceptsImports p span r (importedAs p path dependency span r names) cells r') :
      AcceptsStmt p r (.use path names span) (.use key cells) r'

inductive AcceptsStmts : Place → Record → List Stmt → List Bound.Stmt → Record → Prop
  | nil {p : Place} {r : Record} : AcceptsStmts p r [] [] r
  | cons {p : Place} {r r' r'' : Record} {s : Stmt} {ss : List Stmt} {b : Bound.Stmt} {bs : List Bound.Stmt}
      (head : AcceptsStmt p r s b r') (tail : AcceptsStmts p r' ss bs r'') :
      AcceptsStmts p r (s :: ss) (b :: bs) r''

end

end Check

end TypedScript
