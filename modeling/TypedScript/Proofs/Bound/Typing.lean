/-
Typed bound trees. The rules say of a bound tree what its types are, given a type for the number of each cell, and which
variables are sure to have been given a value where the tree stands. A function literal may use what has a value where
it stands, as well as its parameters. Where an expression has the type of what failed to check, anything may be said of
what is done with its value, since it never has one.

The body of a condition may not run, so that what it declares is not sure to have a value behind it; a tree is
`confined` if it does not use such variables there.
-/
import Mathlib.Data.List.Forall2
import TypedScript.Proofs.Bound.Tree
import TypedScript.Proofs.Typing.Plain

namespace TypedScript

namespace Bound

/-! ## Uses of variables -/

mutual

/-- the cells of the variables that an expression reads or assigns to, in function literals too -/
def Expr.uses : Expr → List Cell
  | .number _ => []
  | .text _ => []
  | .truth _ => []
  | .read cell => [cell]
  | .self => []
  | .list items => Expr.usesOf items
  | .function f => f.uses
  | .call callee arguments => Expr.usesOf arguments ++ callee.uses
  | .assign cell value => value.uses ++ [cell]
  | .binary _ left right => left.uses ++ right.uses
  | .subscript target index => target.uses ++ index.uses

def Expr.usesOf : List Expr → List Cell
  | [] => []
  | e :: es => e.uses ++ Expr.usesOf es

def Stmt.uses : Stmt → List Cell
  | .cond condition body => condition.uses ++ Stmt.usesIn body
  | .declare _ value => value.uses
  | .giveBack none => []
  | .giveBack (some e) => e.uses
  | .eval e => e.uses
  | .use _ _ => []

def Stmt.usesIn : List Stmt → List Cell
  | [] => []
  | s :: ss => s.uses ++ Stmt.usesIn ss

def Function.uses : Function → List Cell
  | ⟨_, _, _, _, body⟩ => Stmt.usesIn body

end

/-- the variables that are declared inside the body of a condition -/
def Stmt.branch : Stmt → List Cell
  | .cond _ body => Stmt.declaredIn body
  | _ => []

/-- the variables that a statement is sure to give a value, if it does not end the body -/
def Stmt.assigned : Stmt → List Cell
  | .declare cell _ => [cell]
  | .use _ names => names.map Prod.snd
  | _ => []

def Stmt.assignedIn : List Stmt → List Cell
  | [] => []
  | s :: ss => s.assigned ++ Stmt.assignedIn ss

theorem Stmt.mem_declared {s : Stmt} {cell : Cell} (h : cell ∈ s.declared) : cell ∈ s.assigned ∨ cell ∈ s.branch := by
  cases s with
  | cond condition body => exact Or.inr h
  | declare other value => exact Or.inl h
  | use module names => exact Or.inl h
  | giveBack value => cases h
  | eval e => cases h

mutual

/-- no variable that is declared inside the body of a condition is used behind that body -/
def Expr.confined : Expr → Bool
  | .number _ => true
  | .text _ => true
  | .truth _ => true
  | .read _ => true
  | .self => true
  | .list items => Expr.confinedOf items
  | .function f => f.confined
  | .call callee arguments => Expr.confinedOf arguments && callee.confined
  | .assign _ value => value.confined
  | .binary _ left right => left.confined && right.confined
  | .subscript target index => target.confined && index.confined

def Expr.confinedOf : List Expr → Bool
  | [] => true
  | e :: es => e.confined && Expr.confinedOf es

def Stmt.confined : Stmt → Bool
  | .cond condition body => condition.confined && Stmt.confinedIn body
  | .declare _ value => value.confined
  | .giveBack none => true
  | .giveBack (some e) => e.confined
  | .eval e => e.confined
  | .use _ _ => true

def Stmt.confinedIn : List Stmt → Bool
  | [] => true
  | s :: ss => (s.confined && Stmt.confinedIn ss) && s.branch.all fun cell => decide (cell ∉ Stmt.usesIn ss)

def Function.confined : Function → Bool
  | ⟨_, _, _, _, body⟩ => Stmt.confinedIn body

end

/-- where what a statement declares inside the body of a condition is not used behind it, what is used of all that it
declares is sure to have a value -/
theorem Stmt.assigned_of_confined {s : Stmt} {ss : List Stmt}
    (h : (s.branch.all fun cell => decide (cell ∉ Stmt.usesIn ss)) = true) :
    ∀ cell ∈ s.declared, cell ∈ Stmt.usesIn ss → cell ∈ s.assigned := by
  intro cell hcell huse
  rcases Stmt.mem_declared hcell with hassigned | hinside
  · exact hassigned
  · exact absurd huse (of_decide_eq_true (List.all_eq_true.1 h cell hinside))

theorem Stmt.assigned_declared {s : Stmt} {cell : Cell} (h : cell ∈ s.assigned) : cell ∈ s.declared := by
  cases s with
  | declare other value => exact h
  | use module names => exact h
  | _ => cases h

/-- a function that gives nothing, or a body that ends with a value given back -/
def Function.Ends (f : Function) : Prop :=
  f.signature.result = .void ∨ ∃ value, f.body.getLast? = some (.giveBack value)

/-! ## Rules -/

section

variable (types : Nat → Option Ty)

mutual

/-- an expression has a type, in the body of a function with a signature, where some variables have a value -/
inductive TypedExpr : Option Signature → List Cell → Expr → Ty → Prop
  | number {around : Option Signature} {ready : List Cell} (value : Int64) : TypedExpr around ready (.number value) .int
  | text {around : Option Signature} {ready : List Cell} (value : String) : TypedExpr around ready (.text value) .str
  | truth {around : Option Signature} {ready : List Cell} (value : Bool) : TypedExpr around ready (.truth value) .bool
  | read {around : Option Signature} {ready : List Cell} {cell : Cell} {ty : Ty} (known : cell ∈ ready)
      (type : types cell.id = some ty) : TypedExpr around ready (.read cell) ty
  | self {ready : List Cell} (signature : Signature) : TypedExpr (some signature) ready .self signature.ty
  | list {around : Option Signature} {ready : List Cell} {items : List Expr} {tys : List Ty} {ty : Ty}
      (given : TypedExprs around ready items tys)
      (fits : .error ∈ tys ∨ ∃ element, ty = .list element ∧ ∀ t ∈ tys, t = element) :
      TypedExpr around ready (.list items) ty
  | function {around : Option Signature} {ready : List Cell} {f : Function} (inside : TypedFunction ready f) :
      TypedExpr around ready (.function f) f.signature.ty
  | call {around : Option Signature} {ready : List Cell} {callee : Expr} {arguments : List Expr} {tys : List Ty}
      {ty result : Ty} (given : TypedExprs around ready arguments tys) (function : TypedExpr around ready callee ty)
      (fits : ty = .error ∨ ∃ params, ty = .function params result ∧ List.Forall₂ Ty.Fits params tys) :
      TypedExpr around ready (.call callee arguments) result
  | assign {around : Option Signature} {ready : List Cell} {cell : Cell} {value : Expr} {ty wanted : Ty}
      (accepted : TypedExpr around ready value ty) (known : cell ∈ ready) (type : types cell.id = some wanted)
      (fits : wanted = .error ∨ wanted.Fits ty) : TypedExpr around ready (.assign cell value) .void
  | binary {around : Option Signature} {ready : List Cell} {op : BinaryOp} {left right : Expr} {lty rty ty : Ty}
      (onLeft : TypedExpr around ready left lty) (onRight : TypedExpr around ready right rty)
      (fits : lty = .error ∨ rty = .error ∨ op.Takes lty rty ty) : TypedExpr around ready (.binary op left right) ty
  | subscript {around : Option Signature} {ready : List Cell} {target index : Expr} {tty ity ty : Ty}
      (onTarget : TypedExpr around ready target tty) (onIndex : TypedExpr around ready index ity)
      (fits : tty = .error ∨ ity = .error ∨
        ity = .int ∧ (tty = .str ∧ ty = .optional .str ∨ ∃ element, tty = .list element ∧ ty = .optional element)) :
      TypedExpr around ready (.subscript target index) ty

inductive TypedExprs : Option Signature → List Cell → List Expr → List Ty → Prop
  | nil {around : Option Signature} {ready : List Cell} : TypedExprs around ready [] []
  | cons {around : Option Signature} {ready : List Cell} {e : Expr} {es : List Expr} {ty : Ty} {tys : List Ty}
      (head : TypedExpr around ready e ty) (tail : TypedExprs around ready es tys) :
      TypedExprs around ready (e :: es) (ty :: tys)

/-- a function literal, where some variables have a value -/
inductive TypedFunction : List Cell → Function → Prop
  | mk {ready : List Cell} {f : Function}
      (params : List.Forall₂ (fun cell ty => types cell.id = some ty) f.params f.signature.params)
      (apart : ∀ cell ∈ f.locals, ∀ other ∈ f.params ++ ready, other.id ≠ cell.id)
      (new : ∀ cell ∈ f.params, ∀ other ∈ ready, other.id ≠ cell.id) (ends : f.Ends)
      (body : TypedStmts (fun _ _ => none) (some f.signature) f.locals (f.params ++ ready) f.body) :
      TypedFunction ready f

/-- a statement in a body with some variables of its own; `exports` gives the types of the exports of other modules -/
inductive TypedStmt : (String → String → Option Ty) → Option Signature → List Cell → List Cell → Stmt → Prop
  | cond {exports : String → String → Option Ty} {around : Option Signature} {locals ready : List Cell}
      {condition : Expr} {body : List Stmt} {ty : Ty} (test : TypedExpr around ready condition ty)
      (fits : Ty.bool.Fits ty) (inside : TypedStmts exports around locals ready body) :
      TypedStmt exports around locals ready (.cond condition body)
  | declare {exports : String → String → Option Ty} {around : Option Signature} {locals ready : List Cell} {cell : Cell}
      {value : Expr} {ty wanted : Ty} (accepted : TypedExpr around ready value ty) (own : cell ∈ locals)
      (type : types cell.id = some wanted) (fits : wanted.Fits ty) :
      TypedStmt exports around locals ready (.declare cell value)
  | giveNothing {exports : String → String → Option Ty} {signature : Signature} {locals ready : List Cell}
      (fits : signature.result = .void) : TypedStmt exports (some signature) locals ready (.giveBack none)
  | giveBack {exports : String → String → Option Ty} {signature : Signature} {locals ready : List Cell} {e : Expr}
      {ty : Ty} (given : TypedExpr (some signature) ready e ty) (fits : signature.result.Fits ty) :
      TypedStmt exports (some signature) locals ready (.giveBack (some e))
  | eval {exports : String → String → Option Ty} {around : Option Signature} {locals ready : List Cell} {e : Expr}
      {ty : Ty} (evaluated : TypedExpr around ready e ty) : TypedStmt exports around locals ready (.eval e)
  | use {exports : String → String → Option Ty} {around : Option Signature} {locals ready : List Cell} {module : String}
      {names : List (String × Cell)}
      (imports : ∀ n ∈ names, n.2 ∈ locals ∧ ∃ ty, exports module n.1 = some ty ∧ types n.2.id = some ty) :
      TypedStmt exports around locals ready (.use module names)

inductive TypedStmts :
    (String → String → Option Ty) → Option Signature → List Cell → List Cell → List Stmt → Prop
  | nil {exports : String → String → Option Ty} {around : Option Signature} {locals ready : List Cell} :
      TypedStmts exports around locals ready []
  | cons {exports : String → String → Option Ty} {around : Option Signature} {locals ready : List Cell} {s : Stmt}
      {ss : List Stmt} (head : TypedStmt exports around locals ready s)
      (tail : TypedStmts exports around locals (s.assigned ++ ready) ss) :
      TypedStmts exports around locals ready (s :: ss)

end

end

end Bound

end TypedScript
