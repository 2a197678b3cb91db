/-
Bound trees that fit their types. The rules say of a bound tree what its types are, given a type for the number of each
cell, whether or not the variables that it reads have a value where it stands, and whether or not a function literal
that is to give something does so on every path. Where an expression has the type of what failed to check, anything may
be said of what is done with its value, since it never has one.

- `Bound.FitStmts.literals`: the function literals in a tree that fits fit, too.
-/
import Mathlib.Data.List.Forall2
import TypedScript.Proofs.Bound.Tree
import TypedScript.Proofs.Typing.Plain

namespace TypedScript

namespace Bound

/-! ## Function literals -/

mutual

/-- the function literals in an expression, those inside of other ones too -/
def Expr.literals : Expr → List Function
  | .number _ => []
  | .text _ => []
  | .truth _ => []
  | .read _ => []
  | .self => []
  | .list items => Expr.literalsOf items
  | .function f => f :: f.literals
  | .call callee arguments => Expr.literalsOf arguments ++ callee.literals
  | .assign _ value => value.literals
  | .binary _ left right => left.literals ++ right.literals
  | .subscript target index => target.literals ++ index.literals

def Expr.literalsOf : List Expr → List Function
  | [] => []
  | e :: es => e.literals ++ Expr.literalsOf es

def Stmt.literals : Stmt → List Function
  | .cond condition body => condition.literals ++ Stmt.literalsIn body
  | .declare _ value => value.literals
  | .giveBack none => []
  | .giveBack (some e) => e.literals
  | .eval e => e.literals
  | .use _ _ => []

def Stmt.literalsIn : List Stmt → List Function
  | [] => []
  | s :: ss => s.literals ++ Stmt.literalsIn ss

/-- the function literals in the body of one, or of a module -/
def Function.literals : Function → List Function
  | ⟨_, _, _, _, body⟩ => Stmt.literalsIn body

end

mutual

/-- the literals inside of a literal in an expression are in the expression, too -/
theorem Expr.literals_inside {f g : Function} (hg : g ∈ f.literals) {e : Expr} (hf : f ∈ e.literals) :
    g ∈ e.literals := by
  cases e with
  | list items => exact Expr.literalsOf_inside hg hf
  | function f' =>
    rcases List.mem_cons.1 hf with rfl | hf
    · exact List.mem_cons_of_mem _ hg
    · exact List.mem_cons_of_mem _ (Function.literals_inside hg hf)
  | call callee arguments =>
    exact List.mem_append.2 ((List.mem_append.1 hf).imp (Expr.literalsOf_inside hg) (callee.literals_inside hg))
  | assign cell value => exact value.literals_inside hg hf
  | binary op left right =>
    exact List.mem_append.2 ((List.mem_append.1 hf).imp (left.literals_inside hg) (right.literals_inside hg))
  | subscript target index =>
    exact List.mem_append.2 ((List.mem_append.1 hf).imp (target.literals_inside hg) (index.literals_inside hg))
  | _ => cases hf
termination_by structural e

theorem Expr.literalsOf_inside {f g : Function} (hg : g ∈ f.literals) {es : List Expr} (hf : f ∈ Expr.literalsOf es) :
    g ∈ Expr.literalsOf es := by
  cases es with
  | nil => cases hf
  | cons e es =>
    exact List.mem_append.2 ((List.mem_append.1 hf).imp (e.literals_inside hg) (Expr.literalsOf_inside hg))
termination_by structural es

theorem Stmt.literals_inside {f g : Function} (hg : g ∈ f.literals) {s : Stmt} (hf : f ∈ s.literals) :
    g ∈ s.literals := by
  cases s with
  | cond condition body =>
    exact List.mem_append.2 ((List.mem_append.1 hf).imp (condition.literals_inside hg) (Stmt.literalsIn_inside hg))
  | declare cell value => exact value.literals_inside hg hf
  | giveBack value =>
    cases value with
    | none => cases hf
    | some e => exact e.literals_inside hg hf
  | eval e => exact e.literals_inside hg hf
  | use module names => cases hf
termination_by structural s

theorem Stmt.literalsIn_inside {f g : Function} (hg : g ∈ f.literals) {ss : List Stmt}
    (hf : f ∈ Stmt.literalsIn ss) : g ∈ Stmt.literalsIn ss := by
  cases ss with
  | nil => cases hf
  | cons s ss =>
    exact List.mem_append.2 ((List.mem_append.1 hf).imp (s.literals_inside hg) (Stmt.literalsIn_inside hg))
termination_by structural ss

theorem Function.literals_inside {f g : Function} (hg : g ∈ f.literals) {outer : Function} (hf : f ∈ outer.literals) :
    g ∈ outer.literals := by
  cases outer with
  | mk number signature params locals body => exact Stmt.literalsIn_inside hg hf
termination_by structural outer

end

/-! ## Rules -/

section

variable (types : Nat → Option Ty) (P : Ty → Prop)

mutual

/-- an expression has a type, in the body of a function with a signature -/
inductive FitExpr : Option Signature → Expr → Ty → Prop
  | number {around : Option Signature} (value : Int64) : FitExpr around (.number value) .int
  | text {around : Option Signature} (value : String) : FitExpr around (.text value) .str
  | truth {around : Option Signature} (value : Bool) : FitExpr around (.truth value) .bool
  | read {around : Option Signature} {cell : Cell} {ty : Ty} (type : types cell.id = some ty) :
      FitExpr around (.read cell) ty
  | self (signature : Signature) : FitExpr (some signature) .self signature.ty
  | list {around : Option Signature} {items : List Expr} {tys : List Ty} {ty : Ty} (given : FitExprs around items tys)
      (fits : .error ∈ tys ∨ ∃ element, ty = .list element ∧ ∀ t ∈ tys, t = element) : FitExpr around (.list items) ty
  | function {around : Option Signature} {f : Function} (inside : FitFunction f) :
      FitExpr around (.function f) f.signature.ty
  | call {around : Option Signature} {callee : Expr} {arguments : List Expr} {tys : List Ty} {ty result : Ty}
      (given : FitExprs around arguments tys) (function : FitExpr around callee ty)
      (fits : ty = .error ∨ ∃ params, ty = .function params result ∧ List.Forall₂ Ty.Fits params tys) :
      FitExpr around (.call callee arguments) result
  | assign {around : Option Signature} {cell : Cell} {value : Expr} {ty wanted : Ty}
      (accepted : FitExpr around value ty)
      (type : types cell.id = some wanted) (kind : P wanted) (fits : wanted = .error ∨ wanted.Fits ty) :
      FitExpr around (.assign cell value) .void
  | binary {around : Option Signature} {op : BinaryOp} {left right : Expr} {lty rty ty : Ty}
      (onLeft : FitExpr around left lty) (onRight : FitExpr around right rty)
      (fits : lty = .error ∨ rty = .error ∨ op.Takes lty rty ty) : FitExpr around (.binary op left right) ty
  | subscript {around : Option Signature} {target index : Expr} {tty ity ty : Ty} (onTarget : FitExpr around target tty)
      (onIndex : FitExpr around index ity)
      (fits : tty = .error ∨ ity = .error ∨
        ity = .int ∧ (tty = .str ∧ ty = .optional .str ∨ ∃ element, tty = .list element ∧ ty = .optional element)) :
      FitExpr around (.subscript target index) ty

inductive FitExprs : Option Signature → List Expr → List Ty → Prop
  | nil {around : Option Signature} : FitExprs around [] []
  | cons {around : Option Signature} {e : Expr} {es : List Expr} {ty : Ty} {tys : List Ty} (head : FitExpr around e ty)
      (tail : FitExprs around es tys) : FitExprs around (e :: es) (ty :: tys)

/-- a function literal, whose parameters have the types that it is declared with -/
inductive FitFunction : Function → Prop
  | mk {f : Function} (params : List.Forall₂ (fun cell ty => types cell.id = some ty) f.params f.signature.params)
      (body : FitStmts (fun _ _ => none) (some f.signature) f.body) : FitFunction f

/-- a statement in the body of a function with a signature; `exports` gives the types of the exports of other modules -/
inductive FitStmt : (String → String → Option Ty) → Option Signature → Stmt → Prop
  | cond {exports : String → String → Option Ty} {around : Option Signature} {condition : Expr} {body : List Stmt}
      {ty : Ty} (test : FitExpr around condition ty) (fits : Ty.bool.Fits ty) (inside : FitStmts exports around body) :
      FitStmt exports around (.cond condition body)
  | declare {exports : String → String → Option Ty} {around : Option Signature} {cell : Cell} {value : Expr}
      {ty wanted : Ty} (accepted : FitExpr around value ty) (type : types cell.id = some wanted)
      (fits : wanted.Fits ty) :
      FitStmt exports around (.declare cell value)
  | giveNothing {exports : String → String → Option Ty} {signature : Signature} (fits : signature.result = .void) :
      FitStmt exports (some signature) (.giveBack none)
  | giveBack {exports : String → String → Option Ty} {signature : Signature} {e : Expr} {ty : Ty}
      (given : FitExpr (some signature) e ty) (fits : signature.result.Fits ty) :
      FitStmt exports (some signature) (.giveBack (some e))
  | eval {exports : String → String → Option Ty} {around : Option Signature} {e : Expr} {ty : Ty}
      (evaluated : FitExpr around e ty) : FitStmt exports around (.eval e)
  | use {exports : String → String → Option Ty} {around : Option Signature} {module : String}
      {names : List (String × Cell)}
      (imports : ∀ n ∈ names, ∃ ty, exports module n.1 = some ty ∧ types n.2.id = some ty) :
      FitStmt exports around (.use module names)

inductive FitStmts : (String → String → Option Ty) → Option Signature → List Stmt → Prop
  | nil {exports : String → String → Option Ty} {around : Option Signature} : FitStmts exports around []
  | cons {exports : String → String → Option Ty} {around : Option Signature} {s : Stmt} {ss : List Stmt}
      (head : FitStmt exports around s) (tail : FitStmts exports around ss) : FitStmts exports around (s :: ss)

end

end

/-! ## Function literals in trees that fit -/

variable {types : Nat → Option Ty} {P : Ty → Prop}

mutual

theorem FitExpr.literals {around : Option Signature} {e : Expr} {ty : Ty} (h : FitExpr types P around e ty) :
    ∀ f ∈ e.literals, FitFunction types P f := by
  cases e with
  | list items =>
    cases h with
    | list given fits => exact given.literals
  | function f =>
    cases h with
    | function inside =>
      intro g hg
      rcases List.mem_cons.1 hg with rfl | hg
      · exact inside
      · exact inside.literals g hg
  | call callee arguments =>
    cases h with
    | call given function fits =>
      exact fun f hf => (List.mem_append.1 hf).elim (given.literals f) (function.literals f)
  | assign cell value =>
    cases h with
    | assign accepted type kind fits => exact accepted.literals
  | binary op left right =>
    cases h with
    | binary onLeft onRight fits =>
      exact fun f hf => (List.mem_append.1 hf).elim (onLeft.literals f) (onRight.literals f)
  | subscript target index =>
    cases h with
    | subscript onTarget onIndex fits =>
      exact fun f hf => (List.mem_append.1 hf).elim (onTarget.literals f) (onIndex.literals f)
  | _ => exact fun _ hf => nomatch hf
termination_by structural e

theorem FitExprs.literals {around : Option Signature} {es : List Expr} {tys : List Ty}
    (h : FitExprs types P around es tys) :
    ∀ f ∈ Expr.literalsOf es, FitFunction types P f := by
  cases es with
  | nil => exact fun _ hf => nomatch hf
  | cons e es =>
    cases h with
    | cons head tail => exact fun f hf => (List.mem_append.1 hf).elim (head.literals f) (tail.literals f)
termination_by structural es

theorem FitFunction.literals {f : Function} (h : FitFunction types P f) : ∀ g ∈ f.literals, FitFunction types P g := by
  cases f with
  | mk number signature params locals body =>
    cases h with
    | mk _ body => exact body.literals
termination_by structural f

theorem FitStmt.literals {exports : String → String → Option Ty} {around : Option Signature} {s : Stmt}
    (h : FitStmt types P exports around s) : ∀ f ∈ s.literals, FitFunction types P f := by
  cases s with
  | cond condition body =>
    cases h with
    | cond test fits inside => exact fun f hf => (List.mem_append.1 hf).elim (test.literals f) (inside.literals f)
  | declare cell value =>
    cases h with
    | declare accepted type fits => exact accepted.literals
  | giveBack value =>
    cases value with
    | none => exact fun _ hf => nomatch hf
    | some e =>
      cases h with
      | giveBack given fits => exact given.literals
  | eval e =>
    cases h with
    | eval evaluated => exact evaluated.literals
  | use module names => exact fun _ hf => nomatch hf
termination_by structural s

theorem FitStmts.literals {exports : String → String → Option Ty} {around : Option Signature} {ss : List Stmt}
    (h : FitStmts types P exports around ss) : ∀ f ∈ Stmt.literalsIn ss, FitFunction types P f := by
  cases ss with
  | nil => exact fun _ hf => nomatch hf
  | cons s ss =>
    cases h with
    | cons head tail => exact fun f hf => (List.mem_append.1 hf).elim (head.literals f) (tail.literals f)
termination_by structural ss

end

end Bound

end TypedScript
