/-
The function literals of a tree in the order of evaluation, in which the arguments of a call come before what is called,
and a value before what it is assigned to. The check opens the scopes of literals in this order, and their templates are
numbered in it. With each literal goes the number of the innermost literal that it stands in.

- `Block.literals_perm`: they are the literals among the nodes of the tree.
-/
import TypedScript.Proofs.Tree.Nodes

namespace TypedScript

/-- a function literal and where it stands -/
structure Literal where
  number : Nat
  /-- the number of the innermost literal around this one -/
  around : Option Nat
  params : List Parameter
  result : Note
  body : Block

mutual

/-- the literals of an expression that stands in the body of a literal or of the module -/
def Expr.literals (around : Option Nat) : Expr → List Literal
  | .number _ _ => []
  | .text _ _ => []
  | .truth _ _ => []
  | .ident _ _ => []
  | .self _ => []
  | .list items _ => Expr.literalsOf around items
  | .function id params result body _ => ⟨id, around, params, result, body⟩ :: body.literals (some id)
  | .call callee arguments _ => Expr.literalsOf around arguments ++ callee.literals around
  | .assign target value _ => value.literals around ++ target.literals around
  | .binary _ left right _ => left.literals around ++ right.literals around
  | .subscript target index _ => target.literals around ++ index.literals around

def Expr.literalsOf (around : Option Nat) : List Expr → List Literal
  | [] => []
  | e :: es => e.literals around ++ Expr.literalsOf around es

def Declaration.literals (around : Option Nat) : Declaration → List Literal
  | ⟨_, _, value, _⟩ => value.literals around

def Stmt.literals (around : Option Nat) : Stmt → List Literal
  | .cond condition body _ => condition.literals around ++ body.literals around
  | .declare d => d.literals around
  | .giveBack none _ => []
  | .giveBack (some e) _ => e.literals around
  | .eval e _ => e.literals around
  | .pub d _ => d.literals around
  | .use _ _ _ => []

def Stmt.literalsIn (around : Option Nat) : List Stmt → List Literal
  | [] => []
  | s :: ss => s.literals around ++ Stmt.literalsIn around ss

def Block.literals (around : Option Nat) : Block → List Literal
  | ⟨body, _⟩ => Stmt.literalsIn around body

end

/-! ## Literals and nodes -/

/-- literals that follow one another, and the numbers of nodes that do -/
theorem literals_append {ls ms : List Literal} {ids ids' : List Nat} (hls : (ls.map Literal.number).Perm ids)
    (hms : (ms.map Literal.number).Perm ids') : ((ls ++ ms).map Literal.number).Perm (ids ++ ids') := by
  rw [List.map_append]
  exact hls.append hms

mutual

theorem Expr.literals_perm (around : Option Nat) (e : Expr) :
    ((e.literals around).map Literal.number).Perm (literalIds e.nodes) := by
  cases e with
  | number value span => exact .nil
  | text value span => exact .nil
  | truth value span => exact .nil
  | ident name span => exact .nil
  | self span => exact .nil
  | list items span => exact Expr.literalsOf_perm around items
  | function id params result body span =>
    obtain ⟨body, bodySpan⟩ := body
    exact (Stmt.literalsIn_perm (some id) body).cons id
  | call callee arguments span =>
    rw [Expr.literals, Expr.nodes, literalIds_cons_of_none _ rfl, literalIds_append]
    exact (literals_append (Expr.literalsOf_perm around arguments) (callee.literals_perm around)).trans
      List.perm_append_comm
  | assign target value span =>
    rw [Expr.literals, Expr.nodes, literalIds_cons_of_none _ rfl, literalIds_append]
    exact (literals_append (value.literals_perm around) (target.literals_perm around)).trans List.perm_append_comm
  | binary operator left right span =>
    rw [Expr.literals, Expr.nodes, literalIds_cons_of_none _ rfl, literalIds_append]
    exact literals_append (left.literals_perm around) (right.literals_perm around)
  | subscript target index span =>
    rw [Expr.literals, Expr.nodes, literalIds_cons_of_none _ rfl, literalIds_append]
    exact literals_append (target.literals_perm around) (index.literals_perm around)
termination_by structural e

theorem Expr.literalsOf_perm (around : Option Nat) (es : List Expr) :
    ((Expr.literalsOf around es).map Literal.number).Perm (literalIds (Expr.nodesOf es)) := by
  cases es with
  | nil => exact .nil
  | cons e es =>
    rw [Expr.literalsOf, Expr.nodesOf, literalIds_append]
    exact literals_append (e.literals_perm around) (Expr.literalsOf_perm around es)
termination_by structural es

theorem Declaration.literals_perm (around : Option Nat) (d : Declaration) :
    ((d.literals around).map Literal.number).Perm (literalIds d.nodes) := by
  obtain ⟨name, note, value, span⟩ := d
  exact value.literals_perm around
termination_by structural d

theorem Stmt.literals_perm (around : Option Nat) (s : Stmt) :
    ((s.literals around).map Literal.number).Perm (literalIds s.nodes) := by
  cases s with
  | cond condition body span =>
    obtain ⟨body, bodySpan⟩ := body
    rw [Stmt.literals, Stmt.nodes, literalIds_cons_of_none _ rfl, literalIds_append]
    exact literals_append (condition.literals_perm around) (Stmt.literalsIn_perm around body)
  | declare d => exact d.literals_perm around
  | giveBack value span =>
    cases value with
    | none => exact .nil
    | some e => exact e.literals_perm around
  | eval e span => exact e.literals_perm around
  | pub d span => exact d.literals_perm around
  | use path names span => exact .nil
termination_by structural s

theorem Stmt.literalsIn_perm (around : Option Nat) (ss : List Stmt) :
    ((Stmt.literalsIn around ss).map Literal.number).Perm (literalIds (Stmt.nodesOf ss)) := by
  cases ss with
  | nil => exact .nil
  | cons s ss =>
    rw [Stmt.literalsIn, Stmt.nodesOf, literalIds_append]
    exact literals_append (s.literals_perm around) (Stmt.literalsIn_perm around ss)
termination_by structural ss

end

theorem Block.literals_perm (around : Option Nat) (b : Block) :
    ((b.literals around).map Literal.number).Perm (literalIds b.nodes) := by
  obtain ⟨body, span⟩ := b
  exact Stmt.literalsIn_perm around body

end TypedScript
