/-
The nodes of a tree: a block, statement or expression taken apart into all statements and expressions in it, in the
order in which the text has them. What a tree holds anywhere is read off this list: the numbers of its function
literals, its operators and its annotations.
-/
import TypedScript.Tree
import TypedScript.Code.Instruction

namespace TypedScript

inductive Node
  | expr (e : Expr)
  | stmt (s : Stmt)

mutual

/-- an expression and all that is in it -/
def Expr.nodes : Expr → List Node
  | .number value span => [.expr (.number value span)]
  | .text value span => [.expr (.text value span)]
  | .truth value span => [.expr (.truth value span)]
  | .ident name span => [.expr (.ident name span)]
  | .self span => [.expr (.self span)]
  | .list items span => .expr (.list items span) :: Expr.nodesOf items
  | .function id params result body span => .expr (.function id params result body span) :: body.nodes
  | .call callee arguments span => .expr (.call callee arguments span) :: (callee.nodes ++ Expr.nodesOf arguments)
  | .assign target value span => .expr (.assign target value span) :: (target.nodes ++ value.nodes)
  | .binary op left right span => .expr (.binary op left right span) :: (left.nodes ++ right.nodes)
  | .subscript target index span => .expr (.subscript target index span) :: (target.nodes ++ index.nodes)

/-- the nodes of expressions that follow one another -/
def Expr.nodesOf : List Expr → List Node
  | [] => []
  | e :: es => e.nodes ++ Expr.nodesOf es

/-- a statement and all that is in it -/
def Stmt.nodes : Stmt → List Node
  | .cond condition body span => .stmt (.cond condition body span) :: (condition.nodes ++ body.nodes)
  | .declare d => .stmt (.declare d) :: d.nodes
  | .giveBack none span => [.stmt (.giveBack none span)]
  | .giveBack (some e) span => .stmt (.giveBack (some e) span) :: e.nodes
  | .eval e span => .stmt (.eval e span) :: e.nodes
  | .pub d span => .stmt (.pub d span) :: d.nodes
  | .use path names span => [.stmt (.use path names span)]

/-- the nodes of statements that follow one another -/
def Stmt.nodesOf : List Stmt → List Node
  | [] => []
  | s :: ss => s.nodes ++ Stmt.nodesOf ss

/-- the nodes of a declared variable's first value -/
def Declaration.nodes : Declaration → List Node
  | ⟨_, _, value, _⟩ => value.nodes

def Block.nodes : Block → List Node
  | ⟨body, _⟩ => Stmt.nodesOf body

end

namespace Node

/-- the number of a function literal -/
def literal? : Node → Option Nat
  | expr (.function id _ _ _ _) => some id
  | _ => none

/-- the machine knows the operator of a binary expression -/
def OperatorKnown : Node → Prop
  | expr (.binary op _ _ _) => ∃ o, BinaryOp.ofText? op = some o
  | _ => True

/-- the annotations of a function literal or a declaration -/
def notes : Node → List Note
  | expr (.function _ params result _ _) => params.map Parameter.note ++ [result]
  | stmt (.declare d) => d.note.toList
  | stmt (.pub d _) => d.note.toList
  | _ => []

end Node

/-- the numbers of the function literals among nodes -/
def literalIds (nodes : List Node) : List Nat := nodes.filterMap Node.literal?

@[simp] theorem literalIds_nil : literalIds [] = [] := rfl

@[simp] theorem literalIds_append (xs ys : List Node) : literalIds (xs ++ ys) = literalIds xs ++ literalIds ys :=
  List.filterMap_append

@[simp] theorem literalIds_cons (x : Node) (xs : List Node) :
    literalIds (x :: xs) = x.literal?.toList ++ literalIds xs := by
  unfold literalIds
  rw [List.filterMap_cons]
  cases x.literal? <;> rfl

theorem literalIds_cons_of_none {x : Node} (xs : List Node) (h : x.literal? = none) :
    literalIds (x :: xs) = literalIds xs :=
  List.filterMap_cons_none h

theorem literalIds_cons_of_some {x : Node} {id : Nat} (xs : List Node) (h : x.literal? = some id) :
    literalIds (x :: xs) = id :: literalIds xs :=
  List.filterMap_cons_some h

end TypedScript
