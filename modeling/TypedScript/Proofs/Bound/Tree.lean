/-
Bound trees: syntax trees in which every name has given way to the cell of the variable it means. The check of a module
finds one cell for each name, and the code of a module is laid down with one cell for each name; either way what remains
is a bound tree. It says all there is to say about running the module: `Bound.Function.template` lays down its code
without looking anything up.
-/
import TypedScript.Code.Compile

namespace TypedScript

namespace Bound

mutual

inductive Expr
  | number (value : Int64)
  | text (value : String)
  | truth (value : Bool)
  | read (cell : Cell)
  | self
  | list (items : List Expr)
  | function (f : Function)
  | call (callee : Expr) (arguments : List Expr)
  | assign (cell : Cell) (value : Expr)
  | binary (operator : BinaryOp) (left right : Expr)
  | subscript (target index : Expr)

inductive Stmt
  | cond (condition : Expr) (body : List Stmt)
  | declare (cell : Cell) (value : Expr)
  | giveBack (value : Option Expr)
  | eval (expr : Expr)
  /-- an import of exports of the module with the key, each with the cell of the variable it is imported as -/
  | use (module : String) (names : List (String × Cell))

/-- a function literal, or the body of a module -/
structure Function where
  /-- the place among the bodies of its module -/
  number : Nat
  signature : Signature
  params : List Cell
  /-- the cells of the variables that the body declares -/
  locals : List Cell
  body : List Stmt

end

instance : Inhabited Expr := ⟨.self⟩

instance : Inhabited Stmt := ⟨.giveBack none⟩

instance : Inhabited Function := ⟨⟨0, default, [], [], []⟩⟩

/-- the signature of a module's body, which takes nothing and gives nothing -/
def moduleSignature : Signature := ⟨[], .void⟩

/-! ## Declared variables -/

mutual

/-- the cells of the variables that a statement declares, not counting those of function literals in it -/
def Stmt.declared : Stmt → List Cell
  | .cond _ body => Stmt.declaredIn body
  | .declare cell _ => [cell]
  | .use _ names => names.map Prod.snd
  | .giveBack _ => []
  | .eval _ => []

def Stmt.declaredIn : List Stmt → List Cell
  | [] => []
  | s :: ss => s.declared ++ Stmt.declaredIn ss

end

/-! ## Code -/

/-- code that fetches each of a module's exports into a cell -/
def fetches (module : String) : List (String × Cell) → Code
  | [] => []
  | (name, cell) :: names => .loadImport module name :: .store cell :: fetches module names

mutual

/-- code that leaves an expression's value -/
def Expr.code : Expr → Code
  | .number value => [.push (.int value)]
  | .text value => [.push (.str value)]
  | .truth value => [.push (.bool value)]
  | .read cell => [.load cell]
  | .self => [.loadSelf]
  | .list items => Expr.codeOf items ++ [.makeList items.length]
  | .function f => [.push (.function (f.template false))]
  | .call callee arguments => Expr.codeOf arguments ++ callee.code ++ [.dispatch arguments.length]
  | .assign cell value => value.code ++ [.store cell, .push .none]
  | .binary op left right => left.code ++ right.code ++ [.binary op]
  | .subscript target index => target.code ++ index.code ++ [.subscript]

/-- code that leaves the values of expressions, the last one on top -/
def Expr.codeOf : List Expr → Code
  | [] => []
  | e :: es => e.code ++ Expr.codeOf es

/-- code for a statement whose first instruction stands at `start` -/
def Stmt.code (start : Nat) : Stmt → Code
  | .cond condition body =>
    let inner := start + condition.code.length + 1
    let code := Stmt.codeOf inner body
    condition.code ++ .jumpIfFalse (inner + code.length) :: code
  | .declare cell value => value.code ++ [.store cell]
  | .giveBack none => [.push .none, .giveBack]
  | .giveBack (some e) => e.code ++ [.giveBack]
  | .eval (.assign cell value) => value.code ++ [.store cell]
  | .eval e => e.code ++ [.pop]
  | .use module names => fetches module names

/-- code for statements, the first of which starts at `start` -/
def Stmt.codeOf (start : Nat) : List Stmt → Code
  | [] => []
  | s :: ss => s.code start ++ Stmt.codeOf (start + (s.code start).length) ss

/-- the template of a body -/
def Function.template (isModule : Bool) : Function → Template
  | ⟨number, _, params, locals, body⟩ =>
    ⟨number, params, locals.map .reserve ++ Stmt.codeOf locals.length body ++ Compile.ending isModule⟩

end

end Bound

end TypedScript
