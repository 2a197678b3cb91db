/-
Syntax trees: what source text means as nested statements and expressions, every node with its span. A module is a
block. A function literal carries a number that tells it from the other literals of its module, and an operator is kept
as it is written, so that a tree may hold an operator the language does not have.
-/
import TypedScript.Source

namespace TypedScript

/-- a type as it is written -/
inductive Note
  | any
  | void
  | ident (name : String)
  | list (element : Note)
  | optional (child : Note)
  | tuple (items : List Note)
  | function (params : List Note) (result : Note)
deriving Inhabited

/-- a name as a type: two names are kept for built-in types -/
def Note.named (name : String) : Note :=
  if name = "Any" then .any else if name = "Void" then .void else .ident name

/-- a parameter of a function literal -/
structure Parameter where
  name : String
  note : Note
  span : Span
deriving Inhabited

mutual

inductive Expr
  | number (value : Int64) (span : Span)
  | text (value : String) (span : Span)
  | truth (value : Bool) (span : Span)
  | ident (name : String) (span : Span)
  /-- the function whose body this is -/
  | self (span : Span)
  | list (items : List Expr) (span : Span)
  | function (id : Nat) (params : List Parameter) (result : Note) (body : Block) (span : Span)
  | call (callee : Expr) (arguments : List Expr) (span : Span)
  | assign (target value : Expr) (span : Span)
  | binary (operator : String) (left right : Expr) (span : Span)
  | subscript (target index : Expr) (span : Span)

inductive Stmt
  | cond (condition : Expr) (body : Block) (span : Span)
  | declare (declaration : Declaration)
  | giveBack (value : Option Expr) (span : Span)
  | eval (expr : Expr) (span : Span)
  /-- a declaration that other modules may import -/
  | pub (declaration : Declaration) (span : Span)
  /-- an import of another module's exports, all of them or those named -/
  | use (path : String) (names : Option (List String)) (span : Span)

/-- a new variable and its first value -/
structure Declaration where
  name : String
  note : Option Note
  value : Expr
  span : Span

structure Block where
  body : List Stmt
  span : Span

end

namespace Expr

def span : Expr → Span
  | number _ span => span
  | text _ span => span
  | truth _ span => span
  | ident _ span => span
  | self span => span
  | list _ span => span
  | function _ _ _ _ span => span
  | call _ _ span => span
  | assign _ _ span => span
  | binary _ _ _ span => span
  | subscript _ _ span => span

instance : Inhabited Expr := ⟨.self .null⟩

end Expr

instance : Inhabited Declaration := ⟨⟨"", none, default, .null⟩⟩

instance : Inhabited Block := ⟨⟨[], .null⟩⟩

namespace Stmt

def span : Stmt → Span
  | cond _ _ span => span
  | declare declaration => declaration.span
  | giveBack _ span => span
  | eval _ span => span
  | pub _ span => span
  | use _ _ span => span

instance : Inhabited Stmt := ⟨.eval default .null⟩

/-- the path of an import -/
def usePath? : Stmt → Option String
  | use path _ _ => some path
  | _ => none

end Stmt

/-- the paths of the imports that stand directly in a block, in their order -/
def Block.imports (block : Block) : List String := block.body.filterMap Stmt.usePath?

end TypedScript
