/-
The rules of the grammar without a limit. The parser nests its rules no deeper than a number that it takes from the
tokens left, and fails where that number is used up. Here a rule asks someone else for its parts: `Readers` has an
answer for every part, and `Readers.rules` is one turn of all rules over such answers. Readers that are their own rules
read without any limit, and `Readers.nested` turns the rules a number of times over answers that may be anything at all.

- `Readers.nested_of_rules`: readers that are their own rules stay the same however often the rules are turned.
-/
import TypedScript.Tree.Parse

namespace TypedScript.Parse

/-- what reads each part that a rule may ask for -/
structure Readers where
  marks : BindingPower → Note → Parse Note
  note : BindingPower → Parse Note
  head : Parse Note
  noteItems : Parse (List Note)
  params : Parse (List Parameter)
  useNames : Parse (List String)
  expr : BindingPower → Parse Expr
  operand : Parse Expr
  tail : BindingPower → Expr → Parse Expr
  exprItems : TokenKind → Parse (List Expr)
  literal : Parse Expr
  declaration : Parse Declaration
  stmt : Parse Stmt
  block : Parse Block
  body : Parse (List Stmt)
  stmts : Parse (List Stmt)
deriving Inhabited

namespace Readers

variable (r : Readers)

/-! ## Types -/

def turnMarks (power : BindingPower) (note : Note) : Parse Note := do
  if (← kind) = .question ∧ power.weaker .call then
    let _ ← advance
    r.marks power (.optional note)
  else return note

def turnNote (power : BindingPower) : Parse Note := do
  let note ← r.head
  r.marks power note

def turnHead : Parse Note := do
  match ← kind with
  | .identifier =>
    let name ← advance
    return .named name.value
  | .openBracket =>
    let _ ← advance
    let element ← r.note .default
    let _ ← expect .closeBracket
    return .list element
  | .openParen =>
    let _ ← advance
    let items ← r.noteItems
    let _ ← expect .closeParen
    if (← kind) = .arrow then
      let _ ← advance
      let result ← r.note .default
      return .function items result
    else return .tuple items
  | _ => unexpected

def turnNoteItems : Parse (List Note) := do
  if (← kind) = .closeParen then return []
  else
    let item ← r.note .default
    if (← kind) = .comma then
      let _ ← advance
    let items ← r.noteItems
    return item :: items

def annotation : Parse (Option Note) := do
  if (← kind) = .colon then
    let _ ← advance
    return some (← r.note .default)
  else return none

/-! ## Parameters and imports -/

def turnParams : Parse (List Parameter) := do
  if (← kind) = .closeParen then return []
  else
    let name ← expectDetailed .identifier "expected parameter name"
    let _ ← expect .colon
    let type ← r.note .default
    let span ← spanFrom name.span.start
    separator .closeParen
    let rest ← r.params
    return ⟨name.value, type, span⟩ :: rest

def turnUseNames : Parse (List String) := do
  if (← kind) = .closeParen then return []
  else
    let name ← expect .identifier
    separator .closeParen
    let rest ← r.useNames
    return name.value :: rest

def useFilter : Parse (Option (List String)) := do
  if (← kind) = .openParen then
    let _ ← advance
    let names ← r.useNames
    let _ ← expect .closeParen
    return some names
  else return none

def useStmt : Parse Stmt := do
  let word ← advance
  let path ← expectDetailed .string "expected a module path string"
  let names ← r.useFilter
  let _ ← expect .semicolon
  return .use path.value names (← spanFrom word.span.start)

/-! ## Expressions -/

def turnExpr (power : BindingPower) : Parse Expr := do
  let left ← r.operand
  r.tail power left

def turnOperand : Parse Expr := do
  match ← kind with
  | .fnWord => r.literal
  | .openBracket =>
    let bracket ← advance
    let items ← r.exprItems .closeBracket
    let _ ← expect .closeBracket
    return .list items (← spanFrom bracket.span.start)
  | .openParen =>
    let _ ← advance
    let expr ← r.expr .default
    let _ ← expect .closeParen
    return expr
  | _ => primary

def turnTail (power : BindingPower) (left : Expr) : Parse Expr := do
  let token := (← get).current
  let tightness := BindingPower.ofToken token.kind
  if power.weaker tightness then
    let _ ← advance
    match token.kind with
    | .assignment =>
      let value ← r.expr .default
      r.tail power (.assign left value ⟨left.span.start, value.span.stop⟩)
    | .openParen =>
      let arguments ← r.exprItems .closeParen
      let _ ← expect .closeParen
      let span ← spanFrom left.span.start
      r.tail power (.call left arguments span)
    | .openBracket =>
      let index ← r.expr .default
      let _ ← expect .closeBracket
      let span ← spanFrom left.span.start
      r.tail power (.subscript left index span)
    | _ =>
      let right ← r.expr tightness
      r.tail power (.binary token.value left right ⟨left.span.start, right.span.stop⟩)
  else return left

def turnExprItems (close : TokenKind) : Parse (List Expr) := do
  if (← kind) = close then return []
  else
    let item ← r.expr .default
    separator close
    let items ← r.exprItems close
    return item :: items

def turnLiteral : Parse Expr := do
  let word ← advance
  let id ← freshId
  let _ ← expect .openParen
  let parameters ← r.params
  let _ ← expect .closeParen
  let result ← r.annotation
  let body ← r.block
  return .function id parameters (result.getD .void) body (← spanFrom word.span.start)

/-! ## Statements -/

def turnDeclaration : Parse Declaration := do
  let word ← expect .letWord
  let name ← expectDetailed .identifier "expected identifier during variable declaration"
  let type ← r.annotation
  let _ ← expectDetailed .declare "declarations are written `let name := value;`"
  let value ← r.expr .default
  let _ ← expect .semicolon
  return ⟨name.value, type, value, ← spanFrom word.span.start⟩

def turnStmt : Parse Stmt := do
  match ← kind with
  | .letWord => return .declare (← r.declaration)
  | .ifWord =>
    let word ← advance
    let condition ← r.expr .default
    let body ← r.block
    return .cond condition body (← spanFrom word.span.start)
  | .returnWord =>
    let word ← advance
    if (← kind) = .semicolon then
      let _ ← advance
      return .giveBack none (← spanFrom word.span.start)
    else
      let value ← r.expr .default
      let _ ← expect .semicolon
      return .giveBack (some value) (← spanFrom word.span.start)
  | .pubWord =>
    let word ← advance
    if (← kind) ≠ .letWord then unexpectedDetailed "only declarations can be exported"
    else
      let declared ← r.declaration
      return .pub declared (← spanFrom word.span.start)
  | .useWord => r.useStmt
  | _ =>
    let expr ← r.expr .default
    let _ ← expect .semicolon
    return .eval expr (← spanFrom expr.span.start)

def turnBlock : Parse Block := do
  let bracket ← expect .openCurly
  let body ← r.body
  let _ ← expect .closeCurly
  return ⟨body, ← spanFrom bracket.span.start⟩

def turnBody : Parse (List Stmt) := do
  match ← kind with
  | .closeCurly => return []
  | .endOfText => unexpected
  | _ =>
    let stmt ← r.stmt
    let rest ← r.body
    return stmt :: rest

def turnStmts : Parse (List Stmt) := do
  if (← kind) = .endOfText then return []
  else
    let first ← r.stmt
    let rest ← r.stmts
    return first :: rest

/-- all that is left, as the body of a module -/
def module : Parse Block := do
  let c ← get
  let body ← r.stmts
  return ⟨body, ← spanFrom c.position⟩

/-! ## Turns -/

/-- every rule once, with its parts read by `r` -/
def rules : Readers where
  marks := r.turnMarks
  note := r.turnNote
  head := r.turnHead
  noteItems := r.turnNoteItems
  params := r.turnParams
  useNames := r.turnUseNames
  expr := r.turnExpr
  operand := r.turnOperand
  tail := r.turnTail
  exprItems := r.turnExprItems
  literal := r.turnLiteral
  declaration := r.turnDeclaration
  stmt := r.turnStmt
  block := r.turnBlock
  body := r.turnBody
  stmts := r.turnStmts

/-- the rules nested a number of times; what lies deeper is left to `r` -/
def nested : Nat → Readers
  | 0 => r
  | n + 1 => (nested n).rules

variable {r}

/-- readers that are their own rules -/
theorem nested_of_rules (h : r = r.rules) (n : Nat) : r.nested n = r := by
  induction n with
  | zero => rfl
  | succ n ih => rw [nested, ih, ← h]

end Readers

end TypedScript.Parse
