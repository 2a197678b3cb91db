/-
Reading expressions, statements and blocks. An expression is an operand and then, from left to right, each operator,
argument list or subscript that binds more tightly than the place the expression stands in. The right operand of a
binary operator stands in a place of the operator's own power, which makes the operators associate to the left; the
value of an assignment stands in a place of the weakest power, which makes assignments associate to the right.
Parentheses leave no trace in the tree.
-/
import TypedScript.Tree.Parse.Note

namespace TypedScript.Parse

/-- the value of a number's text: an optional sign and decimal digits, within 64 bits -/
def int64? (text : String) : Option Int64 :=
  let value : Option Int :=
    match text.toList with
    | '-' :: digits => (decimal? digits).map fun n => -Int.ofNat n
    | '+' :: digits => (decimal? digits).map Int.ofNat
    | digits => (decimal? digits).map Int.ofNat
  value.bind fun n =>
    if Int64.minValue.toInt ≤ n ∧ n ≤ Int64.maxValue.toInt then some (Int64.ofInt n) else none
where
  /-- the value of one or more decimal digits -/
  decimal? (digits : List Char) : Option Nat :=
    if digits ≠ [] ∧ digits.all Char.isDigit then
      some (digits.foldl (fun n c => 10 * n + (c.toNat - '0'.toNat)) 0)
    else none

/-- an expression of one token -/
def primary : Parse Expr := do
  let token := (← get).current
  match token.kind with
  | .number =>
    match int64? token.value with
    | some value =>
      let _ ← advance
      return .number value token.span
    | none => throw ⟨.numberParse token.value, token.span.start⟩
  | .string =>
    let _ ← advance
    return .text token.value token.span
  | .identifier =>
    let _ ← advance
    return .ident token.value token.span
  | .trueWord =>
    let _ ← advance
    return .truth true token.span
  | .falseWord =>
    let _ ← advance
    return .truth false token.span
  | .selfWord =>
    let _ ← advance
    return .self token.span
  | _ => unexpected

/-- pass the comma behind an item of a list; without one the list must close here -/
def separator (close : TokenKind) : Parse Unit := do
  if (← kind) = .comma then
    let _ ← advance
  else if (← kind) ≠ close then unexpected

/-- the parameters of a function literal, up to the parenthesis that closes them -/
def params : Nat → Parse (List Parameter)
  | 0 => unexpected
  | fuel + 1 => do
    if (← kind) = .closeParen then return []
    else
      let name ← expectDetailed .identifier "expected parameter name"
      let _ ← expect .colon
      let type ← note .default
      let span ← spanFrom name.span.start
      separator .closeParen
      let rest ← params fuel
      return ⟨name.value, type, span⟩ :: rest

/-- the names an import asks for, up to the parenthesis that closes them -/
def useNames : Nat → Parse (List String)
  | 0 => unexpected
  | fuel + 1 => do
    if (← kind) = .closeParen then return []
    else
      let name ← expect .identifier
      separator .closeParen
      let rest ← useNames fuel
      return name.value :: rest

/-- the type behind a colon, if there is a colon -/
def annotation : Parse (Option Note) := do
  if (← kind) = .colon then
    let _ ← advance
    return some (← note .default)
  else return none

/-- the names an import asks for in parentheses, if it asks for some -/
def useFilter : Parse (Option (List String)) := do
  if (← kind) = .openParen then
    let _ ← advance
    let names ← useNames (← get).depth
    let _ ← expect .closeParen
    return some names
  else return none

/-- an import, from its first word -/
def useStmt : Parse Stmt := do
  let word ← advance
  let path ← expectDetailed .string "expected a module path string"
  let names ← useFilter
  let _ ← expect .semicolon
  return .use path.value names (← spanFrom word.span.start)

mutual

/-- an expression in a place of the given power -/
def exprWithin : Nat → BindingPower → Parse Expr
  | 0, _ => unexpected
  | fuel + 1, power => do
    let left ← operand fuel
    exprTail fuel power left

/-- what an expression starts with -/
def operand : Nat → Parse Expr
  | 0 => unexpected
  | fuel + 1 => do
    match ← kind with
    | .fnWord => functionLiteral fuel
    | .openBracket =>
      let bracket ← advance
      let items ← exprItems fuel .closeBracket
      let _ ← expect .closeBracket
      return .list items (← spanFrom bracket.span.start)
    | .openParen =>
      let _ ← advance
      let expr ← exprWithin fuel .default
      let _ ← expect .closeParen
      return expr
    | _ => primary

/-- what follows an expression and binds more tightly than `power` -/
def exprTail : Nat → BindingPower → Expr → Parse Expr
  | 0, _, _ => unexpected
  | fuel + 1, power, left => do
    let token := (← get).current
    let tightness := BindingPower.ofToken token.kind
    if power.weaker tightness then
      let _ ← advance
      match token.kind with
      | .assignment =>
        let value ← exprWithin fuel .default
        exprTail fuel power (.assign left value ⟨left.span.start, value.span.stop⟩)
      | .openParen =>
        let arguments ← exprItems fuel .closeParen
        let _ ← expect .closeParen
        let span ← spanFrom left.span.start
        exprTail fuel power (.call left arguments span)
      | .openBracket =>
        let index ← exprWithin fuel .default
        let _ ← expect .closeBracket
        let span ← spanFrom left.span.start
        exprTail fuel power (.subscript left index span)
      | _ =>
        let right ← exprWithin fuel tightness
        exprTail fuel power (.binary token.value left right ⟨left.span.start, right.span.stop⟩)
    else return left

/-- expressions separated by commas, up to the token that closes them -/
def exprItems : Nat → TokenKind → Parse (List Expr)
  | 0, _ => unexpected
  | fuel + 1, close => do
    if (← kind) = close then return []
    else
      let item ← exprWithin fuel .default
      separator close
      let items ← exprItems fuel close
      return item :: items

/-- a function literal, from its first word; one that names no result gives none -/
def functionLiteral : Nat → Parse Expr
  | 0 => unexpected
  | fuel + 1 => do
    let word ← advance
    let id ← freshId
    let _ ← expect .openParen
    let parameters ← params (← get).depth
    let _ ← expect .closeParen
    let result ← annotation
    let body ← blockWithin fuel
    return .function id parameters (result.getD .void) body (← spanFrom word.span.start)

/-- a declaration, from its first word -/
def declaration : Nat → Parse Declaration
  | 0 => unexpected
  | fuel + 1 => do
    let word ← expect .letWord
    let name ← expectDetailed .identifier "expected identifier during variable declaration"
    let type ← annotation
    let _ ← expectDetailed .declare "declarations are written `let name := value;`"
    let value ← exprWithin fuel .default
    let _ ← expect .semicolon
    return ⟨name.value, type, value, ← spanFrom word.span.start⟩

def stmtWithin : Nat → Parse Stmt
  | 0 => unexpected
  | fuel + 1 => do
    match ← kind with
    | .letWord => return .declare (← declaration fuel)
    | .ifWord =>
      let word ← advance
      let condition ← exprWithin fuel .default
      let body ← blockWithin fuel
      return .cond condition body (← spanFrom word.span.start)
    | .returnWord =>
      let word ← advance
      if (← kind) = .semicolon then
        let _ ← advance
        return .giveBack none (← spanFrom word.span.start)
      else
        let value ← exprWithin fuel .default
        let _ ← expect .semicolon
        return .giveBack (some value) (← spanFrom word.span.start)
    | .pubWord =>
      let word ← advance
      if (← kind) ≠ .letWord then unexpectedDetailed "only declarations can be exported"
      else
        let declared ← declaration fuel
        return .pub declared (← spanFrom word.span.start)
    | .useWord => useStmt
    | _ =>
      let expr ← exprWithin fuel .default
      let _ ← expect .semicolon
      return .eval expr (← spanFrom expr.span.start)

/-- statements between curly brackets -/
def blockWithin : Nat → Parse Block
  | 0 => unexpected
  | fuel + 1 => do
    let bracket ← expect .openCurly
    let body ← blockBody fuel
    let _ ← expect .closeCurly
    return ⟨body, ← spanFrom bracket.span.start⟩

/-- statements up to the curly bracket that closes them -/
def blockBody : Nat → Parse (List Stmt)
  | 0 => unexpected
  | fuel + 1 => do
    match ← kind with
    | .closeCurly => return []
    | .endOfText => unexpected
    | _ =>
      let stmt ← stmtWithin fuel
      let rest ← blockBody fuel
      return stmt :: rest

end

/-- an expression in a place of the given power -/
def expr (power : BindingPower) : Parse Expr := do exprWithin (← get).depth power

def stmt : Parse Stmt := do stmtWithin (← get).depth

/-- statements between curly brackets -/
def block : Parse Block := do blockWithin (← get).depth

end TypedScript.Parse
