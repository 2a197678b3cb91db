/-
Reading a module: statements up to the end of the text, one after the other, until the first that cannot be read.
`Parse.Bare` reads with no rule for any token, as before the rules of the language are laid down: an expression of more
than one token, a type or a statement is then out of place wherever it starts.
-/
import TypedScript.Token.Scan
import TypedScript.Tree.Parse.Stmt

namespace TypedScript

namespace Parse

/-- statements up to the end of the text -/
def stmts : Nat → Parse (List Stmt)
  | 0 => unexpected
  | fuel + 1 => do
    if (← kind) = .endOfText then return []
    else
      let first ← stmt
      let rest ← stmts fuel
      return first :: rest

/-- all that is left, as the body of a module -/
def module : Parse Block := do
  let c ← get
  let body ← stmts c.depth
  return ⟨body, ← spanFrom c.position⟩

namespace Bare

def expr : Parse Expr := unexpected

def note : Parse Note := unexpected

def stmt : Parse Stmt := unexpected

/-- statements between curly brackets, of which there can be none -/
def block : Parse Block := do
  let bracket ← expect .openCurly
  let _ ← expect .closeCurly
  return ⟨[], ← spanFrom bracket.span.start⟩

end Bare

end Parse

/-- the tree of a list of tokens -/
def parseTokens (tokens : List Token) : Except SyntaxError Block :=
  match Parse.module.run (.ofTokens tokens) with
  | .ok block _ => .ok block
  | .error e _ => .error e

/-- the tree of a source text -/
def parse (source : String) : Except SyntaxError Block := do parseTokens (← tokenize source)

end TypedScript
