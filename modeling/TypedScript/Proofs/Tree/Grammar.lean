/-
The grammar of the language, apart from any way of reading it: which tokens stand for which tree. A tree is bare here,
without spans and with every function literal numbered zero. Binary operators stand on five levels. On each level they
associate to the left, and an operand of a level is an expression of the next tighter level or, on the tightest, a
primary expression with any argument lists and subscripts behind it. An assignment binds more weakly than all operators
and associates to the right.

- `Expr.bare`, `Block.bare`: a tree without what the tokens' places decide.
- `Grammar.IsExpr`, `Grammar.IsStmt`, `Grammar.IsModule`: the tokens of expressions, statements and modules.
-/
import Mathlib.Data.Nat.Digits.Defs
import TypedScript.Token
import TypedScript.Tree

namespace TypedScript

/-! ## Bare trees -/

def Parameter.bare (p : Parameter) : Parameter := { p with span := .null }

mutual

/-- an expression without spans, its function literals numbered zero -/
def Expr.bare : Expr → Expr
  | .number value _ => .number value .null
  | .text value _ => .text value .null
  | .truth value _ => .truth value .null
  | .ident name _ => .ident name .null
  | .self _ => .self .null
  | .list items _ => .list (Expr.bareOf items) .null
  | .function _ params result body _ => .function 0 (params.map Parameter.bare) result body.bare .null
  | .call callee arguments _ => .call callee.bare (Expr.bareOf arguments) .null
  | .assign target value _ => .assign target.bare value.bare .null
  | .binary op left right _ => .binary op left.bare right.bare .null
  | .subscript target index _ => .subscript target.bare index.bare .null

def Expr.bareOf : List Expr → List Expr
  | [] => []
  | e :: es => e.bare :: Expr.bareOf es

def Stmt.bare : Stmt → Stmt
  | .cond condition body _ => .cond condition.bare body.bare .null
  | .declare d => .declare d.bare
  | .giveBack none _ => .giveBack none .null
  | .giveBack (some e) _ => .giveBack (some e.bare) .null
  | .eval e _ => .eval e.bare .null
  | .pub d _ => .pub d.bare .null
  | .use path names _ => .use path names .null

def Stmt.bareOf : List Stmt → List Stmt
  | [] => []
  | s :: ss => s.bare :: Stmt.bareOf ss

def Declaration.bare : Declaration → Declaration
  | ⟨name, note, value, _⟩ => ⟨name, note, value.bare, .null⟩

def Block.bare : Block → Block
  | ⟨body, _⟩ => ⟨Stmt.bareOf body, .null⟩

end

theorem Expr.bareOf_eq_map (items : List Expr) : Expr.bareOf items = items.map Expr.bare := by
  induction items with
  | nil => rfl
  | cons e items ih => rw [Expr.bareOf, ih, List.map_cons]

/-- the kind of the first of the tokens, or of the end of the text -/
def headKind : List Token → TokenKind
  | [] => .endOfText
  | t :: _ => t.kind

@[simp] theorem headKind_nil : headKind [] = .endOfText := rfl

@[simp] theorem headKind_cons (t : Token) (ts : List Token) : headKind (t :: ts) = t.kind := rfl

namespace Grammar

/-! ## Parts -/

/-- items between commas; there may be a comma behind the last one -/
inductive IsList {α : Type} (IsItem : List Token → α → Prop) : List Token → List α → Prop
  | empty : IsList IsItem [] []
  | last {ts item} (h : IsItem ts item) : IsList IsItem ts [item]
  | more {ts item comma us items} (h : IsItem ts item) (hcomma : comma.kind = .comma) (rest : IsList IsItem us items) :
      IsList IsItem (ts ++ comma :: us) (item :: items)

mutual

/-- a type -/
inductive IsNote : List Token → Note → Prop
  | marked {ts n} (h : IsMarked ts n) : IsNote ts n
  | function {opening ts params closing arrow us result} (hopening : opening.kind = .openParen)
      (hparams : IsNotes ts params) (hclosing : closing.kind = .closeParen) (harrow : arrow.kind = .arrow)
      (hresult : IsNote us result) : IsNote (opening :: (ts ++ closing :: arrow :: us)) (.function params result)

/-- a type that is no function type, with any number of question marks behind it -/
inductive IsMarked : List Token → Note → Prop
  | any {t} (h : t.kind = .identifier) (hany : t.value = "Any") : IsMarked [t] .any
  | void {t} (h : t.kind = .identifier) (hvoid : t.value = "Void") : IsMarked [t] .void
  | ident {t} (h : t.kind = .identifier) (hany : t.value ≠ "Any") (hvoid : t.value ≠ "Void") :
      IsMarked [t] (.ident t.value)
  | list {opening ts element closing} (hopening : opening.kind = .openBracket) (h : IsNote ts element)
      (hclosing : closing.kind = .closeBracket) : IsMarked (opening :: (ts ++ [closing])) (.list element)
  | tuple {opening ts items closing} (hopening : opening.kind = .openParen) (h : IsNotes ts items)
      (hclosing : closing.kind = .closeParen) : IsMarked (opening :: (ts ++ [closing])) (.tuple items)
  | optional {ts child mark} (h : IsMarked ts child) (hmark : mark.kind = .question) :
      IsMarked (ts ++ [mark]) (.optional child)

/-- types that follow one another, each with a comma behind it or without one -/
inductive IsNotes : List Token → List Note → Prop
  | empty : IsNotes [] []
  | more {ts item us items} (h : IsNote ts item) (rest : IsNotes us items) : IsNotes (ts ++ us) (item :: items)
  | comma {ts item comma us items} (h : IsNote ts item) (hcomma : comma.kind = .comma) (rest : IsNotes us items) :
      IsNotes (ts ++ comma :: us) (item :: items)

end

/-- a colon and a type, or nothing -/
inductive IsAnnotation : List Token → Option Note → Prop
  | none : IsAnnotation [] none
  | some {colon ts n} (hcolon : colon.kind = .colon) (h : IsNote ts n) : IsAnnotation (colon :: ts) (some n)

inductive IsParameter : List Token → Parameter → Prop
  | mk {name colon ts n} (hname : name.kind = .identifier) (hcolon : colon.kind = .colon) (h : IsNote ts n) :
      IsParameter (name :: colon :: ts) ⟨name.value, n, .null⟩

inductive IsName : List Token → String → Prop
  | mk {name} (h : name.kind = .identifier) : IsName [name] name.value

/-- names in parentheses, or nothing -/
inductive IsFilter : List Token → Option (List String) → Prop
  | none : IsFilter [] none
  | some {opening ts names closing} (hopening : opening.kind = .openParen) (h : IsList IsName ts names)
      (hclosing : closing.kind = .closeParen) : IsFilter (opening :: (ts ++ [closing])) (some names)

/-- the number that decimal digits stand for -/
def numeral (digits : List Char) : Nat := Nat.ofDigits 10 (digits.reverse.map fun c => c.toNat - '0'.toNat)

/-! ## Expressions and statements -/

/-- the levels of binary operators, from the weakest to the tightest -/
inductive Level
  | or
  | and
  | relational
  | additive
  | multiplicative
deriving DecidableEq

namespace Level

def operators : Level → List (TokenKind × String)
  | or => [(.or, "||")]
  | and => [(.and, "&&")]
  | relational =>
    [(.less, "<"), (.lessEquals, "<="), (.greater, ">"), (.greaterEquals, ">="), (.equals, "=="), (.notEquals, "!=")]
  | additive => [(.plus, "+"), (.dash, "-")]
  | multiplicative => [(.star, "*"), (.slash, "/"), (.percent, "%")]

/-- the next tighter level -/
def tighter? : Level → Option Level
  | or => some and
  | and => some relational
  | relational => some additive
  | additive => some multiplicative
  | multiplicative => none

end Level

mutual

inductive IsExpr : List Token → Expr → Prop
  | operators {ts e} (h : IsBinary .or ts e) : IsExpr ts e
  | assign {ts target mark us value} (h : IsBinary .or ts target) (hmark : mark.kind = .assignment)
      (hvalue : IsExpr us value) : IsExpr (ts ++ mark :: us) (.assign target value .null)

/-- an expression whose outermost operators are those of a level or tighter ones -/
inductive IsBinary : Level → List Token → Expr → Prop
  | operand {level ts e} (h : IsOperand level ts e) : IsBinary level ts e
  | apply {level ts left op us right} (h : IsBinary level ts left) (hop : (op.kind, op.value) ∈ level.operators)
      (hright : IsOperand level us right) : IsBinary level (ts ++ op :: us) (.binary op.value left right .null)

/-- an operand of a level's operators -/
inductive IsOperand : Level → List Token → Expr → Prop
  | tighter {level next ts e} (hnext : level.tighter? = some next) (h : IsBinary next ts e) : IsOperand level ts e
  | applied {level ts e} (hnext : level.tighter? = none) (h : IsApplied ts e) : IsOperand level ts e

/-- a primary expression with argument lists and subscripts behind it -/
inductive IsApplied : List Token → Expr → Prop
  | primary {ts e} (h : IsPrimary ts e) : IsApplied ts e
  | call {ts callee opening us arguments closing} (h : IsApplied ts callee) (hopening : opening.kind = .openParen)
      (harguments : IsExprs us arguments) (hclosing : closing.kind = .closeParen) :
      IsApplied (ts ++ opening :: (us ++ [closing])) (.call callee arguments .null)
  | subscript {ts target opening us index closing} (h : IsApplied ts target) (hopening : opening.kind = .openBracket)
      (hindex : IsExpr us index) (hclosing : closing.kind = .closeBracket) :
      IsApplied (ts ++ opening :: (us ++ [closing])) (.subscript target index .null)

inductive IsPrimary : List Token → Expr → Prop
  | number {t} (h : t.kind = .number) (hfits : numeral t.value.toList < 2 ^ 63) :
      IsPrimary [t] (.number (Int64.ofNat (numeral t.value.toList)) .null)
  | text {t} (h : t.kind = .string) : IsPrimary [t] (.text t.value .null)
  | ident {t} (h : t.kind = .identifier) : IsPrimary [t] (.ident t.value .null)
  | yes {t} (h : t.kind = .trueWord) : IsPrimary [t] (.truth true .null)
  | no {t} (h : t.kind = .falseWord) : IsPrimary [t] (.truth false .null)
  | self {t} (h : t.kind = .selfWord) : IsPrimary [t] (.self .null)
  | parentheses {opening ts e closing} (hopening : opening.kind = .openParen) (h : IsExpr ts e)
      (hclosing : closing.kind = .closeParen) : IsPrimary (opening :: (ts ++ [closing])) e
  | list {opening ts items closing} (hopening : opening.kind = .openBracket) (h : IsExprs ts items)
      (hclosing : closing.kind = .closeBracket) : IsPrimary (opening :: (ts ++ [closing])) (.list items .null)
  | function {word opening ts params closing us result vs body} (hword : word.kind = .fnWord)
      (hopening : opening.kind = .openParen) (hparams : IsList IsParameter ts params)
      (hclosing : closing.kind = .closeParen) (hresult : IsAnnotation us result) (hbody : IsBlock vs body) :
      IsPrimary (word :: opening :: (ts ++ closing :: (us ++ vs))) (.function 0 params (result.getD .void) body .null)

/-- expressions between commas (`isExprs_iff`) -/
inductive IsExprs : List Token → List Expr → Prop
  | empty : IsExprs [] []
  | last {ts e} (h : IsExpr ts e) : IsExprs ts [e]
  | more {ts e comma us es} (h : IsExpr ts e) (hcomma : comma.kind = .comma) (rest : IsExprs us es) :
      IsExprs (ts ++ comma :: us) (e :: es)

inductive IsDeclaration : List Token → Declaration → Prop
  | mk {word name us note mark ts value semicolon} (hword : word.kind = .letWord) (hname : name.kind = .identifier)
      (hnote : IsAnnotation us note) (hmark : mark.kind = .declare) (hvalue : IsExpr ts value)
      (hsemicolon : semicolon.kind = .semicolon) :
      IsDeclaration (word :: name :: (us ++ mark :: (ts ++ [semicolon]))) ⟨name.value, note, value, .null⟩

inductive IsStmt : List Token → Stmt → Prop
  | declare {ts d} (h : IsDeclaration ts d) : IsStmt ts (.declare d)
  | pub {word ts d} (hword : word.kind = .pubWord) (h : IsDeclaration ts d) : IsStmt (word :: ts) (.pub d .null)
  | use {word path ts names semicolon} (hword : word.kind = .useWord) (hpath : path.kind = .string)
      (hnames : IsFilter ts names) (hsemicolon : semicolon.kind = .semicolon) :
      IsStmt (word :: path :: (ts ++ [semicolon])) (.use path.value names .null)
  | cond {word ts condition us body} (hword : word.kind = .ifWord) (h : IsExpr ts condition) (hbody : IsBlock us body) :
      IsStmt (word :: (ts ++ us)) (.cond condition body .null)
  | giveNothing {word semicolon} (hword : word.kind = .returnWord) (hsemicolon : semicolon.kind = .semicolon) :
      IsStmt [word, semicolon] (.giveBack none .null)
  | giveBack {word ts value semicolon} (hword : word.kind = .returnWord) (h : IsExpr ts value)
      (hsemicolon : semicolon.kind = .semicolon) : IsStmt (word :: (ts ++ [semicolon])) (.giveBack (some value) .null)
  | eval {ts e semicolon} (h : IsExpr ts e) (hsemicolon : semicolon.kind = .semicolon) :
      IsStmt (ts ++ [semicolon]) (.eval e .null)

inductive IsStmts : List Token → List Stmt → Prop
  | empty : IsStmts [] []
  | more {ts s us ss} (h : IsStmt ts s) (rest : IsStmts us ss) : IsStmts (ts ++ us) (s :: ss)

inductive IsBlock : List Token → Block → Prop
  | mk {opening ts body closing} (hopening : opening.kind = .openCurly) (h : IsStmts ts body)
      (hclosing : closing.kind = .closeCurly) : IsBlock (opening :: (ts ++ [closing])) ⟨body, .null⟩

end

/-- statements up to the end of the text -/
def IsModule (ts : List Token) (module : Block) : Prop := ∃ body, module = ⟨body, .null⟩ ∧ IsStmts ts body

/-! ## First tokens -/

/-- there is a first token, of one of the kinds -/
def StartsWith (kinds : List TokenKind) (ts : List Token) : Prop := ∃ t us, ts = t :: us ∧ t.kind ∈ kinds

/-- what a type can start with -/
def noteStarts : List TokenKind := [.identifier, .openBracket, .openParen]

/-- what an expression can start with -/
def exprStarts : List TokenKind :=
  [.number, .string, .identifier, .trueWord, .falseWord, .selfWord, .openParen, .openBracket, .fnWord]

/-- what a statement can start with -/
def stmtStarts : List TokenKind := [.letWord, .pubWord, .useWord, .ifWord, .returnWord] ++ exprStarts

theorem StartsWith.append {kinds : List TokenKind} {ts us : List Token} (h : StartsWith kinds ts) :
    StartsWith kinds (ts ++ us) := by
  obtain ⟨t, vs, rfl, ht⟩ := h
  exact ⟨t, vs ++ us, rfl, ht⟩

theorem StartsWith.length_pos {kinds : List TokenKind} {ts : List Token} (h : StartsWith kinds ts) :
    0 < ts.length := by
  obtain ⟨t, us, rfl, _⟩ := h
  simp

theorem IsMarked.starts {ts : List Token} {n : Note} : IsMarked ts n → StartsWith noteStarts ts
  | .any h _ => ⟨_, _, rfl, by simp [noteStarts, h]⟩
  | .void h _ => ⟨_, _, rfl, by simp [noteStarts, h]⟩
  | .ident h _ _ => ⟨_, _, rfl, by simp [noteStarts, h]⟩
  | .list h _ _ => ⟨_, _, rfl, by simp [noteStarts, h]⟩
  | .tuple h _ _ => ⟨_, _, rfl, by simp [noteStarts, h]⟩
  | .optional h _ => h.starts.append

theorem IsNote.starts {ts : List Token} {n : Note} : IsNote ts n → StartsWith noteStarts ts
  | .marked h => h.starts
  | .function h _ _ _ _ => ⟨_, _, rfl, by simp [noteStarts, h]⟩

theorem IsPrimary.starts {ts : List Token} {e : Expr} : IsPrimary ts e → StartsWith exprStarts ts
  | .number h _ => ⟨_, _, rfl, by simp [exprStarts, h]⟩
  | .text h => ⟨_, _, rfl, by simp [exprStarts, h]⟩
  | .ident h => ⟨_, _, rfl, by simp [exprStarts, h]⟩
  | .yes h => ⟨_, _, rfl, by simp [exprStarts, h]⟩
  | .no h => ⟨_, _, rfl, by simp [exprStarts, h]⟩
  | .self h => ⟨_, _, rfl, by simp [exprStarts, h]⟩
  | .parentheses h _ _ => ⟨_, _, rfl, by simp [exprStarts, h]⟩
  | .list h _ _ => ⟨_, _, rfl, by simp [exprStarts, h]⟩
  | .function h _ _ _ _ _ => ⟨_, _, rfl, by simp [exprStarts, h]⟩

theorem IsApplied.starts {ts : List Token} {e : Expr} : IsApplied ts e → StartsWith exprStarts ts
  | .primary h => h.starts
  | .call h _ _ _ => h.starts.append
  | .subscript h _ _ _ => h.starts.append

mutual

theorem IsBinary.starts {level : Level} {ts : List Token} {e : Expr} : IsBinary level ts e → StartsWith exprStarts ts
  | .operand h => h.starts
  | .apply h _ _ => h.starts.append

theorem IsOperand.starts {level : Level} {ts : List Token} {e : Expr} : IsOperand level ts e → StartsWith exprStarts ts
  | .tighter _ h => h.starts
  | .applied _ h => h.starts

end

theorem IsExpr.starts {ts : List Token} {e : Expr} : IsExpr ts e → StartsWith exprStarts ts
  | .operators h => h.starts
  | .assign h _ _ => h.starts.append

theorem StartsWith.stmt {ts : List Token} (h : StartsWith exprStarts ts) : StartsWith stmtStarts ts := by
  obtain ⟨t, us, rfl, ht⟩ := h
  exact ⟨t, us, rfl, List.mem_append_right _ ht⟩

theorem IsStmt.starts {ts : List Token} {s : Stmt} : IsStmt ts s → StartsWith stmtStarts ts
  | .declare (.mk h _ _ _ _ _) => ⟨_, _, rfl, by simp [stmtStarts, h]⟩
  | .pub h _ => ⟨_, _, rfl, by simp [stmtStarts, h]⟩
  | .use h _ _ _ => ⟨_, _, rfl, by simp [stmtStarts, h]⟩
  | .cond h _ _ => ⟨_, _, rfl, by simp [stmtStarts, h]⟩
  | .giveNothing h _ => ⟨_, _, rfl, by simp [stmtStarts, h]⟩
  | .giveBack h _ _ => ⟨_, _, rfl, by simp [stmtStarts, h]⟩
  | .eval h _ => h.starts.append.stmt

theorem IsBlock.headKind_append {ts us : List Token} {b : Block} (h : IsBlock ts b) :
    headKind (ts ++ us) = .openCurly := by
  cases h with
  | mk hopening _ _ => exact hopening

/-! ## Lists -/

/-- expressions between commas are a list as any other -/
theorem isExprs_iff {ts : List Token} {es : List Expr} : IsExprs ts es ↔ IsList IsExpr ts es := by
  constructor
  · intro h
    induction es generalizing ts with
    | nil =>
      cases h
      exact .empty
    | cons e es ih =>
      cases h with
      | last h => exact .last h
      | more h hcomma rest => exact .more h hcomma (ih rest)
  · intro h
    induction h with
    | empty => exact .empty
    | last h => exact .last h
    | more h hcomma _ ih => exact .more h hcomma ih

end Grammar

end TypedScript
