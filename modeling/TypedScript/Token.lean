/-
Tokens: what source text is made of once blanks and comments are gone. A token has a kind, the text it stands for and
its span. Every list of tokens handed on ends in one of kind `endOfText`.
-/
import TypedScript.Source

namespace TypedScript

inductive TokenKind
  | endOfText
  | number
  | string
  | identifier
  | openBracket
  | closeBracket
  | openCurly
  | closeCurly
  | openParen
  | closeParen
  | declare
  | assignment
  | arrow
  | equals
  | notEquals
  | less
  | lessEquals
  | greater
  | greaterEquals
  | or
  | and
  | semicolon
  | colon
  | question
  | comma
  | plus
  | dash
  | slash
  | star
  | percent
  | letWord
  | fnWord
  | returnWord
  | ifWord
  | pubWord
  | useWord
  | selfWord
  | trueWord
  | falseWord
deriving DecidableEq, Inhabited

namespace TokenKind

/-- the name a kind is shown by -/
def name : TokenKind → String
  | endOfText => "EOF"
  | number => "Number"
  | string => "String"
  | identifier => "Identifier"
  | openBracket => "OpenBracket"
  | closeBracket => "CloseBracket"
  | openCurly => "OpenCurly"
  | closeCurly => "CloseCurly"
  | openParen => "OpenParen"
  | closeParen => "CloseParen"
  | declare => "Declare"
  | assignment => "Assignment"
  | arrow => "Arrow"
  | equals => "Equals"
  | notEquals => "NotEquals"
  | less => "Less"
  | lessEquals => "LessEquals"
  | greater => "Greater"
  | greaterEquals => "GreaterEquals"
  | or => "Or"
  | and => "And"
  | semicolon => "Semicolon"
  | colon => "Colon"
  | question => "Question"
  | comma => "Comma"
  | plus => "Plus"
  | dash => "Dash"
  | slash => "Slash"
  | star => "Star"
  | percent => "Percent"
  | letWord => "Let"
  | fnWord => "Fn"
  | returnWord => "Return"
  | ifWord => "If"
  | pubWord => "Pub"
  | useWord => "Use"
  | selfWord => "SelfKw"
  | trueWord => "True"
  | falseWord => "False"

/-- every kind, in the order of declaration -/
def all : List TokenKind :=
  [endOfText, number, string, identifier, openBracket, closeBracket, openCurly, closeCurly, openParen, closeParen,
  declare, assignment, arrow, equals, notEquals, less, lessEquals, greater, greaterEquals, or, and, semicolon, colon,
  question, comma, plus, dash, slash, star, percent, letWord, fnWord, returnWord, ifWord, pubWord, useWord, selfWord,
  trueWord, falseWord]

/-- the kind shown by a name -/
def ofName? (name : String) : Option TokenKind := all.find? fun k => k.name = name

theorem mem_all (k : TokenKind) : k ∈ all := by cases k <;> decide

end TokenKind

structure Token where
  kind : TokenKind
  value : String
  span : Span
deriving DecidableEq, Inhabited

namespace Token

/-- the token that ends every list, at the position where the text ends -/
def endAt (p : Position) : Token := ⟨.endOfText, "EOF", .empty p⟩

/-- the token on two lines, kind and value -/
def render (t : Token) : String :=
  "Token \x7b\nkind: " ++ t.kind.name ++ ",\nvalue: " ++ t.value ++ "\x7d"

end Token

end TypedScript
