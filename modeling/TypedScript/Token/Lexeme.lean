/-
Lexemes: the pieces source text falls into. A piece is a gap (a run of blanks, or a comment up to its line feed), a
plain lexeme (word, digits or mark) or a quoted string. `Piece.first` cuts the first piece off a text.

- `Piece.first_text_append`: the piece and what is left of it make up the text.
- `Piece.first_text_ne_nil`: a piece is never empty, so cutting pieces off ends.
-/
import TypedScript.Text.Blank
import TypedScript.Token
import TypedScript.SyntaxError

namespace TypedScript

/-- an ASCII letter or the underscore -/
def isWordStart (c : Char) : Bool := c.isAlpha || c = '_'

/-- what may follow in a word: an ASCII letter or digit or the underscore -/
def isWordPart (c : Char) : Bool := c.isAlphanum || c = '_'

/-- the words the language keeps for itself -/
def reservedWords : List (String × TokenKind) :=
  [("let", .letWord), ("fn", .fnWord), ("return", .returnWord), ("if", .ifWord), ("pub", .pubWord), ("use", .useWord),
  ("self", .selfWord), ("true", .trueWord), ("false", .falseWord)]

def TokenKind.ofWord (word : String) : TokenKind := (reservedWords.lookup word).getD .identifier

/-- the marks of the language; a mark stands before every shorter mark it begins with -/
def marks : List (List Char × TokenKind) :=
  [(['['], .openBracket), ([']'], .closeBracket), (['\x7b'], .openCurly), (['\x7d'], .closeCurly), (['('], .openParen),
  ([')'], .closeParen), ([':', '='], .declare), (['=', '>'], .arrow), (['=', '='], .equals), (['!', '='], .notEquals),
  (['='], .assignment), (['<', '='], .lessEquals), (['<'], .less), (['>', '='], .greaterEquals), (['>'], .greater),
  (['|', '|'], .or), (['&', '&'], .and), ([';'], .semicolon), ([':'], .colon), (['?'], .question), ([','], .comma),
  (['+'], .plus), (['-'], .dash), (['/'], .slash), (['*'], .star), (['%'], .percent)]

/-- the mark a text starts with -/
def firstMark? (text : List Char) : Option (List Char × TokenKind) :=
  marks.find? fun m => m.1.isPrefixOf text

/-- what stands before the quote that ends a string; a backslash takes the next character with it, and a string ends on
the line it starts on -/
def stringContent? : List Char → Option (List Char)
  | [] => none
  | '"' :: _ => some []
  | '\n' :: _ => none
  | '\\' :: [] => none
  | '\\' :: c :: text => if c = '\n' then none else (stringContent? text).map fun s => '\\' :: c :: s
  | c :: text => (stringContent? text).map fun s => c :: s

/-- the character an escape stands for -/
def escaped? : Char → Option Char
  | 'n' => some '\n'
  | 't' => some '\t'
  | 'r' => some '\r'
  | '\\' => some '\\'
  | '"' => some '"'
  | '0' => some '\x00'
  | _ => none

/-- the value of a string's content; an escape that stands for nothing stays as it is written -/
def unescape : List Char → List Char
  | [] => []
  | '\\' :: c :: text =>
    match escaped? c with
    | some d => d :: unescape text
    | none => '\\' :: c :: unescape text
  | c :: text => c :: unescape text

/-- a piece of source text -/
inductive Piece
  | gap (text : List Char)
  | plain (kind : TokenKind) (text : List Char)
  /-- a string, by what stands between its quotes -/
  | quoted (content : List Char)
deriving DecidableEq, Inhabited

namespace Piece

/-- the stretch of source text a piece takes up -/
def text : Piece → List Char
  | gap text => text
  | plain _ text => text
  | quoted content => '"' :: (content ++ ['"'])

/-- the longest start of `c :: text` whose characters are all in a class that `c` is in -/
def run (p : Char → Bool) (c : Char) (text : List Char) : List Char := c :: text.takeWhile p

/-- the first piece of the text `c :: text`, or what is wrong with its first character -/
def first (c : Char) (text : List Char) : Except SyntaxFlaw Piece :=
  if isWordStart c then
    let word := run isWordPart c text
    .ok (.plain (.ofWord (String.ofList word)) word)
  else if c.isDigit then .ok (.plain .number (run Char.isDigit c text))
  else if isBlank c then .ok (.gap (run isBlank c text))
  else if c = '"' then
    match stringContent? text with
    | some content => .ok (.quoted content)
    | none => .error .unterminatedString
  else if c = '/' && text.head? = some '/' then .ok (.gap (run (· ≠ '\n') c text))
  else
    match firstMark? (c :: text) with
    | some (mark, kind) => .ok (.plain kind mark)
    | none => .error (.unrecognisedToken (String.singleton c))

theorem stringContent?_append {text content : List Char} (h : stringContent? text = some content) :
    ∃ rest, text = content ++ '"' :: rest := by
  fun_induction stringContent? text generalizing content with
  | case1 => simp at h
  | case2 text => exact ⟨text, by simp_all⟩
  | case3 => simp at h
  | case4 => simp at h
  | case5 => simp at h
  | case6 c text hc ih =>
    obtain ⟨s, hs, rfl⟩ := Option.map_eq_some_iff.1 h
    obtain ⟨rest, rfl⟩ := ih hs
    exact ⟨rest, by simp⟩
  | case7 c text _ _ _ _ ih =>
    obtain ⟨s, hs, rfl⟩ := Option.map_eq_some_iff.1 h
    obtain ⟨rest, rfl⟩ := ih hs
    exact ⟨rest, by simp⟩

theorem run_append (p : Char → Bool) (c : Char) (text : List Char) :
    ∃ rest, c :: text = run p c text ++ rest :=
  ⟨text.dropWhile p, by simp [run]⟩

theorem first_text_append {c : Char} {text : List Char} {piece : Piece} (h : first c text = .ok piece) :
    ∃ rest, c :: text = piece.text ++ rest := by
  unfold first at h
  split at h
  · cases h; exact run_append _ _ _
  split at h
  · cases h; exact run_append _ _ _
  split at h
  · cases h; exact run_append _ _ _
  split at h
  · next hq =>
    split at h
    · next content hs =>
      obtain ⟨rest, hr⟩ := stringContent?_append hs
      cases h
      exact ⟨rest, by simp [Piece.text, hq, hr]⟩
    · cases h
  split at h
  · cases h; exact run_append _ _ _
  split at h
  · next mark kind hm =>
    cases h
    have hp := List.find?_some hm
    exact (List.isPrefixOf_iff_prefix.1 hp).imp fun _ h => h.symm
  · cases h

theorem marks_ne_nil : ∀ m ∈ marks, m.1 ≠ [] := by decide

theorem first_text_ne_nil {c : Char} {text : List Char} {piece : Piece} (h : first c text = .ok piece) :
    piece.text ≠ [] := by
  unfold first at h
  split at h
  · cases h; simp [Piece.text, run]
  split at h
  · cases h; simp [Piece.text, run]
  split at h
  · cases h; simp [Piece.text, run]
  split at h
  · split at h
    · cases h; simp [Piece.text]
    · cases h
  split at h
  · cases h; simp [Piece.text, run]
  split at h
  · next mark kind hm => cases h; exact marks_ne_nil _ (List.mem_of_find?_eq_some hm)
  · cases h

end Piece

end TypedScript
