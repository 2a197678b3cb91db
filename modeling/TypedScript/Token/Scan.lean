/-
Source text as a list of tokens. Pieces are cut off the front one after the other; gaps leave no token, and a string's
token stands where its content stands, inside the quotes.
-/
import TypedScript.Token.Lexeme

namespace TypedScript

namespace Piece

/-- the token of a piece that starts at a position; a gap has none -/
def token? (piece : Piece) (p : Position) : Option Token :=
  match piece with
  | gap _ => none
  | plain kind text => some ⟨kind, String.ofList text, p, p.after text⟩
  | quoted content =>
    let start := p.next '"'
    some ⟨.string, String.ofList (unescape content), start, start.after content⟩

end Piece

namespace Token

/-- the tokens of a text that starts at a position, the last one at its end -/
def scan : List Char → Position → Except SyntaxError (List Token)
  | [], p => .ok [endAt p]
  | c :: text, p =>
    match h : Piece.first c text with
    | .error flaw => .error ⟨flaw, p⟩
    | .ok piece => do
      have : 0 < piece.text.length := List.length_pos_iff.2 (Piece.first_text_ne_nil h)
      let tokens ← scan ((c :: text).drop piece.text.length) (p.after piece.text)
      return (piece.token? p).toList ++ tokens
termination_by text => text.length

/-- the tokens of a text are those of pieces that were cut off it, with an end behind them -/
theorem scan_pieces (text : List Char) (p : Position) {tokens : List Token} (h : scan text p = .ok tokens) :
    ∃ body q, tokens = body ++ [endAt q] ∧
      ∀ t ∈ body, ∃ c rest piece start, Piece.first c rest = .ok piece ∧ piece.token? start = some t := by
  fun_induction scan text p generalizing tokens with
  | case1 p =>
    cases h
    exact ⟨[], p, rfl, fun _ ht => nomatch ht⟩
  | case2 => cases h
  | case3 c text p piece hpiece _ ih =>
    cases hrest : scan ((c :: text).drop piece.text.length) (p.after piece.text) with
    | error e => rw [hrest] at h; cases h
    | ok rest =>
      rw [hrest] at h
      cases h
      obtain ⟨body, q, rfl, hbody⟩ := ih hrest
      refine ⟨(piece.token? p).toList ++ body, q, by simp, fun t ht => ?_⟩
      rcases List.mem_append.1 ht with ht | ht
      · exact ⟨c, text, piece, p, hpiece, Option.mem_toList.1 ht⟩
      · exact hbody t ht

end Token

/-- the tokens of a source text -/
def tokenize (source : String) : Except SyntaxError (List Token) := Token.scan source.toList .first

end TypedScript
