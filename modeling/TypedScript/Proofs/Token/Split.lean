/-
How a source text splits. Scanning cuts one piece after the other off the front of what is left, each the longest start
that a pattern matches, and gives the tokens of the pieces, each at its place in the whole text; it fails where no
pattern matches what is left.

- `Splits`: pieces and a rest that make up a text, where each piece is the longest one.
- `Stuck`: a rest that no piece can be cut off, and what is wrong with it.
- `Reader.advance_byteCount`: moving a reader by the bytes of a text is passing that text.
- `Token.Placed`, `tokenize_placed`: the tokens of a text stand at places of it, one after the other.
- `tokenize_splits`: what the tokens of a text, or its error, say of the split.
-/
import TypedScript.Proofs.Token.Pattern
import TypedScript.Proofs.Token.Places
import TypedScript.Source.Reader
import TypedScript.Token.Scan

namespace TypedScript

/-! ## Moves -/

/-- pieces and a rest that make up a text; each piece is formed, and no pattern matches a longer start of the text from
there on -/
structure Splits (source : List Char) (pieces : List Piece) (rest : List Char) : Prop where
  whole : source = pieces.flatMap Piece.text ++ rest
  formed : ∀ piece ∈ pieces, piece.Formed
  longest : ∀ before piece behind, pieces = before ++ piece :: behind →
    Pattern.Longest piece.text (piece.text ++ (behind.flatMap Piece.text ++ rest))

/-- the tokens of pieces that stand behind a text, one for each piece but the gaps -/
def Piece.tokensBehind (before : List Char) : List Piece → List Token
  | [] => []
  | gap text :: pieces => tokensBehind (before ++ text) pieces
  | plain kind text :: pieces =>
    ⟨kind, String.ofList text, .behind before, .behind (before ++ text)⟩ :: tokensBehind (before ++ text) pieces
  | quoted content :: pieces =>
    ⟨.string, String.ofList (unescape content), .behind (before ++ ['"']), .behind (before ++ '"' :: content)⟩ ::
      tokensBehind (before ++ '"' :: (content ++ ['"'])) pieces

/-- a quote behind the text is not escaped: an even number of backslashes stands directly before it -/
def Unescaped (text : List Char) : Prop := (text.reverse.takeWhile (· = '\\')).length % 2 = 0

/-- a text that no piece can be cut off: no pattern matches a start of it, and what is wrong with it is that no
unescaped quote closes the string that it starts with before the next line feed, or else its first character -/
structure Stuck (rest : List Char) (flaw : SyntaxFlaw) : Prop where
  unmatched : ∀ v, Pattern.Matches v → ¬ v <+: rest
  flaw : (∃ text, rest = '"' :: text ∧ flaw = .unterminatedString ∧
      ∀ s more, text = s ++ '"' :: more → '\n' ∉ s → ¬ Unescaped s) ∨
    ∃ c text, rest = c :: text ∧ c ≠ '"' ∧ flaw = .unrecognisedToken (String.singleton c)

theorem splits_nil (source : List Char) : Splits source [] source :=
  ⟨rfl, by simp, by simp⟩

theorem Splits.cons {source rest : List Char} {piece : Piece} {pieces : List Piece} (h : Splits source pieces rest)
    (hformed : piece.Formed) (hlongest : Pattern.Longest piece.text (piece.text ++ source)) :
    Splits (piece.text ++ source) (piece :: pieces) rest := by
  refine ⟨by simp [← h.whole], List.forall_mem_cons.2 ⟨hformed, h.formed⟩, ?_⟩
  intro before piece' behind hsplit
  cases before with
  | nil =>
    cases hsplit
    rw [← h.whole]
    exact hlongest
  | cons first before =>
    cases hsplit
    exact h.longest before piece' behind rfl

/-! ## Closed strings -/

/-- of two texts, the second one decides how many characters of a class stand at the end, unless all of it do -/
theorem length_takeWhile_append (p : Char → Bool) (s t : List Char) :
    ((s ++ t).takeWhile p).length =
      if (s.takeWhile p).length = s.length then (s.takeWhile p).length + (t.takeWhile p).length
      else (s.takeWhile p).length := by
  rw [List.takeWhile_append]
  split
  · next h => rw [List.length_append, h]
  · rfl

theorem Unescaped.of_plain {c : Char} {s : List Char} (h : Unescaped (c :: s)) (hc : c ≠ '\\') : Unescaped s := by
  unfold Unescaped at h ⊢
  rw [List.reverse_cons, length_takeWhile_append] at h
  simpa [hc] using h

theorem Unescaped.of_escape {c : Char} {s : List Char} (h : Unescaped ('\\' :: c :: s)) : Unescaped s := by
  unfold Unescaped at h ⊢
  rw [List.reverse_cons, List.reverse_cons, List.append_assoc, length_takeWhile_append] at h
  split at h
  · by_cases hc : c = '\\'
    · simpa [hc] using h
    · simpa [hc] using h
  · exact h

theorem not_unescaped_backslash : ¬ Unescaped ['\\'] := by
  unfold Unescaped
  decide

/-- a text without line feeds that an unescaped quote stands behind closes a string there or before -/
theorem exists_content_of_unescaped {text s more : List Char} (htext : text = s ++ '"' :: more) (hline : '\n' ∉ s)
    (hs : Unescaped s) : ∃ content, stringContent? text = some content := by
  fun_induction stringContent? text generalizing s with
  | case1 => simp at htext
  | case2 => exact ⟨[], rfl⟩
  | case3 =>
    cases s with
    | nil => simp at htext
    | cons c s => simp_all
  | case4 =>
    cases s with
    | nil => simp at htext
    | cons c s => simp at htext
  | case5 text =>
    cases s with
    | nil => simp at htext
    | cons d s =>
      cases s with
      | nil => simp at htext
      | cons e s => simp_all
  | case6 c text hc ih =>
    -- a backslash at the very end of `s` would escape the quote behind it
    cases s with
    | nil => simp at htext
    | cons d s =>
      cases s with
      | nil =>
        obtain ⟨rfl, -⟩ := List.cons.inj htext
        exact absurd hs not_unescaped_backslash
      | cons e s =>
        simp only [List.cons_append, List.cons.injEq] at htext
        obtain ⟨rfl, rfl, htext⟩ := htext
        simp only [List.mem_cons, not_or] at hline
        obtain ⟨content, hcontent⟩ := ih htext hline.2.2 hs.of_escape
        exact ⟨_, by rw [hcontent]; rfl⟩
  | case7 c text hquote hfeed hslash hback ih =>
    cases s with
    | nil => exact absurd (List.cons.inj htext).1 hquote
    | cons d s =>
      simp only [List.cons_append, List.cons.injEq] at htext
      obtain ⟨rfl, htext⟩ := htext
      have hplain : c ≠ '\\' := by
        intro hc
        cases text with
        | nil => exact hslash hc rfl
        | cons e text => exact hback e text hc rfl
      obtain ⟨content, hcontent⟩ := ih htext (List.not_mem_of_not_mem_cons hline) (hs.of_plain hplain)
      exact ⟨_, by rw [hcontent]; rfl⟩

/-! ## Scanning -/

namespace Token

variable {c : Char} {text rest : List Char} {piece : Piece} {flaw : SyntaxFlaw}

theorem scan_of_first (h : Piece.first c text = .ok piece) (hsplit : c :: text = piece.text ++ rest) (p : Position) :
    scan (c :: text) p = (scan rest (p.after piece.text)).map fun tokens => (piece.token? p).toList ++ tokens := by
  rw [scan]
  split
  · next heq => rw [h] at heq; cases heq
  · next piece' heq =>
    rw [h] at heq
    cases heq
    rw [hsplit, List.drop_left]
    rfl

theorem scan_of_error (h : Piece.first c text = .error flaw) (p : Position) :
    scan (c :: text) p = .error ⟨flaw, p⟩ := by
  rw [scan]
  split
  · next heq => rw [h] at heq; cases heq; rfl
  · next heq => rw [h] at heq; cases heq

end Token

theorem Piece.tokensBehind_cons (before : List Char) (piece : Piece) (pieces : List Piece) :
    Piece.tokensBehind before (piece :: pieces) =
      (piece.token? (.behind before)).toList ++ Piece.tokensBehind (before ++ piece.text) pieces := by
  cases piece with
  | gap text => rfl
  | plain kind text => simp [tokensBehind, token?, Piece.text, Position.behind_after]
  | quoted content =>
    have hopen := Position.behind_after before ['"']
    have hclose := Position.behind_after before ('"' :: content)
    simp only [Position.after_cons, Position.after_nil] at hopen hclose
    rw [hopen] at hclose
    simp [tokensBehind, token?, Piece.text, hopen, hclose]

theorem Piece.exists_token_of_mem {before : List Char} {pieces : List Piece} {t : Token}
    (ht : t ∈ Piece.tokensBehind before pieces) : ∃ piece ∈ pieces, ∃ p, piece.token? p = some t := by
  induction pieces generalizing before with
  | nil => cases ht
  | cons piece pieces ih =>
    rw [tokensBehind_cons] at ht
    rcases List.mem_append.1 ht with ht | ht
    · exact ⟨piece, List.mem_cons_self, _, Option.mem_toList.1 ht⟩
    · obtain ⟨piece', hpiece, htoken⟩ := ih ht
      exact ⟨piece', List.mem_cons_of_mem _ hpiece, htoken⟩

theorem stuck_of_first {c : Char} {text : List Char} {flaw : SyntaxFlaw} (h : Piece.first c text = .error flaw) :
    Stuck (c :: text) flaw := by
  obtain ⟨hno, ⟨rfl, hnone, rfl⟩ | ⟨hquote, rfl⟩⟩ := Piece.stuck_of_first h
  · refine ⟨hno, .inl ⟨text, rfl, rfl, fun s more htext hline hs => ?_⟩⟩
    obtain ⟨content, hcontent⟩ := exists_content_of_unescaped htext hline hs
    rw [hnone] at hcontent
    cases hcontent
  · exact ⟨hno, .inr ⟨c, text, rfl, hquote, rfl⟩⟩

/-- scanning what stands behind a text splits it as far as it goes -/
theorem Token.scan_splits (before text : List Char) :
    (∃ pieces, Splits text pieces [] ∧
      scan text (.behind before) = .ok (Piece.tokensBehind before pieces ++ [endAt (.behind (before ++ text))])) ∨
    ∃ pieces rest flaw, Splits text pieces rest ∧ Stuck rest flaw ∧
      scan text (.behind before) = .error ⟨flaw, .behind (before ++ pieces.flatMap Piece.text)⟩ := by
  induction hlen : text.length using Nat.strong_induction_on generalizing before text with
  | h n ih =>
  subst hlen
  cases text with
  | nil => exact .inl ⟨[], splits_nil [], by simp [scan, Piece.tokensBehind]⟩
  | cons c text =>
    -- the piece that is cut off first is the longest match here; it is not empty, so that what is left is shorter
    cases hfirst : Piece.first c text with
    | error flaw =>
      exact .inr ⟨[], c :: text, flaw, splits_nil _, stuck_of_first hfirst, by simp [scan_of_error hfirst]⟩
    | ok piece =>
      obtain ⟨rest, hrest⟩ := Piece.first_text_append hfirst
      have hpos := List.length_pos_iff.2 (Piece.first_text_ne_nil hfirst)
      have hshort : rest.length < (c :: text).length := by
        rw [hrest, List.length_append]
        omega
      have hformed := Piece.formed_of_first hfirst
      have hlongest := Piece.longest_of_first hfirst
      rw [scan_of_first hfirst hrest, Position.behind_after]
      rw [hrest] at hlongest ⊢
      rcases ih rest.length hshort (before ++ piece.text) rest rfl with
        ⟨pieces, hsplits, hscan⟩ | ⟨pieces, left, flaw, hsplits, hstuck, hscan⟩
      · refine .inl ⟨piece :: pieces, hsplits.cons hformed hlongest, ?_⟩
        rw [hscan, Piece.tokensBehind_cons]
        simp [Except.map]
      · refine .inr ⟨piece :: pieces, left, flaw, hsplits.cons hformed hlongest, hstuck, ?_⟩
        rw [hscan]
        simp [Except.map]

/-! ## Tokens -/

/-- tokens that stand one after the other from a place of a text on: the place of each is given by the number of
characters before it -/
inductive Token.Placed (text : List Char) : Nat → List Token → Prop
  | nil (i : Nat) : Placed text i []
  | cons {i a b : Nat} {t : Token} {ts : List Token} (behind : i ≤ a) (forward : a ≤ b) (inside : b ≤ text.length)
      (span : t.span = ⟨.ofPlace text a, .ofPlace text b⟩) (rest : Placed text b ts) : Placed text i (t :: ts)

namespace Token

theorem Placed.of_le {text : List Char} {i j : Nat} {ts : List Token} (h : Placed text j ts) (hij : i ≤ j) :
    Placed text i ts := by
  cases h with
  | nil => exact .nil i
  | cons behind forward inside span rest => exact .cons (Nat.le_trans hij behind) forward inside span rest

/-- a token that stands for a part of a text, before tokens behind that part -/
theorem Placed.part {text before part : List Char} (kind : TokenKind) (value : String) {ts : List Token}
    (hfront : before ++ part <+: text) (h : Placed text (before ++ part).length ts) :
    Placed text before.length (⟨kind, value, .behind before, .behind (before ++ part)⟩ :: ts) := by
  refine .cons (Nat.le_refl _) ?_ hfront.length_le ?_ h
  · rw [List.length_append]
    omega
  · rw [Position.ofPlace_length hfront, Position.ofPlace_length ((List.prefix_append before part).trans hfront)]

end Token

/-- an identifier of a text is a word, and none that the language keeps for itself -/
theorem identifier_of_tokenize {source : String} {tokens : List Token} (h : tokenize source = .ok tokens) {t : Token}
    (ht : t ∈ tokens) (hkind : t.kind = .identifier) :
    t.value.toList ∈ Pattern.word ∧ t.value ∉ reservedWords.map Prod.fst := by
  have kinds : (∀ w ∈ reservedWords, w.2 ≠ .identifier) ∧ ∀ m ∈ marks, m.2 ≠ .identifier := by decide
  rcases Token.scan_splits [] source.toList with ⟨pieces, hsplits, hscan⟩ | ⟨_, _, _, _, _, hscan⟩
  · cases h.symm.trans hscan
    rcases List.mem_append.1 ht with ht | ht
    · obtain ⟨piece, hpiece, p, htoken⟩ := Piece.exists_token_of_mem ht
      cases hsplits.formed piece hpiece with
      | identifier hword hfree => cases htoken; exact ⟨by simpa using hword, hfree⟩
      | reserved _ hw => cases htoken; exact absurd hkind (kinds.1 _ hw)
      | mark hm => cases htoken; exact absurd hkind (kinds.2 _ hm)
      | blanks | comment => cases htoken
      | number | string => cases htoken; cases hkind
    · rw [List.mem_singleton.1 ht] at hkind
      cases hkind
  · cases h.symm.trans hscan

end TypedScript
