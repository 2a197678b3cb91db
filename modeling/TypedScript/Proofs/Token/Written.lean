/-
Lexemes and the texts they are written as. A text is written from lexemes where each of them ends before what follows it
and blanks and whole comments stand anywhere between them; scanning it gives one token for each lexeme.

- `Lexeme.Formed`: a lexeme of the language.
- `Lexeme.EndsBefore`: what follows a lexeme does not go on with it.
- `Token.scan_written`: a text written from lexemes has their tokens.
- `tokenize_printed`: so have lexemes that are printed with separators between them.
-/
import TypedScript.Proofs.Token.Split

namespace TypedScript

/-! ## Lexemes -/

/-- a lexeme, by what its token says: a string by its value, any other one by its text -/
inductive Lexeme
  | identifier (name : String)
  | reserved (word : String) (kind : TokenKind)
  | number (digits : String)
  | mark (sign : String) (kind : TokenKind)
  | string (value : String)
deriving DecidableEq

/-- the content that a string's value is written as -/
def escape (value : List Char) : List Char :=
  value.flatMap fun c =>
    if c = '\\' then ['\\', '\\'] else if c = '"' then ['\\', '"'] else if c = '\n' then ['\\', 'n'] else [c]

namespace Lexeme

def kind : Lexeme → TokenKind
  | identifier _ => .identifier
  | reserved _ kind => kind
  | number _ => .number
  | mark _ kind => kind
  | string _ => .string

/-- the value of the lexeme's token -/
def value : Lexeme → String
  | identifier name => name
  | reserved word _ => word
  | number digits => digits
  | mark sign _ => sign
  | string value => value

/-- the lexeme as it is written -/
def text : Lexeme → List Char
  | string value => '"' :: (escape value.toList ++ ['"'])
  | x => x.value.toList

/-- a lexeme of the language; a string may have any value -/
def Formed : Lexeme → Prop
  | identifier name => name.toList ∈ Pattern.word ∧ name ∉ reservedWords.map Prod.fst
  | reserved word kind => (word, kind) ∈ reservedWords
  | number digits => digits.toList ∈ Pattern.digits
  | mark sign kind => (sign.toList, kind) ∈ marks
  | string _ => True

/-- what follows a lexeme does not go on with it, nor make a comment of it -/
def EndsBefore (x : Lexeme) (rest : List Char) : Prop :=
  match x with
  | identifier _ | reserved _ _ => ∀ c ∈ rest.head?, isWordPart c = false
  | number _ => ∀ c ∈ rest.head?, c.isDigit = false
  | mark _ _ => ∀ c ∈ rest.head?, c ≠ '=' ∧ c ≠ '>' ∧ c ≠ '/'
  | string _ => True

/-- the token of the lexeme, wherever it stands -/
def Names (x : Lexeme) (t : Token) : Prop := t.kind = x.kind ∧ t.value = x.value

/-- the piece that the lexeme is cut off as -/
def piece : Lexeme → Piece
  | string value => .quoted (escape value.toList)
  | x => .plain x.kind x.value.toList

theorem text_piece (x : Lexeme) : x.piece.text = x.text := by cases x <;> rfl

end Lexeme

/-! ## Tokens of lexemes -/

theorem exists_cons_of_names {x : Lexeme} {xs : List Lexeme} {ts : List Token}
    (h : List.Forall₂ Lexeme.Names (x :: xs) ts) :
    ∃ t us, ts = t :: us ∧ x.Names t ∧ List.Forall₂ Lexeme.Names xs us := by
  cases h with
  | cons ht hus => exact ⟨_, _, rfl, ht, hus⟩

theorem exists_singleton_of_names {x : Lexeme} {ts : List Token} (h : List.Forall₂ Lexeme.Names [x] ts) :
    ∃ t, ts = [t] ∧ x.Names t := by
  obtain ⟨t, us, rfl, ht, hus⟩ := exists_cons_of_names h
  cases hus
  exact ⟨t, rfl, ht⟩

theorem exists_append_of_names {xs ys : List Lexeme} {ts : List Token} (h : List.Forall₂ Lexeme.Names (xs ++ ys) ts) :
    ∃ us vs, ts = us ++ vs ∧ List.Forall₂ Lexeme.Names xs us ∧ List.Forall₂ Lexeme.Names ys vs :=
  ⟨_, _, (List.take_append_drop xs.length ts).symm, (List.forall₂_take_append _ _ _ h.flip).flip,
    (List.forall₂_drop_append _ _ _ h.flip).flip⟩

/-! ## Escapes -/

theorem unescape_escape (value : List Char) : unescape (escape value) = value := by
  induction value with
  | nil => rfl
  | cons c value ih =>
    rw [escape, List.flatMap_cons, ← escape]
    split
    · next hc => simp [unescape, escaped?, ih, hc]
    split
    · next hc => simp [unescape, escaped?, ih, hc]
    split
    · next hc => simp [unescape, escaped?, ih, hc]
    · next hslash _ _ => simp [unescape, ih, hslash]

theorem escape_mem_content (value : List Char) : escape value ∈ Pattern.content := by
  have escaped {d : Char} (hd : d ≠ '\n') :
      ['\\', d] ∈ (Pattern.one (· = '\\') * Pattern.one (· ≠ '\n') : Language Char) :=
    Pattern.mem_one_mul.2 ⟨'\\', [d], rfl, ⟨d, hd, rfl⟩, rfl⟩
  induction value with
  | nil => exact Language.nil_mem_kstar _
  | cons c value ih =>
    rw [escape, List.flatMap_cons, ← escape]
    refine Pattern.mem_kstar_cons ?_ ih
    split
    · exact .inr (escaped (by decide))
    split
    · exact .inr (escaped (by decide))
    split
    · exact .inr (escaped (by decide))
    · next hslash hquote hline => exact .inl ⟨c, ⟨hquote, hslash, hline⟩, rfl⟩

/-! ## First pieces -/

namespace Piece

variable {p : Char → Bool} {c : Char} {more rest : List Char}

theorem run_append_of_ends (hmore : ∀ d ∈ more, p d = true) (hrest : ∀ d ∈ rest.head?, p d = false) :
    run p c (more ++ rest) = c :: more := by
  rw [run, List.takeWhile_append_of_pos hmore]
  cases rest with
  | nil => simp
  | cons d rest => simp [hrest d rfl]

theorem first_word (hc : isWordStart c = true) (hmore : ∀ d ∈ more, isWordPart d = true)
    (hrest : ∀ d ∈ rest.head?, isWordPart d = false) :
    first c (more ++ rest) = .ok (.plain (.ofWord (String.ofList (c :: more))) (c :: more)) := by
  rw [first, if_pos hc, run_append_of_ends hmore hrest]

theorem first_digits (hc : c.isDigit = true) (hmore : ∀ d ∈ more, d.isDigit = true)
    (hrest : ∀ d ∈ rest.head?, d.isDigit = false) : first c (more ++ rest) = .ok (.plain .number (c :: more)) := by
  have hword : isWordStart c ≠ true := fun h => by simp [Pattern.not_isDigit_of_isWordStart h] at hc
  rw [first, if_neg hword, if_pos hc, run_append_of_ends hmore hrest]

theorem first_quoted {content : List Char} (h : content ∈ Pattern.content) :
    first '"' (content ++ '"' :: rest) = .ok (.quoted content) := by
  have hword : isWordStart '"' ≠ true := by decide
  have hdigit : Char.isDigit '"' ≠ true := by decide
  have hblank : isBlank '"' ≠ true := by decide
  rw [first, if_neg hword, if_neg hdigit, if_neg hblank, if_pos rfl, stringContent?_of_mem h]

theorem first_blank (hc : isBlank c = true) : first c rest = .ok (.gap (run isBlank c rest)) := by
  have hword : isWordStart c ≠ true := fun h => by simp [Pattern.not_isBlank_of_isWordStart h] at hc
  have hdigit : c.isDigit ≠ true := fun h => by simp [Pattern.not_isBlank_of_isDigit h] at hc
  rw [first, if_neg hword, if_neg hdigit, if_pos hc]

theorem first_comment (rest : List Char) : first '/' ('/' :: rest) = .ok (.gap (run (· ≠ '\n') '/' ('/' :: rest))) := by
  have hword : isWordStart '/' ≠ true := by decide
  have hdigit : Char.isDigit '/' ≠ true := by decide
  have hblank : isBlank '/' ≠ true := by decide
  rw [first, if_neg hword, if_neg hdigit, if_neg hblank, if_neg (by decide), if_pos (by simp)]

/-- a mark is found, and found whole, where what follows does not make a longer one of it -/
theorem firstMark?_append {m : List Char × TokenKind} (hm : m ∈ marks) (hrest : ∀ d ∈ rest.head?, d ≠ '=' ∧ d ≠ '>') :
    firstMark? (m.1 ++ rest) = some m := by
  have hlonger : ∀ m ∈ marks, ∀ m' ∈ marks, m.1 <+: m'.1 →
      m' = m ∨ (m'.1.drop m.1.length).head? = some '=' ∨ (m'.1.drop m.1.length).head? = some '>' := by decide
  cases hfound : firstMark? (m.1 ++ rest) with
  | none =>
    have hno := List.find?_eq_none.1 hfound m hm
    rw [List.isPrefixOf_iff_prefix] at hno
    exact absurd (List.prefix_append m.1 rest) hno
  | some m' =>
    have hm' := List.mem_of_find?_eq_some hfound
    have hpre := List.isPrefixOf_iff_prefix.1 (List.find?_eq_some_iff_append.1 hfound).1
    have hlength := length_le_of_firstMark? hfound hm (List.prefix_append m.1 rest)
    -- a longer mark would go on with one of the two signs that the rest does not start with
    obtain ⟨more, hmore⟩ := List.prefix_of_prefix_length_le (List.prefix_append m.1 rest) hpre hlength
    obtain ⟨left, rfl⟩ := (List.prefix_append_right_inj m.1).1 (hmore ▸ hpre)
    rcases hlonger m hm m' hm' ⟨more, hmore⟩ with rfl | h | h
    · rfl
    all_goals
      rw [← hmore, List.drop_left] at h
      obtain ⟨tail, rfl⟩ := List.head?_eq_some_iff.1 h
      simp at hrest

theorem first_mark {m : List Char × TokenKind} (hm : m ∈ marks) (hcons : m.1 = c :: more)
    (hrest : ∀ d ∈ rest.head?, d ≠ '=' ∧ d ≠ '>' ∧ d ≠ '/') : first c (more ++ rest) = .ok (.plain m.2 m.1) := by
  obtain ⟨hword, hdigit, hblank, hquote⟩ := Pattern.mark_start hm (c := c) (by rw [hcons]; rfl)
  have hslash : ∀ m ∈ marks, m.1.head? = some '/' → m.1 = ['/'] := by decide
  have hcomment : ¬ (decide (c = '/') && decide ((more ++ rest).head? = some '/')) = true := by
    rw [Bool.and_eq_true, decide_eq_true_eq, decide_eq_true_eq]
    rintro ⟨rfl, hhead⟩
    have hm' := hslash m hm (by rw [hcons]; rfl)
    rw [hcons, List.cons.injEq] at hm'
    rw [hm'.2, List.nil_append] at hhead
    exact (hrest '/' hhead).2.2 rfl
  have hfound := firstMark?_append hm fun d hd => ⟨(hrest d hd).1, (hrest d hd).2.1⟩
  rw [hcons, List.cons_append] at hfound
  simp only [first, hword, hdigit, hblank, hquote, hcomment, hfound, hcons, if_false, Bool.false_eq_true]

end Piece

/-! ## Written texts -/

theorem TokenKind.ofWord_of_mem {word : String} {kind : TokenKind} (h : (word, kind) ∈ reservedWords) :
    TokenKind.ofWord word = kind := by
  have hall : ∀ w ∈ reservedWords, TokenKind.ofWord w.1 = w.2 := by decide
  exact hall _ h

theorem TokenKind.ofWord_of_not_mem {word : String} (h : word ∉ reservedWords.map Prod.fst) :
    TokenKind.ofWord word = .identifier := by
  rw [TokenKind.ofWord, List.lookup_eq_none_iff.2, Option.getD_none]
  intro w hw
  rw [bne_iff_ne]
  rintro rfl
  exact h (List.mem_map_of_mem hw)

theorem Pattern.mem_word_of_reserved {word : String} {kind : TokenKind} (h : (word, kind) ∈ reservedWords) :
    word.toList ∈ Pattern.word := by
  have hall : ∀ w ∈ reservedWords, (w.1.toList.head?.any isWordStart && w.1.toList.tail.all isWordPart) = true := by
    decide
  exact mem_word_of_all (hall _ h)

namespace Lexeme

variable {x : Lexeme} {rest : List Char}

theorem first_word {name : String} (hname : name.toList ∈ Pattern.word)
    (hends : ∀ c ∈ rest.head?, isWordPart c = false) :
    ∃ c more, name.toList ++ rest = c :: more ∧
      Piece.first c more = .ok (.plain (.ofWord name) name.toList) := by
  obtain ⟨c, more, hc, hmore, htext⟩ := Pattern.mem_word.1 hname
  refine ⟨c, more ++ rest, by rw [htext]; rfl, ?_⟩
  rw [Piece.first_word hc hmore hends, ← htext, String.ofList_toList]

/-- the lexeme is cut off as its piece -/
theorem first_text (hx : x.Formed) (hends : x.EndsBefore rest) :
    ∃ c more, x.text ++ rest = c :: more ∧ Piece.first c more = .ok x.piece := by
  cases x with
  | identifier name =>
    obtain ⟨c, more, htext, hfirst⟩ := first_word hx.1 hends
    rw [TokenKind.ofWord_of_not_mem hx.2] at hfirst
    exact ⟨c, more, htext, hfirst⟩
  | reserved word kind =>
    obtain ⟨c, more, htext, hfirst⟩ := first_word (Pattern.mem_word_of_reserved hx) hends
    rw [TokenKind.ofWord_of_mem hx] at hfirst
    exact ⟨c, more, htext, hfirst⟩
  | number digits =>
    obtain ⟨c, more, hc, hmore, htext⟩ := Pattern.mem_digits.1 hx
    have hfirst := Piece.first_digits hc hmore hends
    rw [← htext] at hfirst
    exact ⟨c, more ++ rest, congrArg (· ++ rest) htext, hfirst⟩
  | mark sign kind =>
    obtain ⟨c, more, htext⟩ := List.exists_cons_of_ne_nil (Piece.marks_ne_nil _ hx)
    exact ⟨c, more ++ rest, congrArg (· ++ rest) htext, Piece.first_mark hx htext hends⟩
  | string value =>
    refine ⟨'"', escape value.toList ++ '"' :: rest, by simp [text], ?_⟩
    exact Piece.first_quoted (escape_mem_content value.toList)

/-- the token of the lexeme's piece -/
theorem exists_token (x : Lexeme) (p : Position) : ∃ t, x.piece.token? p = some t ∧ x.Names t := by
  cases x with
  | string value =>
    refine ⟨_, rfl, rfl, ?_⟩
    rw [unescape_escape, String.ofList_toList]
    rfl
  | _ => exact ⟨_, rfl, rfl, String.ofList_toList⟩

end Lexeme

/-- a text that lexemes are written in, each of them ending before what follows it; blanks, and comments with the line
feed behind them, may stand anywhere between -/
inductive Written : List Lexeme → List Char → Prop
  | nil : Written [] []
  | lexeme {x : Lexeme} {xs : List Lexeme} {text : List Char} (hx : x.Formed) (hends : x.EndsBefore text)
      (more : Written xs text) : Written (x :: xs) (x.text ++ text)
  | blank {c : Char} {xs : List Lexeme} {text : List Char} (hc : isBlank c = true) (more : Written xs text) :
      Written xs (c :: text)
  | comment {note : List Char} {xs : List Lexeme} {text : List Char} (hnote : '\n' ∉ note) (more : Written xs text) :
      Written xs ('/' :: '/' :: (note ++ '\n' :: text))

namespace Token

variable {c : Char} {text rest : List Char}

theorem scan_of_gap {gap : List Char} (h : Piece.first c text = .ok (.gap gap)) (hsplit : c :: text = gap ++ rest)
    (p : Position) : scan (c :: text) p = scan rest (p.after gap) := by
  rw [scan_of_first h hsplit]
  cases hrest : scan rest (p.after gap) with
  | error e => simp [Piece.text, hrest, Except.map]
  | ok tokens => simp [Piece.text, Piece.token?, hrest, Except.map]

theorem scan_blanks (hc : isBlank c = true) (p : Position) :
    scan (c :: text) p = scan (text.dropWhile isBlank) ((p.next c).after (text.takeWhile isBlank)) :=
  scan_of_gap (Piece.first_blank hc) (by simp [Piece.run]) p

/-- a blank means nothing, wherever it stands before a piece -/
theorem scan_blank (hc : isBlank c = true) (p : Position) : scan (c :: text) p = scan text (p.next c) := by
  rw [scan_blanks hc]
  cases text with
  | nil => rfl
  | cons d text =>
    by_cases hd : isBlank d = true
    · rw [scan_blanks hd, List.dropWhile_cons_of_pos hd, List.takeWhile_cons_of_pos hd, Position.after_cons]
    · rw [List.dropWhile_cons_of_neg hd, List.takeWhile_cons_of_neg hd, Position.after_nil]

theorem scan_comment {note : List Char} (hnote : '\n' ∉ note) (p : Position) :
    scan ('/' :: '/' :: (note ++ '\n' :: text)) p = scan ('\n' :: text) (p.after ('/' :: '/' :: note)) := by
  have hall : ∀ d ∈ '/' :: note, (decide (d ≠ '\n')) = true := by
    intro d hd
    rcases List.mem_cons.1 hd with rfl | hd
    · decide
    · exact decide_eq_true fun heq => hnote (heq ▸ hd)
  have hrun : Piece.run (· ≠ '\n') '/' ('/' :: (note ++ '\n' :: text)) = '/' :: '/' :: note :=
    Piece.run_append_of_ends hall (by simp)
  exact scan_of_gap (Piece.first_comment _) (by rw [hrun]; rfl) p |>.trans (by rw [hrun])

/-- scanning a text that lexemes are written in gives their tokens, and the end at its end -/
theorem scan_written {xs : List Lexeme} (h : Written xs text) (p : Position) :
    ∃ tokens, scan text p = .ok (tokens ++ [endAt (p.after text)]) ∧ List.Forall₂ Lexeme.Names xs tokens := by
  induction h generalizing p with
  | nil => exact ⟨[], by simp [scan], .nil⟩
  | @lexeme x xs text hx hends _ ih =>
    obtain ⟨c, more, hcons, hfirst⟩ := x.first_text hx hends
    obtain ⟨tokens, hscan, hnames⟩ := ih (p.after x.text)
    obtain ⟨t, ht, hname⟩ := x.exists_token p
    refine ⟨t :: tokens, ?_, .cons hname hnames⟩
    rw [hcons, scan_of_first hfirst (by rw [← hcons, x.text_piece]), x.text_piece, hscan, ht, ← hcons]
    simp [Except.map]
  | blank hc _ ih =>
    obtain ⟨tokens, hscan, hnames⟩ := ih (p.next _)
    exact ⟨tokens, by rw [scan_blank hc, hscan, Position.after_cons], hnames⟩
  | @comment note xs text hnote _ ih =>
    obtain ⟨tokens, hscan, hnames⟩ := ih ((p.after ('/' :: '/' :: note)).next '\n')
    refine ⟨tokens, ?_, hnames⟩
    rw [scan_comment hnote, scan_blank isBlank_newline, hscan]
    simp

end Token

/-! ## Printed lexemes -/

open Computability

/-- a blank, and blanks and comments with their line feeds behind it -/
def Pattern.separator : Language Char := one (isBlank ·) * (one (isBlank ·) + comment * one (· = '\n'))∗

/-- lexemes written one after the other, with a separator between any two of them -/
inductive Printed : List Lexeme → List Char → Prop
  | nil : Printed [] []
  | last {x : Lexeme} (hx : x.Formed) : Printed [x] x.text
  | more {x y : Lexeme} {xs : List Lexeme} {gap text : List Char} (hx : x.Formed) (hgap : gap ∈ Pattern.separator)
      (rest : Printed (y :: xs) text) : Printed (x :: y :: xs) (x.text ++ (gap ++ text))

theorem Written.gaps {xs : List Lexeme} {gap text : List Char}
    (hgap : gap ∈ (Pattern.one (isBlank ·) + Pattern.comment * Pattern.one (· = '\n') : Language Char)∗)
    (h : Written xs text) : Written xs (gap ++ text) := by
  refine Pattern.kstar_induction (motive := fun gap => Written xs (gap ++ text)) hgap h ?_
  rintro v more (⟨c, hc, rfl⟩ | hv) ih
  · exact .blank hc ih
  · obtain ⟨_, hnote, _, ⟨_, rfl, rfl⟩, rfl⟩ := Language.mem_mul.1 hv
    obtain ⟨note, hline, rfl⟩ := Pattern.mem_comment.1 hnote
    simpa using Written.comment (fun hmem => hline _ hmem rfl) ih

/-- a lexeme ends before a blank -/
theorem Lexeme.endsBefore_blank (x : Lexeme) {c : Char} (hc : isBlank c = true) (rest : List Char) :
    x.EndsBefore (c :: rest) := by
  have hstart : isWordStart c = false := by
    by_contra h
    simp [Pattern.not_isBlank_of_isWordStart (by simpa using h)] at hc
  have hdigit : c.isDigit = false := by
    by_contra h
    simp [Pattern.not_isBlank_of_isDigit (by simpa using h)] at hc
  have hpart : isWordPart c = false := by
    simp only [isWordStart, Bool.or_eq_false_iff] at hstart
    simp [isWordPart, Char.isAlphanum, hstart, hdigit]
  have hsign : c ≠ '=' ∧ c ≠ '>' ∧ c ≠ '/' := by
    refine ⟨?_, ?_, ?_⟩ <;> rintro rfl <;> exact absurd hc (by decide)
  cases x with
  | identifier | reserved => intro d hd; cases hd; exact hpart
  | number => intro d hd; cases hd; exact hdigit
  | mark => intro d hd; cases hd; exact hsign
  | string => trivial

theorem Lexeme.endsBefore_nil (x : Lexeme) : x.EndsBefore [] := by
  cases x <;> simp [EndsBefore]

theorem Printed.written {xs : List Lexeme} {text : List Char} (h : Printed xs text) : Written xs text := by
  induction h with
  | nil => exact .nil
  | @last x hx => simpa using Written.lexeme hx x.endsBefore_nil .nil
  | @more x y xs gap text hx hgap _ ih =>
    obtain ⟨c, gaps, hc, hgaps, rfl⟩ := Pattern.mem_one_mul.1 hgap
    exact .lexeme hx (x.endsBefore_blank hc _) (.blank hc (ih.gaps hgaps))

/-- Lexemes printed with separators between them are read as one token each, of the lexeme's kind and value, and an end
behind them. -/
theorem tokenize_printed {xs : List Lexeme} {text : String} (h : Printed xs text.toList) :
    ∃ tokens last, tokenize text = .ok (tokens ++ [last]) ∧ last.kind = .endOfText ∧
      List.Forall₂ Lexeme.Names xs tokens := by
  obtain ⟨tokens, hscan, hnames⟩ := Token.scan_written h.written .first
  exact ⟨tokens, _, hscan, rfl, hnames⟩

/-- a word that starts with a reserved one, a comment, and a string with all that is escaped in one -/
def letterLexemes : List Lexeme :=
  [.reserved "let" .letWord, .identifier "letter", .mark ":=" .declare, .string "a\"\\\n", .mark ";" .semicolon]

def letterText : String := "let\t// a name\n letter := \"a\\\"\\\\\\n\" ;"

theorem letterText_printed : Printed letterLexemes letterText.toList := by
  have hspace : [' '] ∈ Pattern.separator :=
    Pattern.mem_one_mul.2 ⟨' ', [], by decide, Language.nil_mem_kstar _, rfl⟩
  have hnote : '\t' :: ("// a name".toList ++ ['\n'] ++ [' ']) ∈ Pattern.separator := by
    have hcomment : "// a name".toList ∈ Pattern.comment :=
      Pattern.mem_comment.2 ⟨" a name".toList, by simp, by decide⟩
    rw [List.append_assoc]
    refine Pattern.mem_one_mul.2 ⟨'\t', _, by decide, ?_, rfl⟩
    rw [← List.append_assoc]
    refine Pattern.mem_kstar_cons (.inr (Language.mem_mul.2 ⟨_, hcomment, _, ⟨'\n', rfl, rfl⟩, rfl⟩)) ?_
    exact Pattern.mem_kstar_cons (v := [' ']) (w := []) (.inl ⟨' ', by decide, rfl⟩) (Language.nil_mem_kstar _)
  have hlet : Lexeme.Formed (.reserved "let" .letWord) := by unfold Lexeme.Formed; decide
  have hletter : Lexeme.Formed (.identifier "letter") :=
    ⟨Pattern.mem_word_of_all (by decide), by decide⟩
  have hdeclare : Lexeme.Formed (.mark ":=" .declare) := by unfold Lexeme.Formed; decide
  have hend : Lexeme.Formed (.mark ";" .semicolon) := by unfold Lexeme.Formed; decide
  have hstring : Lexeme.Formed (.string "a\"\\\n") := trivial
  have htext : letterText.toList = "let".toList ++ ('\t' :: ("// a name".toList ++ ['\n'] ++ [' ']) ++
      ("letter".toList ++ ([' '] ++ (":=".toList ++ ([' '] ++
        (Lexeme.text (.string "a\"\\\n") ++ ([' '] ++ ";".toList))))))) := by decide
  rw [htext]
  exact .more hlet hnote (.more hletter hspace (.more hdeclare hspace (.more hstring hspace (.last hend))))

theorem tokenize_printed_letter : Printed letterLexemes letterText.toList ∧ ∃ tokens last,
    tokenize letterText = .ok (tokens ++ [last]) ∧ last.kind = .endOfText ∧
      List.Forall₂ Lexeme.Names letterLexemes tokens :=
  ⟨letterText_printed, tokenize_printed letterText_printed⟩

end TypedScript
