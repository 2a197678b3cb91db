/-
Texts that are cut off and gone on with. A text can be cut off in front of any of its tokens, a line feed put there and
other text behind it: the tokens in front of the cut stay as they are, places included. Only blanks are matched across a
line feed, so that no other piece grows longer where the line ends, and none grew over the cut before.

- `Piece.first_of_cut`: a piece is cut off all the same where the text behind it is cut off.
- `Token.scan_resume`: the tokens of a text that is gone on with.
- `tokenize_resume`: tokens in front of one of a text, and the tokens of any lexemes behind them.
-/
import TypedScript.Proofs.Token.Written

namespace TypedScript

/-! ## Pieces -/

namespace Pattern

variable {c : Char} {v text : List Char}

theorem newline_not_mem_content {s : List Char} (h : s ∈ content) : '\n' ∉ s := by
  refine kstar_induction (motive := fun s => '\n' ∉ s) h (by simp) ?_
  rintro v text (⟨c, ⟨_, _, hc⟩, rfl⟩ | hv) ih
  · simpa [ih] using Ne.symm hc
  · obtain ⟨_, _, rfl, ⟨c, hc, rfl⟩, rfl⟩ := mem_one_mul.1 hv
    simpa [ih] using Ne.symm hc

/-- a match that begins with no blank ends on the line it begins on -/
theorem newline_not_mem (hv : Matches v) (hpre : v <+: c :: text) (hc : isBlank c = false) : '\n' ∉ v := by
  have hmarks : ∀ m ∈ marks, '\n' ∉ m.1 := by decide
  have hclass {p : Char → Bool} {more : List Char} (hmore : ∀ d ∈ more, p d = true) (hp : p '\n' = false) :
      '\n' ∉ c :: more := by
    rintro (_ | ⟨_, hmem⟩)
    · simp [isBlank_newline] at hc
    · simp [hmore _ hmem] at hp
  cases begins hv hpre with
  | word _ hmore => exact hclass hmore (by decide)
  | digits _ hmore => exact hclass hmore (by decide)
  | blanks hblank _ => simp [hc] at hblank
  | string _ hs => simpa using newline_not_mem_content hs
  | comment _ hmore => simpa using fun hmem => hmore _ hmem rfl
  | mark hm _ => exact hmarks _ hm

end Pattern

namespace Piece

variable {c : Char} {text text' rest front more : List Char} {piece piece' : Piece}

/-- a piece that begins like no word, number, blanks or string -/
theorem comment_or_mark (h : first c text = .ok piece) (hword : isWordStart c ≠ true) (hdigit : c.isDigit ≠ true)
    (hblank : isBlank c ≠ true) (hquote : c ≠ '"') :
    (∃ note, piece = .gap ('/' :: '/' :: note)) ∨ ∃ m ∈ marks, piece = .plain m.2 m.1 := by
  rw [first, if_neg hword, if_neg hdigit, if_neg hblank, if_neg hquote] at h
  split at h
  · next hc =>
    rw [Bool.and_eq_true, decide_eq_true_eq, decide_eq_true_eq] at hc
    obtain ⟨rfl, hhead⟩ := hc
    obtain ⟨rest, rfl⟩ := List.head?_eq_some_iff.1 hhead
    cases h
    exact .inl ⟨rest.takeWhile (· ≠ '\n'), by simp [run]⟩
  split at h
  · next mark kind hm =>
    cases h
    exact .inr ⟨(mark, kind), List.mem_of_find?_eq_some hm, rfl⟩
  · cases h

/-- pieces that are cut off as the same text are the same -/
theorem eq_of_text_eq (h : first c text = .ok piece) (h' : first c text' = .ok piece')
    (htext : piece.text = piece'.text) : piece = piece' := by
  by_cases hword : isWordStart c = true
  · rw [first, if_pos hword] at h h'
    cases h; cases h'
    change run isWordPart c text = run isWordPart c text' at htext
    rw [htext]
  by_cases hdigit : c.isDigit = true
  · rw [first, if_neg hword, if_pos hdigit] at h h'
    cases h; cases h'
    exact congrArg (Piece.plain .number) htext
  by_cases hblank : isBlank c = true
  · rw [first_blank hblank] at h h'
    cases h; cases h'
    exact congrArg Piece.gap htext
  by_cases hquote : c = '"'
  · rw [first, if_neg hword, if_neg hdigit, if_neg hblank, if_pos hquote] at h h'
    split at h
    · split at h'
      · cases h; cases h'
        exact congrArg Piece.quoted (List.append_cancel_right (List.cons.inj htext).2)
      · cases h'
    · cases h
  have hnone : ∀ m ∈ marks, ¬ ['/', '/'] <+: m.1 := by decide
  have hone : ∀ m ∈ marks, ∀ m' ∈ marks, m.1 = m'.1 → m = m' := by decide
  rcases comment_or_mark h hword hdigit hblank hquote with ⟨note, rfl⟩ | ⟨m, hm, rfl⟩ <;>
    rcases comment_or_mark h' hword hdigit hblank hquote with ⟨note', rfl⟩ | ⟨m', hm', rfl⟩
  · exact congrArg Piece.gap htext
  · exact absurd ⟨note, htext⟩ (hnone m' hm')
  · exact absurd ⟨note', htext.symm⟩ (hnone m hm)
  · rw [hone m hm m' hm' htext]

/-- a piece other than blanks is cut off all the same where the text behind it is cut off and a line feed put there -/
theorem first_of_cut (h : first c text = .ok piece) (hc : isBlank c = false) (hsplit : c :: text = piece.text ++ rest)
    (hfront : front <+: rest) :
    ∃ text', piece.text ++ (front ++ '\n' :: more) = c :: text' ∧ first c text' = .ok piece := by
  obtain ⟨d, tail, htail⟩ := List.exists_cons_of_ne_nil (first_text_ne_nil h)
  obtain rfl : c = d := by rw [htail] at hsplit; exact (List.cons.inj hsplit).1
  refine ⟨tail ++ (front ++ '\n' :: more), by rw [htail]; rfl, ?_⟩
  have hmatch := (formed_of_first h).isMatch
  have hpre : piece.text <+: c :: (tail ++ (front ++ '\n' :: more)) := ⟨_, by rw [htail]; rfl⟩
  cases hfirst : first c (tail ++ (front ++ '\n' :: more)) with
  | error flaw => exact absurd hpre ((stuck_of_first hfirst).1 _ hmatch)
  | ok piece' =>
    have hlongest := longest_of_first hfirst
    have hstart : piece'.text <+: (piece.text ++ front) ++ '\n' :: more := by simpa [htail] using hlongest.start
    -- a longer piece would have the line feed in it
    have hwithin : piece'.text.length ≤ (piece.text ++ front).length := by
      by_contra hlong
      obtain ⟨extra, hextra⟩ := List.prefix_of_prefix_length_le (List.prefix_append _ _) hstart (by omega)
      rw [← hextra, List.prefix_append_right_inj] at hstart
      cases extra with
      | nil => simp [← hextra] at hlong
      | cons d extra =>
        obtain ⟨rfl, -⟩ := List.cons_prefix_cons.1 hstart
        exact Pattern.newline_not_mem hlongest.isMatch hlongest.start hc (by simp [← hextra])
    have hbefore : piece'.text <+: c :: text := by
      rw [hsplit]
      exact (List.prefix_of_prefix_length_le hstart (List.prefix_append _ _) hwithin).trans
        ((List.prefix_append_right_inj _).2 hfront)
    have hle := (longest_of_first h).longest _ hlongest.isMatch hbefore
    have hge := hlongest.longest _ hmatch hpre
    have heq : piece'.text = piece.text := by
      refine (List.prefix_of_prefix_length_le hbefore ⟨rest, hsplit.symm⟩ hle).eq_of_length ?_
      omega
    rw [eq_of_text_eq hfirst h heq]

end Piece

/-! ## Texts -/

namespace Token

variable {c : Char} {p : Position} {text gap rest front more : List Char} {piece : Piece} {others : List Token}

theorem scan_blank_run (hgap : ∀ c ∈ gap, isBlank c = true) (p : Position) :
    scan (gap ++ text) p = scan text (p.after gap) := by
  induction gap generalizing p with
  | nil => rfl
  | cons c gap ih =>
    obtain ⟨hc, hgap⟩ := List.forall_mem_cons.1 hgap
    rw [List.cons_append, scan_blank hc, ih hgap, Position.after_cons]

/-- a piece in front of a text that is cut off -/
theorem scan_cut (hfirst : Piece.first c text = .ok piece) (hsplit : c :: text = piece.text ++ rest)
    (hfront : front <+: rest) (h : scan (front ++ '\n' :: more) (p.after piece.text) = .ok others) :
    scan (piece.text ++ (front ++ '\n' :: more)) p = .ok ((piece.token? p).toList ++ others) := by
  by_cases hc : isBlank c = true
  · rw [Piece.first_blank hc] at hfirst
    cases hfirst
    have hgap : ∀ d ∈ Piece.run isBlank c text, isBlank d = true :=
      List.forall_mem_cons.2 ⟨hc, List.all_eq_true.1 List.all_takeWhile⟩
    exact (scan_blank_run hgap p).trans h
  · obtain ⟨text', heq, hcut⟩ := Piece.first_of_cut hfirst (by simpa using hc) hsplit hfront
    rw [heq, scan_of_first hcut heq.symm, h]
    rfl

/-- a text can be cut off in front of any of its tokens and gone on with on another line -/
theorem scan_resume (text : List Char) (p : Position) {tokens used after : List Token} {t : Token}
    (h : scan text p = .ok tokens) (hsplit : tokens = used ++ t :: after) :
    ∃ front, front <+: text ∧ ∀ more others, scan ('\n' :: more) (p.after front) = .ok others →
      scan (front ++ '\n' :: more) p = .ok (used ++ others) := by
  fun_induction Token.scan text p generalizing tokens used with
  | case1 p =>
    cases h
    cases used with
    | nil => exact ⟨[], List.nil_prefix, fun more others hmore => hmore⟩
    | cons u used => cases used <;> cases hsplit
  | case2 => cases h
  | case3 c text p piece hpiece _ ih =>
    cases hscan : scan ((c :: text).drop piece.text.length) (p.after piece.text) with
    | error e => rw [hscan] at h; cases h
    | ok others =>
      rw [hscan] at h
      cases h
      cases used with
      | nil => exact ⟨[], List.nil_prefix, fun more others hmore => hmore⟩
      | cons u used =>
      have hused : ∃ used', u :: used = (piece.token? p).toList ++ used' ∧ others = used' ++ t :: after := by
        cases htoken : piece.token? p with
        | none => exact ⟨u :: used, rfl, by simpa [htoken] using hsplit⟩
        | some v =>
          rw [htoken] at hsplit
          obtain ⟨rfl, hothers⟩ := List.cons.inj hsplit
          exact ⟨used, rfl, hothers⟩
      obtain ⟨used', hused, hothers⟩ := hused
      obtain ⟨rest, hrest⟩ := Piece.first_text_append hpiece
      rw [hrest, List.drop_left] at ih hscan
      obtain ⟨front, hfront, hmore⟩ := ih hscan hothers
      refine ⟨piece.text ++ front, hrest ▸ (List.prefix_append_right_inj _).2 hfront, fun more others h => ?_⟩
      rw [Position.after_append] at h
      rw [hused, List.append_assoc, List.append_assoc]
      exact scan_cut hpiece hrest hfront (hmore more others h)

end Token

/-- lexemes on lines of their own -/
def Lexeme.lines (xs : List Lexeme) : List Char := xs.flatMap fun x => x.text ++ ['\n']

theorem written_lines {xs : List Lexeme} (h : ∀ x ∈ xs, x.Formed) : Written xs (Lexeme.lines xs) := by
  induction xs with
  | nil => exact .nil
  | cons x xs ih =>
    obtain ⟨hx, hxs⟩ := List.forall_mem_cons.1 h
    have hlines : Lexeme.lines (x :: xs) = x.text ++ '\n' :: Lexeme.lines xs := by simp [Lexeme.lines]
    rw [hlines]
    exact .lexeme hx (x.endsBefore_blank isBlank_newline _) (.blank isBlank_newline (ih hxs))

theorem tokenize_ofList (text : List Char) : tokenize (String.ofList text) = Token.scan text .first := by
  rw [tokenize, String.toList_ofList]

/-- Lexemes can be written behind the tokens in front of any token of a text. -/
theorem tokenize_resume {source : String} {used after : List Token} {t : Token}
    (h : tokenize source = .ok (used ++ t :: after)) {xs : List Lexeme} (hxs : ∀ x ∈ xs, x.Formed) :
    ∃ source' more last, tokenize source' = .ok (used ++ more ++ [last]) ∧ last.kind = .endOfText ∧
      List.Forall₂ Lexeme.Names xs more := by
  obtain ⟨front, -, hfront⟩ := Token.scan_resume source.toList .first h rfl
  obtain ⟨more, hscan, hnames⟩ := Token.scan_written (.blank isBlank_newline (written_lines hxs)) (.after .first front)
  have hall := hfront _ _ hscan
  rw [← List.append_assoc] at hall
  exact ⟨_, more, _, (tokenize_ofList _).trans hall, rfl, hnames⟩

end TypedScript
