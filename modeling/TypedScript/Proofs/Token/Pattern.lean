/-
The patterns of source text, as languages over characters, and how they meet the pieces that are cut off a text. The
first character of a match tells the pattern, but for the slash, which a comment and a mark begin with, and for marks
that begin alike; there the longer match is taken.

- `Piece.Formed`: a piece and the pattern its text is matched by, with the kind of token it stands for.
- `Piece.formed_of_first`, `Piece.longest_of_first`: the piece cut off a text is formed, and no pattern matches a longer
  start of the text.
- `Piece.stuck_of_first`: where no piece can be cut off, no pattern matches.
-/
import Mathlib.Computability.Language
import TypedScript.Token.Lexeme

namespace TypedScript

open Computability

/-! ## Patterns -/

namespace Pattern

/-- a character of one of the ranges, both ends included -/
def Within (ranges : List (Char × Char)) (c : Char) : Prop := ∃ r ∈ ranges, r.1 ≤ c ∧ c ≤ r.2

/-- one character -/
def one (p : Char → Prop) : Language Char := {w | ∃ c, p c ∧ w = [c]}

def word : Language Char :=
  one (Within [('a', 'z'), ('A', 'Z'), ('_', '_')]) * (one (Within [('a', 'z'), ('A', 'Z'), ('0', '9'), ('_', '_')]))∗

def digits : Language Char := one (Within [('0', '9')]) * (one (Within [('0', '9')]))∗

def blanks : Language Char := one (isBlank ·) * (one (isBlank ·))∗

/-- what stands between the quotes of a string: plain characters, and backslashes with the character behind them -/
def content : Language Char :=
  (one (fun c => c ≠ '"' ∧ c ≠ '\\' ∧ c ≠ '\n') + one (· = '\\') * one (· ≠ '\n'))∗

def string : Language Char := one (· = '"') * content * one (· = '"')

/-- two slashes and the rest of the line -/
def comment : Language Char := one (· = '/') * one (· = '/') * (one (· ≠ '\n'))∗

/-- the patterns of lexemes and of what stands between them, in the order in which they are tried -/
def all : List (Language Char) := [word, digits, blanks, string, comment] ++ marks.map fun m => {m.1}

/-- one of the patterns matches a text as a whole -/
def Matches (text : List Char) : Prop := ∃ l ∈ all, text ∈ l

/-- the longest start of a text that any pattern matches -/
structure Longest (w text : List Char) : Prop where
  isMatch : Matches w
  start : w <+: text
  longest : ∀ v, Matches v → v <+: text → v.length ≤ w.length

/-! ## Membership -/

theorem mem_one_mul {p : Char → Prop} {l : Language Char} {w : List Char} :
    w ∈ one p * l ↔ ∃ c text, p c ∧ text ∈ l ∧ w = c :: text := by
  rw [Language.mem_mul]
  constructor
  · rintro ⟨_, ⟨c, hc, rfl⟩, text, htext, rfl⟩
    exact ⟨c, text, hc, htext, rfl⟩
  · rintro ⟨c, text, hc, htext, rfl⟩
    exact ⟨[c], ⟨c, hc, rfl⟩, text, htext, rfl⟩

theorem mem_kstar_cons {l : Language Char} {v w : List Char} (hv : v ∈ l) (hw : w ∈ l∗) : v ++ w ∈ l∗ := by
  obtain ⟨parts, rfl, hparts⟩ := Language.mem_kstar.1 hw
  refine Language.mem_kstar.2 ⟨v :: parts, rfl, fun y hy => ?_⟩
  rcases List.mem_cons.1 hy with rfl | hy
  · exact hv
  · exact hparts y hy

/-- what holds of nothing, and of a part in front of what it holds of, holds of all repetitions of the part -/
theorem kstar_induction {l : Language Char} {motive : List Char → Prop} {w : List Char} (hw : w ∈ l∗) (nil : motive [])
    (append : ∀ v text, v ∈ l → motive text → motive (v ++ text)) : motive w := by
  obtain ⟨parts, rfl, hparts⟩ := Language.mem_kstar.1 hw
  clear hw
  induction parts with
  | nil => exact nil
  | cons v parts ih =>
    exact append v _ (hparts v List.mem_cons_self) (ih fun y hy => hparts y (List.mem_cons_of_mem v hy))

theorem mem_kstar_one {p : Char → Prop} {w : List Char} : w ∈ (one p)∗ ↔ ∀ c ∈ w, p c := by
  constructor
  · intro hw
    refine kstar_induction (motive := fun w => ∀ c ∈ w, p c) hw (fun c hc => nomatch hc) ?_
    rintro _ text ⟨c, hc, rfl⟩ ih
    exact List.forall_mem_cons.2 ⟨hc, ih⟩
  · intro hw
    induction w with
    | nil => exact Language.nil_mem_kstar _
    | cons c w ih =>
      obtain ⟨hc, hw⟩ := List.forall_mem_cons.1 hw
      exact mem_kstar_cons (v := [c]) ⟨c, hc, rfl⟩ (ih hw)

/-- a character of one class, and any number of another class behind it -/
theorem mem_one_mul_kstar {p q : Char → Prop} {w : List Char} :
    w ∈ one p * (one q)∗ ↔ ∃ c text, p c ∧ (∀ d ∈ text, q d) ∧ w = c :: text := by
  simp only [mem_one_mul, mem_kstar_one]

theorem within_digit {c : Char} : Within [('0', '9')] c ↔ c.isDigit = true := by
  simp [Within, Char.isDigit, Char.le_def]

theorem between_underscores {c : Char} : '_' ≤ c ∧ c ≤ '_' ↔ c = '_' := by
  constructor
  · rintro ⟨h, h'⟩
    exact Char.le_antisymm h' h
  · rintro rfl
    exact ⟨Char.le_refl _, Char.le_refl _⟩

theorem within_start {c : Char} : Within [('a', 'z'), ('A', 'Z'), ('_', '_')] c ↔ isWordStart c = true := by
  simp only [Within, List.mem_cons, List.not_mem_nil, or_false, exists_eq_or_imp, exists_eq_left, between_underscores]
  change _ ↔ (decide (c.val ≥ 'A'.val ∧ c.val ≤ 'Z'.val) || decide (c.val ≥ 'a'.val) && decide (c.val ≤ 'z'.val)
    || decide (c = '_')) = true
  simp only [Char.le_def, Bool.or_eq_true, Bool.and_eq_true, decide_eq_true_eq, ge_iff_le]
  exact Iff.trans (Iff.symm or_assoc) (or_congr_left or_comm)

theorem within_part {c : Char} :
    Within [('a', 'z'), ('A', 'Z'), ('0', '9'), ('_', '_')] c ↔ isWordPart c = true := by
  have hsplit : Within [('a', 'z'), ('A', 'Z'), ('0', '9'), ('_', '_')] c ↔
      Within [('a', 'z'), ('A', 'Z'), ('_', '_')] c ∨ Within [('0', '9')] c := by
    simp only [Within, List.mem_cons, List.not_mem_nil, or_false, exists_eq_or_imp, exists_eq_left]
    tauto
  rw [hsplit, within_start, within_digit]
  simp only [isWordStart, isWordPart, Char.isAlphanum, Bool.or_eq_true, decide_eq_true_eq]
  exact or_right_comm

theorem mem_word {w : List Char} :
    w ∈ word ↔ ∃ c text, isWordStart c = true ∧ (∀ d ∈ text, isWordPart d = true) ∧ w = c :: text := by
  simp only [word, mem_one_mul_kstar, within_start, within_part]

/-- a text whose characters are asked one by one -/
theorem mem_word_of_all {w : List Char} (h : (w.head?.any isWordStart && w.tail.all isWordPart) = true) : w ∈ word := by
  cases w with
  | nil => simp at h
  | cons c text =>
    rw [Bool.and_eq_true] at h
    exact mem_word.2 ⟨c, text, h.1, fun d hd => List.all_eq_true.1 h.2 d hd, rfl⟩

theorem mem_digits {w : List Char} :
    w ∈ digits ↔ ∃ c text, c.isDigit = true ∧ (∀ d ∈ text, d.isDigit = true) ∧ w = c :: text := by
  simp only [digits, mem_one_mul_kstar, within_digit]

theorem mem_blanks {w : List Char} :
    w ∈ blanks ↔ ∃ c text, isBlank c = true ∧ (∀ d ∈ text, isBlank d = true) ∧ w = c :: text := mem_one_mul_kstar

theorem mem_string {w : List Char} : w ∈ string ↔ ∃ s ∈ content, w = '"' :: (s ++ ['"']) := by
  rw [string, mul_assoc, mem_one_mul]
  constructor
  · rintro ⟨_, _, rfl, htext, rfl⟩
    obtain ⟨s, hs, _, ⟨_, rfl, rfl⟩, rfl⟩ := Language.mem_mul.1 htext
    exact ⟨s, hs, rfl⟩
  · rintro ⟨s, hs, rfl⟩
    exact ⟨'"', _, rfl, Language.mem_mul.2 ⟨s, hs, _, ⟨'"', rfl, rfl⟩, rfl⟩, rfl⟩

theorem mem_comment {w : List Char} : w ∈ comment ↔ ∃ text, (∀ d ∈ text, d ≠ '\n') ∧ w = '/' :: '/' :: text := by
  simp only [comment, mul_assoc, mem_one_mul, mem_kstar_one]
  constructor
  · rintro ⟨_, _, rfl, ⟨_, text, rfl, htext, rfl⟩, rfl⟩
    exact ⟨text, htext, rfl⟩
  · rintro ⟨text, htext, rfl⟩
    exact ⟨'/', _, rfl, ⟨'/', text, rfl, htext, rfl⟩, rfl⟩

theorem matches_iff {w : List Char} :
    Matches w ↔ w ∈ word ∨ w ∈ digits ∨ w ∈ blanks ∨ w ∈ string ∨ w ∈ comment ∨ ∃ m ∈ marks, w = m.1 := by
  simp only [Matches, all, List.mem_append, List.mem_cons, List.not_mem_nil, or_false, List.mem_map, or_and_right,
    exists_or, exists_eq_left, exists_exists_and_eq_and, or_assoc]
  rfl

/-! ## First characters -/

variable {c : Char} {text v : List Char}

theorem toNat_of_isBlank (h : isBlank c = true) : c.toNat ≤ 32 ∨ 133 ≤ c.toNat := by
  simp only [isBlank, blankRanges, List.any_cons, List.any_nil, Bool.or_false, Bool.or_eq_true, Bool.and_eq_true,
    decide_eq_true_eq] at h
  omega

theorem toNat_of_isDigit (h : c.isDigit = true) : 48 ≤ c.toNat ∧ c.toNat ≤ 57 := Char.isDigit_iff_toNat.1 h

theorem toNat_of_isWordStart (h : isWordStart c = true) : 65 ≤ c.toNat ∧ c.toNat ≤ 122 := by
  obtain ⟨r, hr, hlow, hhigh⟩ := within_start.2 h
  simp only [List.mem_cons, List.not_mem_nil, or_false] at hr
  rcases hr with rfl | rfl | rfl <;> simp only [Char.le_def, UInt32.le_iff_toNat_le] at hlow hhigh <;>
    exact ⟨Nat.le_trans (by decide) hlow, Nat.le_trans hhigh (by decide)⟩

theorem not_isDigit_of_isWordStart (h : isWordStart c = true) : c.isDigit = false := by
  by_contra hd
  have := toNat_of_isWordStart h
  have := toNat_of_isDigit (by simpa using hd)
  omega

theorem not_isBlank_of_isWordStart (h : isWordStart c = true) : isBlank c = false := by
  by_contra hb
  have := toNat_of_isWordStart h
  have := toNat_of_isBlank (by simpa using hb)
  omega

theorem not_isBlank_of_isDigit (h : c.isDigit = true) : isBlank c = false := by
  by_contra hb
  have := toNat_of_isDigit h
  have := toNat_of_isBlank (by simpa using hb)
  omega

/-- no mark begins like a word, a number, blanks or a string -/
theorem mark_start {m : List Char × TokenKind} (hm : m ∈ marks) (hc : m.1.head? = some c) :
    isWordStart c = false ∧ c.isDigit = false ∧ isBlank c = false ∧ c ≠ '"' := by
  have hall : ∀ m ∈ marks, (m.1.head?.all fun c => !isWordStart c && !c.isDigit && !isBlank c && c ≠ '"') = true := by
    decide
  have hm := hall m hm
  rw [hc] at hm
  simpa [and_assoc] using hm

/-- what a match that begins a text can be, told by the first character of the text -/
inductive Begins (c : Char) : List Char → Prop
  | word {text : List Char} (hc : isWordStart c = true) (h : ∀ d ∈ text, isWordPart d = true) : Begins c (c :: text)
  | digits {text : List Char} (hc : c.isDigit = true) (h : ∀ d ∈ text, d.isDigit = true) : Begins c (c :: text)
  | blanks {text : List Char} (hc : isBlank c = true) (h : ∀ d ∈ text, isBlank d = true) : Begins c (c :: text)
  | string {s : List Char} (hc : c = '"') (h : s ∈ content) : Begins c ('"' :: (s ++ ['"']))
  | comment {text : List Char} (hc : c = '/') (h : ∀ d ∈ text, d ≠ '\n') : Begins c ('/' :: '/' :: text)
  | mark {m : List Char × TokenKind} (h : m ∈ marks) (hc : m.1.head? = some c) : Begins c m.1

theorem begins (hv : Matches v) (hpre : v <+: c :: text) : Begins c v := by
  rcases matches_iff.1 hv with h | h | h | h | h | ⟨m, hm, rfl⟩
  · obtain ⟨d, more, hd, hmore, rfl⟩ := mem_word.1 h
    obtain ⟨rfl, -⟩ := List.cons_prefix_cons.1 hpre
    exact .word hd hmore
  · obtain ⟨d, more, hd, hmore, rfl⟩ := mem_digits.1 h
    obtain ⟨rfl, -⟩ := List.cons_prefix_cons.1 hpre
    exact .digits hd hmore
  · obtain ⟨d, more, hd, hmore, rfl⟩ := mem_blanks.1 h
    obtain ⟨rfl, -⟩ := List.cons_prefix_cons.1 hpre
    exact .blanks hd hmore
  · obtain ⟨s, hs, rfl⟩ := mem_string.1 h
    exact .string (List.cons_prefix_cons.1 hpre).1.symm hs
  · obtain ⟨more, hmore, rfl⟩ := mem_comment.1 h
    exact .comment (List.cons_prefix_cons.1 hpre).1.symm hmore
  · obtain ⟨d, more, hm'⟩ := List.exists_cons_of_ne_nil (Piece.marks_ne_nil m hm)
    rw [hm'] at hpre
    obtain ⟨rfl, -⟩ := List.cons_prefix_cons.1 hpre
    exact .mark hm (by rw [hm']; rfl)

theorem Begins.word_of (h : Begins c v) (hc : isWordStart c = true) :
    ∃ more, (∀ d ∈ more, isWordPart d = true) ∧ v = c :: more := by
  cases h with
  | word _ hmore => exact ⟨_, hmore, rfl⟩
  | digits hd _ => simp [not_isDigit_of_isWordStart hc] at hd
  | blanks hd _ => simp [not_isBlank_of_isWordStart hc] at hd
  | string hd _ => subst hd; exact absurd hc (by decide)
  | comment hd _ => subst hd; exact absurd hc (by decide)
  | mark hm hd => simp [(mark_start hm hd).1] at hc

theorem Begins.digits_of (h : Begins c v) (hc : c.isDigit = true) :
    ∃ more, (∀ d ∈ more, d.isDigit = true) ∧ v = c :: more := by
  cases h with
  | word hd _ => simp [not_isDigit_of_isWordStart hd] at hc
  | digits _ hmore => exact ⟨_, hmore, rfl⟩
  | blanks hd _ => simp [not_isBlank_of_isDigit hc] at hd
  | string hd _ => subst hd; exact absurd hc (by decide)
  | comment hd _ => subst hd; exact absurd hc (by decide)
  | mark hm hd => simp [(mark_start hm hd).2.1] at hc

theorem Begins.blanks_of (h : Begins c v) (hc : isBlank c = true) :
    ∃ more, (∀ d ∈ more, isBlank d = true) ∧ v = c :: more := by
  cases h with
  | word hd _ => simp [not_isBlank_of_isWordStart hd] at hc
  | digits hd _ => simp [not_isBlank_of_isDigit hd] at hc
  | blanks _ hmore => exact ⟨_, hmore, rfl⟩
  | string hd _ => subst hd; exact absurd hc (by decide)
  | comment hd _ => subst hd; exact absurd hc (by decide)
  | mark hm hd => simp [(mark_start hm hd).2.2.1] at hc

theorem Begins.string_of (h : Begins '"' v) : ∃ s ∈ content, v = '"' :: (s ++ ['"']) := by
  cases h with
  | word hd _ => exact absurd hd (by decide)
  | digits hd _ => exact absurd hd (by decide)
  | blanks hd _ => exact absurd hd (by decide)
  | string _ hs => exact ⟨_, hs, rfl⟩
  | comment hd _ => exact absurd hd (by decide)
  | mark hm hd => exact absurd rfl (mark_start hm hd).2.2.2

theorem Begins.comment_or_mark (h : Begins c v) (hword : isWordStart c ≠ true) (hdigit : c.isDigit ≠ true)
    (hblank : isBlank c ≠ true) (hquote : c ≠ '"') :
    (c = '/' ∧ ∃ more, (∀ d ∈ more, d ≠ '\n') ∧ v = '/' :: '/' :: more) ∨
      ∃ m ∈ marks, m.1.head? = some c ∧ v = m.1 := by
  cases h with
  | word hd _ => exact absurd hd hword
  | digits hd _ => exact absurd hd hdigit
  | blanks hd _ => exact absurd hd hblank
  | string hd _ => exact absurd hd hquote
  | comment hd hmore => exact .inl ⟨hd, _, hmore, rfl⟩
  | mark hm hd => exact .inr ⟨_, hm, hd, rfl⟩

end Pattern

/-! ## Pieces -/

namespace Piece

open Pattern

variable {c : Char} {text v : List Char} {piece : Piece}

/-- a piece of a kind, and the pattern that matches it -/
inductive Formed : Piece → Prop
  | blanks {text : List Char} (h : text ∈ Pattern.blanks) : Formed (.gap text)
  | comment {text : List Char} (h : text ∈ Pattern.comment) : Formed (.gap text)
  | reserved {text : List Char} {kind : TokenKind} (h : text ∈ Pattern.word)
      (hword : (String.ofList text, kind) ∈ reservedWords) : Formed (.plain kind text)
  | identifier {text : List Char} (h : text ∈ Pattern.word)
      (hfree : String.ofList text ∉ reservedWords.map Prod.fst) : Formed (.plain .identifier text)
  | number {text : List Char} (h : text ∈ Pattern.digits) : Formed (.plain .number text)
  | mark {text : List Char} {kind : TokenKind} (h : (text, kind) ∈ marks) : Formed (.plain kind text)
  | string {content : List Char} (h : content ∈ Pattern.content) : Formed (.quoted content)

theorem formed_word (h : text ∈ Pattern.word) : Formed (.plain (.ofWord (String.ofList text)) text) := by
  unfold TokenKind.ofWord
  cases hw : reservedWords.lookup (String.ofList text) with
  | none =>
    refine .identifier h fun hmem => ?_
    obtain ⟨w, hw', hfst⟩ := List.mem_map.1 hmem
    have hne := List.lookup_eq_none_iff.1 hw w hw'
    simp [hfst] at hne
  | some kind =>
    obtain ⟨before, after, hsplit, _⟩ := List.lookup_eq_some_iff.1 hw
    exact .reserved h (by simp [hsplit])

theorem mem_content_of_stringContent? {s : List Char} (h : stringContent? text = some s) : s ∈ Pattern.content := by
  fun_induction stringContent? text generalizing s with
  | case1 => simp at h
  | case2 => cases h; exact Language.nil_mem_kstar _
  | case3 => simp at h
  | case4 => simp at h
  | case5 => simp at h
  | case6 c text hc ih =>
    obtain ⟨s, hs, rfl⟩ := Option.map_eq_some_iff.1 h
    exact mem_kstar_cons (v := ['\\', c]) (.inr (mem_one_mul.2 ⟨'\\', [c], rfl, ⟨c, hc, rfl⟩, rfl⟩)) (ih hs)
  | case7 c text hquote hline hslash hback ih =>
    obtain ⟨s, hs, rfl⟩ := Option.map_eq_some_iff.1 h
    have hplain : c ≠ '\\' := by
      intro hc
      cases text with
      | nil => exact hslash hc rfl
      | cons d text => exact hback d text hc rfl
    exact mem_kstar_cons (v := [c]) (.inl ⟨c, ⟨hquote, hplain, hline⟩, rfl⟩) (ih hs)

theorem stringContent?_of_mem {s : List Char} (h : s ∈ Pattern.content) (rest : List Char) :
    stringContent? (s ++ '"' :: rest) = some s := by
  refine kstar_induction (motive := fun s => stringContent? (s ++ '"' :: rest) = some s) h (by simp [stringContent?]) ?_
  rintro v text (⟨c, ⟨_, hslash, _⟩, rfl⟩ | hv) ih
  · simp [stringContent?, ih, hslash]
  · obtain ⟨_, _, rfl, ⟨c, hc, rfl⟩, rfl⟩ := mem_one_mul.1 hv
    simp [stringContent?, ih, hc]

/-- a match that begins with a quote is the string that is read there -/
theorem stringContent?_of_matches (hv : Matches v) (hpre : v <+: '"' :: text) :
    ∃ s, v = '"' :: (s ++ ['"']) ∧ stringContent? text = some s := by
  obtain ⟨s, hs, rfl⟩ := (begins hv hpre).string_of
  obtain ⟨rest, hrest⟩ := hpre
  have htext : text = s ++ '"' :: rest := by simpa using hrest.symm
  exact ⟨s, rfl, by rw [htext, stringContent?_of_mem hs]⟩

theorem formed_of_first (h : first c text = .ok piece) : piece.Formed := by
  have hall {p : Char → Bool} : ∀ d ∈ text.takeWhile p, p d = true := List.all_eq_true.1 List.all_takeWhile
  unfold first at h
  split at h
  · next hc => cases h; exact formed_word (mem_word.2 ⟨c, _, hc, hall, rfl⟩)
  split at h
  · next hc => cases h; exact .number (mem_digits.2 ⟨c, _, hc, hall, rfl⟩)
  split at h
  · next hc => cases h; exact .blanks (mem_blanks.2 ⟨c, _, hc, hall, rfl⟩)
  split at h
  · split at h
    · next hs => cases h; exact .string (mem_content_of_stringContent? hs)
    · cases h
  split at h
  · next hc =>
    cases h
    rw [Bool.and_eq_true, decide_eq_true_eq, decide_eq_true_eq] at hc
    obtain ⟨rfl, hhead⟩ := hc
    obtain ⟨rest, rfl⟩ := List.head?_eq_some_iff.1 hhead
    refine .comment (mem_comment.2 ⟨rest.takeWhile (· ≠ '\n'), fun d hd => ?_, ?_⟩)
    · simpa using List.all_eq_true.1 List.all_takeWhile d hd
    · simp [run]
  split at h
  · next mark kind hm => cases h; exact .mark (List.mem_of_find?_eq_some hm)
  · cases h

theorem length_le_run {p : Char → Bool} {more : List Char} (h : ∀ d ∈ more, p d = true)
    (hpre : c :: more <+: c :: text) : (c :: more).length ≤ (run p c text).length := by
  obtain ⟨rest, rfl⟩ := (List.cons_prefix_cons.1 hpre).2
  simp [run, List.takeWhile_append_of_pos h]

/-- the mark that a text is found to start with is the longest one -/
theorem length_le_of_firstMark? {m m' : List Char × TokenKind} (h : firstMark? text = some m) (hm' : m' ∈ marks)
    (hpre : m'.1 <+: text) : m'.1.length ≤ m.1.length := by
  have hordered : marks.Pairwise fun m m' => ¬ (m.1 <+: m'.1 ∧ m.1.length < m'.1.length) := by decide
  obtain ⟨hm, before, after, hsplit, hbefore⟩ := List.find?_eq_some_iff_append.1 h
  rw [List.isPrefixOf_iff_prefix] at hm
  rw [hsplit] at hordered hm'
  rcases List.mem_append.1 hm' with hm' | hm'
  · have hno := hbefore m' hm'
    rw [Bool.not_eq_true', ← Bool.not_eq_true, List.isPrefixOf_iff_prefix] at hno
    exact absurd hpre hno
  rcases List.mem_cons.1 hm' with rfl | hm'
  · exact Nat.le_refl _
  -- a mark that is tried later is no longer than the one found, or else the table would be out of order
  · have hlater := (List.pairwise_cons.1 (List.pairwise_append.1 hordered).2.1).1 m' hm'
    by_contra hlt
    exact hlater ⟨List.prefix_of_prefix_length_le hm hpre (by omega), by omega⟩

theorem Formed.isMatch (h : piece.Formed) : Matches piece.text := by
  rw [matches_iff]
  cases h with
  | blanks h => exact .inr (.inr (.inl h))
  | comment h => exact .inr (.inr (.inr (.inr (.inl h))))
  | reserved h _ => exact .inl h
  | identifier h _ => exact .inl h
  | number h => exact .inr (.inl h)
  | mark h => exact .inr (.inr (.inr (.inr (.inr ⟨_, h, rfl⟩))))
  | string h => exact .inr (.inr (.inr (.inl (mem_string.2 ⟨_, h, rfl⟩))))

theorem length_le_of_first (h : first c text = .ok piece) (hv : Matches v) (hpre : v <+: c :: text) :
    v.length ≤ piece.text.length := by
  have hbegins := begins hv hpre
  unfold first at h
  split at h
  · next hc =>
    obtain ⟨more, hmore, rfl⟩ := hbegins.word_of hc
    cases h; exact length_le_run hmore hpre
  split at h
  · next hc =>
    obtain ⟨more, hmore, rfl⟩ := hbegins.digits_of hc
    cases h; exact length_le_run hmore hpre
  split at h
  · next hc =>
    obtain ⟨more, hmore, rfl⟩ := hbegins.blanks_of hc
    cases h; exact length_le_run hmore hpre
  split at h
  · next hc =>
    subst hc
    obtain ⟨s, rfl, hs⟩ := stringContent?_of_matches hv hpre
    rw [hs] at h
    cases h; exact Nat.le_refl _
  next hword hdigit hblank hquote =>
  -- only here do two patterns begin alike: the slash of a division begins a comment as well
  have hother := hbegins.comment_or_mark hword hdigit hblank hquote
  split at h
  · next hslash =>
    rw [Bool.and_eq_true, decide_eq_true_eq, decide_eq_true_eq] at hslash
    obtain ⟨rfl, hhead⟩ := hslash
    cases h
    rcases hother with ⟨-, more, hmore, rfl⟩ | ⟨m, hm, hhead', rfl⟩
    · refine length_le_run (List.forall_mem_cons.2 ⟨by decide, fun d hd => ?_⟩) hpre
      simpa using hmore d hd
    · have hshort : ∀ m ∈ marks, m.1.head? = some '/' → m.1.length ≤ 1 := by decide
      exact Nat.le_trans (hshort m hm hhead') (by simp [Piece.text, run])
  split at h
  · next hslash _ mark kind hmark =>
    cases h
    rcases hother with ⟨rfl, more, hmore, rfl⟩ | ⟨m, hm, -, rfl⟩
    · obtain ⟨rest, rfl⟩ := (List.cons_prefix_cons.1 hpre).2
      simp at hslash
    · exact length_le_of_firstMark? hmark hm hpre
  · cases h

theorem longest_of_first (h : first c text = .ok piece) : Longest piece.text (c :: text) := by
  obtain ⟨rest, hrest⟩ := first_text_append h
  exact ⟨(formed_of_first h).isMatch, ⟨rest, hrest.symm⟩, fun v hv hpre => length_le_of_first h hv hpre⟩

/-- Where no piece can be cut off a text no pattern matches, and it starts with a quote that does not begin a string or
with a character of no use. -/
theorem stuck_of_first {flaw : SyntaxFlaw} (h : first c text = .error flaw) :
    (∀ v, Matches v → ¬ v <+: c :: text) ∧
      (c = '"' ∧ stringContent? text = none ∧ flaw = .unterminatedString ∨
        c ≠ '"' ∧ flaw = .unrecognisedToken (String.singleton c)) := by
  unfold first at h
  split at h
  · cases h
  split at h
  · cases h
  split at h
  · cases h
  split at h
  · next hc =>
    split at h
    · cases h
    next hnone =>
    cases h
    refine ⟨fun v hv hpre => ?_, .inl ⟨hc, hnone, rfl⟩⟩
    subst hc
    obtain ⟨s, -, hs⟩ := stringContent?_of_matches hv hpre
    rw [hnone] at hs
    cases hs
  next hword hdigit hblank hquote =>
  split at h
  · cases h
  split at h
  · cases h
  next hslash hmark =>
  cases h
  have hno : ∀ m ∈ marks, ¬ m.1 <+: c :: text := by
    intro m hm hpre
    have hm' := List.find?_eq_none.1 hmark m hm
    rw [List.isPrefixOf_iff_prefix] at hm'
    exact hm' hpre
  refine ⟨fun v hv hpre => ?_, .inr ⟨hquote, rfl⟩⟩
  rcases (begins hv hpre).comment_or_mark hword hdigit hblank hquote with ⟨rfl, -⟩ | ⟨m, hm, -, rfl⟩
  · exact hno (['/'], .slash) (by decide) ⟨text, rfl⟩
  · exact hno m hm hpre

end Piece

end TypedScript
