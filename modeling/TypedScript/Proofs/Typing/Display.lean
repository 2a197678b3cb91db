/-
Types shown and read back. The text of a type is in the notation that annotations are written in, without any
parentheses around a function type, so that a question mark behind a function type is read as one behind its result.
`Note.settle` moves question marks to where they are read. A type without an optional function type is read back as it
was, and every annotation that a text holds is of that form.

- `Note.Settled`: no function type directly under an optional one.
- `Note.written`: the text of a type is written from the lexemes of its notation.
- `Note.isNote_settle`: the tokens of these lexemes stand for the type with its question marks settled.
- `Note.Producible`: the annotations that reading a text gives; `Note.producible` says how they look.
- `Note.reads_back`: showing a type and reading it again.
-/
import TypedScript.Typing.Ty
import TypedScript.Proofs.Token.Written
import TypedScript.Proofs.Tree.Grammar.Complete

namespace TypedScript

open Grammar Cursor

/-! ## Annotations -/

namespace Note

mutual

/-- the names in an annotation -/
def names : Note → List String
  | any | void => []
  | ident name => [name]
  | list element => element.names
  | optional child => child.names
  | tuple items => namesOf items
  | function params result => namesOf params ++ result.names

def namesOf : List Note → List String
  | [] => []
  | n :: ns => n.names ++ namesOf ns

end

/-- a name that stands for a type where it is written -/
def TypeName (name : String) : Prop :=
  name.toList ∈ Pattern.word ∧ name ∉ reservedWords.map Prod.fst ∧ name ≠ "Any" ∧ name ≠ "Void"

/-- every name in the annotation is one of a type -/
def Writable (n : Note) : Prop := ∀ name ∈ n.names, TypeName name

mutual

/-- nowhere in the annotation stands an optional type whose child is a function type -/
def Settled : Note → Prop
  | any | void | ident _ => True
  | list element => element.Settled
  | optional child => (∀ params result, child ≠ function params result) ∧ child.Settled
  | tuple items => AllSettled items
  | function params result => AllSettled params ∧ result.Settled

def AllSettled : List Note → Prop
  | [] => True
  | n :: ns => n.Settled ∧ AllSettled ns

end

/-- the annotation that a question mark behind an annotation makes of it -/
def mark : Note → Note
  | function params result => function params result.mark
  | n => optional n

mutual

/-- the annotation with every question mark where it is read -/
def settle : Note → Note
  | any => any
  | void => void
  | ident name => ident name
  | list element => list element.settle
  | optional child => child.settle.mark
  | tuple items => tuple (settleAll items)
  | function params result => function (settleAll params) result.settle

def settleAll : List Note → List Note
  | [] => []
  | n :: ns => n.settle :: settleAll ns

end

theorem mark_of_ne_function {n : Note} (h : ∀ params result, n ≠ function params result) : n.mark = optional n := by
  cases n with
  | function params result => exact absurd rfl (h params result)
  | _ => rfl

/-- what a question mark makes an optional type of is no function type -/
theorem eq_of_mark_eq_optional {n m : Note} (h : n.mark = optional m) :
    n = m ∧ ∀ params result, m ≠ function params result := by
  cases n with
  | function params result => cases h
  | _ => cases h; exact ⟨rfl, nofun⟩

mutual

theorem settle_eq_iff (n : Note) : n.settle = n ↔ n.Settled := by
  cases n with
  | any | void | ident => simp [settle, Settled]
  | list element => simp [settle, Settled, settle_eq_iff element]
  | optional child =>
    rw [settle, Settled, ← settle_eq_iff child]
    constructor
    · intro h
      obtain ⟨hchild, hfunction⟩ := eq_of_mark_eq_optional h
      exact ⟨hfunction, hchild⟩
    · rintro ⟨hfunction, hchild⟩
      rw [hchild, mark_of_ne_function hfunction]
  | tuple items => simp [settle, Settled, settleAll_eq_iff items]
  | function params result => simp [settle, Settled, settleAll_eq_iff params, settle_eq_iff result]
termination_by structural n

theorem settleAll_eq_iff (ns : List Note) : settleAll ns = ns ↔ AllSettled ns := by
  cases ns with
  | nil => simp [settleAll, AllSettled]
  | cons n ns => simp [settleAll, AllSettled, settle_eq_iff n, settleAll_eq_iff ns]
termination_by structural ns

end

/-! ## The text of a type -/

mutual

/-- the lexemes that an annotation is written with, without commas -/
def lexemes : Note → List Lexeme
  | any => [.identifier "Any"]
  | void => [.identifier "Void"]
  | ident name => [.identifier name]
  | list element => .mark "[" .openBracket :: (element.lexemes ++ [.mark "]" .closeBracket])
  | optional child => child.lexemes ++ [.mark "?" .question]
  | tuple items => .mark "(" .openParen :: (lexemesOf items ++ [.mark ")" .closeParen])
  | function params result =>
    .mark "(" .openParen :: (lexemesOf params ++ .mark ")" .closeParen :: .mark "=>" .arrow :: result.lexemes)

def lexemesOf : List Note → List Lexeme
  | [] => []
  | n :: ns => n.lexemes ++ lexemesOf ns

end

/-- what follows goes on with no word and no mark -/
def Apart (rest : List Char) : Prop := ∀ c ∈ rest.head?, isWordPart c = false ∧ c ≠ '=' ∧ c ≠ '>' ∧ c ≠ '/'

theorem Apart.nil : Apart [] := by simp [Apart]

theorem Apart.identifier {rest : List Char} (h : Apart rest) (name : String) :
    (Lexeme.identifier name).EndsBefore rest := fun c hc => (h c hc).1

theorem Apart.mark {rest : List Char} (h : Apart rest) (sign : String) (kind : TokenKind) :
    (Lexeme.mark sign kind).EndsBefore rest := fun c hc => (h c hc).2

theorem apart_closing {c : Char} (hc : c ∈ [' ', ')', ']', '?']) (rest : List Char) : Apart (c :: rest) := by
  have hall : isWordPart c = false ∧ c ≠ '=' ∧ c ≠ '>' ∧ c ≠ '/' := by
    simp only [List.mem_cons, List.not_mem_nil, or_false] at hc
    rcases hc with rfl | rfl | rfl | rfl <;> decide
  rintro d hd
  cases hd
  exact hall

/-- the text begins, and not with what an opening parenthesis or bracket would go on with -/
def Begins (text : List Char) : Prop := ∃ c more, text = c :: more ∧ c ≠ '=' ∧ c ≠ '>' ∧ c ≠ '/'

theorem Begins.append {text : List Char} (h : Begins text) (rest : List Char) : Begins (text ++ rest) := by
  obtain ⟨c, more, rfl, hc⟩ := h
  exact ⟨c, more ++ rest, rfl, hc⟩

theorem Begins.mark {text : List Char} (h : Begins text) (sign : String) (kind : TokenKind) :
    (Lexeme.mark sign kind).EndsBefore text := by
  obtain ⟨c, more, rfl, hc⟩ := h
  intro d hd
  cases hd
  exact hc

theorem begins_word {text : List Char} (h : text ∈ Pattern.word) : Begins text := by
  obtain ⟨c, more, hc, -, rfl⟩ := Pattern.mem_word.1 h
  refine ⟨c, more, rfl, ?_, ?_, ?_⟩ <;> rintro rfl <;> exact absurd hc (by decide)

theorem begins_render : (n : Note) → n.Writable → Begins (Ty.ofNote n).render.toList
  | any, _ => ⟨'A', _, rfl, by decide⟩
  | void, _ => ⟨'V', _, rfl, by decide⟩
  | ident name, h => begins_word (h name (by simp [names])).1
  | list element, _ => ⟨'[', _, by simp [Ty.ofNote, Ty.render]; rfl, by decide⟩
  | optional child, h => by
    simpa [Ty.ofNote, Ty.render] using (begins_render child h).append ['?']
  | tuple items, _ => ⟨'(', _, by simp [Ty.ofNote, Ty.render]; rfl, by decide⟩
  | function params result, _ => ⟨'(', _, by simp [Ty.ofNote, Ty.render]; rfl, by decide⟩

variable {xs : List Lexeme} {rest : List Char}

theorem written_mark (sign : String) (text : List Char) (kind : TokenKind) (htext : sign.toList = text)
    (hmark : (text, kind) ∈ marks) (hends : (Lexeme.mark sign kind).EndsBefore rest) (h : Written xs rest) :
    Written (.mark sign kind :: xs) (text ++ rest) := by
  subst htext
  exact .lexeme hmark hends h

theorem written_name {name : String} (hword : name.toList ∈ Pattern.word) (hfree : name ∉ reservedWords.map Prod.fst)
    (hrest : Apart rest) (h : Written xs rest) : Written (.identifier name :: xs) (name.toList ++ rest) :=
  .lexeme (x := .identifier name) ⟨hword, hfree⟩ (hrest.identifier name) h

/-- behind an opening parenthesis stands an item, or the parenthesis that closes it -/
theorem begins_items (ns : List Note) (h : ∀ name ∈ namesOf ns, TypeName name) :
    Begins ((Ty.renderItems (Ty.ofNotes ns)).toList ++ ')' :: rest) := by
  match ns with
  | [] => exact ⟨')', rest, rfl, by decide⟩
  | [n] =>
    have hn : n.Writable := fun name hname => h name (by simp [namesOf, hname])
    simpa [Ty.ofNotes, Ty.renderItems] using (begins_render n hn).append (')' :: rest)
  | n :: m :: ns =>
    have hn : n.Writable := fun name hname => h name (by simp [namesOf, hname])
    simpa [Ty.ofNotes, Ty.renderItems] using (begins_render n hn).append _

mutual

/-- the text of a type is written from the lexemes of its annotation -/
theorem written (n : Note) {xs : List Lexeme} {rest : List Char} (hn : n.Writable) (hrest : Apart rest)
    (h : Written xs rest) : Written (n.lexemes ++ xs) ((Ty.ofNote n).render.toList ++ rest) := by
  cases n with
  | any =>
    exact written_name (Pattern.mem_word_of_all (by decide)) (by decide) hrest h
  | void =>
    exact written_name (Pattern.mem_word_of_all (by decide)) (by decide) hrest h
  | ident name =>
    have hname := hn name (by simp [names])
    exact written_name hname.1 hname.2.1 hrest h
  | list element =>
    have hclose := written_mark "]" [']'] .closeBracket rfl (by decide) (hrest.mark _ _) h
    have helement := written element hn (apart_closing (c := ']') (by decide) rest) hclose
    have hbegins := (begins_render element hn).append (']' :: rest)
    have hopen := written_mark "[" ['['] .openBracket rfl (by decide) (hbegins.mark _ _) helement
    simpa [lexemes, Ty.ofNote, Ty.render] using hopen
  | optional child =>
    have hmark := written_mark "?" ['?'] .question rfl (by decide) (hrest.mark _ _) h
    simpa [lexemes, Ty.ofNote, Ty.render] using written child hn (apart_closing (c := '?') (by decide) rest) hmark
  | tuple items =>
    have hclose := written_mark ")" [')'] .closeParen rfl (by decide) (hrest.mark _ _) h
    have hitems := writtenItems items hn hclose
    have hopen := written_mark "(" ['('] .openParen rfl (by decide) ((begins_items items hn).mark _ _) hitems
    simpa [lexemes, Ty.ofNote, Ty.render] using hopen
  | function params result =>
    have hparams : ∀ name ∈ namesOf params, TypeName name := fun name h => hn name (by simp [names, h])
    have hresult : result.Writable := fun name h => hn name (by simp [names, h])
    -- from the end of the text: the result, the arrow between blanks, the closing parenthesis, the parameters
    have harrow := written_mark "=>" ['=', '>'] .arrow rfl (by decide) ((apart_closing (by decide) _).mark _ _)
      (.blank (c := ' ') (by decide) (written result hresult hrest h))
    have hclose := written_mark ")" [')'] .closeParen rfl (by decide)
      ((apart_closing (c := ' ') (by decide) _).mark _ _) (.blank (c := ' ') (by decide) harrow)
    have hitems := writtenItems params hparams hclose
    have hopen := written_mark "(" ['('] .openParen rfl (by decide) ((begins_items params hparams).mark _ _) hitems
    simpa [lexemes, Ty.ofNote, Ty.render] using hopen
termination_by structural n

theorem writtenItems (ns : List Note) {xs : List Lexeme} {rest : List Char} (hns : ∀ name ∈ namesOf ns, TypeName name)
    (h : Written xs (')' :: rest)) : Written (lexemesOf ns ++ xs)
      ((Ty.renderItems (Ty.ofNotes ns)).toList ++ ')' :: rest) := by
  match ns with
  | [] => exact h
  | [n] =>
    have hn : n.Writable := fun name hname => hns name (by simp [namesOf, hname])
    simpa [lexemesOf, Ty.ofNotes, Ty.renderItems] using written n hn (apart_closing (by decide) rest) h
  | n :: m :: ns =>
    have hn : n.Writable := fun name hname => hns name (by simp [namesOf, hname])
    have hmore := writtenItems (m :: ns) (fun name hname => hns name (List.mem_append_right _ hname)) h
    have hfirst := written n hn (apart_closing (c := ' ') (by decide) _) (.blank (c := ' ') (by decide) hmore)
    simpa [lexemesOf, Ty.ofNotes, Ty.renderItems] using hfirst
termination_by structural ns

end

/-! ## The tokens of a type -/

theorem ne_function_of_isMarked {ts : List Token} {n : Note} (h : IsMarked ts n) (params : List Note) (result : Note) :
    n ≠ function params result := by
  rintro rfl
  cases h

/-- a question mark behind the tokens of a type -/
theorem isNote_mark {ts : List Token} {n : Note} {t : Token} (ht : t.kind = .question) :
    IsNote ts n → IsNote (ts ++ [t]) n.mark
  | .marked h => by
    rw [mark_of_ne_function (ne_function_of_isMarked h)]
    exact .marked (.optional h ht)
  | .function hopening hparams hclosing harrow hresult => by
    simpa [mark] using IsNote.function hopening hparams hclosing harrow (isNote_mark ht hresult)

mutual

/-- the tokens of an annotation's lexemes stand for it with its question marks settled -/
theorem isNote_settle (n : Note) {ts : List Token} (hn : n.Writable) (h : List.Forall₂ Lexeme.Names n.lexemes ts) :
    IsNote ts n.settle := by
  cases n with
  | any =>
    obtain ⟨t, rfl, hkind, hvalue⟩ := exists_singleton_of_names h
    exact .marked (.any hkind hvalue)
  | void =>
    obtain ⟨t, rfl, hkind, hvalue⟩ := exists_singleton_of_names h
    exact .marked (.void hkind hvalue)
  | ident name =>
    obtain ⟨t, rfl, hkind, hvalue⟩ := exists_singleton_of_names h
    obtain ⟨-, -, hany, hvoid⟩ := hn name (by simp [names])
    cases hvalue
    exact .marked (.ident hkind hany hvoid)
  | list element =>
    obtain ⟨opening, us, rfl, hopening, hus⟩ := exists_cons_of_names h
    obtain ⟨vs, ws, rfl, hvs, hws⟩ := exists_append_of_names hus
    obtain ⟨closing, rfl, hclosing⟩ := exists_singleton_of_names hws
    exact .marked (.list hopening.1 (isNote_settle element hn hvs) hclosing.1)
  | optional child =>
    obtain ⟨us, vs, rfl, hus, hvs⟩ := exists_append_of_names h
    obtain ⟨question, rfl, hquestion⟩ := exists_singleton_of_names hvs
    exact isNote_mark hquestion.1 (isNote_settle child hn hus)
  | tuple items =>
    obtain ⟨opening, us, rfl, hopening, hus⟩ := exists_cons_of_names h
    obtain ⟨vs, ws, rfl, hvs, hws⟩ := exists_append_of_names hus
    obtain ⟨closing, rfl, hclosing⟩ := exists_singleton_of_names hws
    exact .marked (.tuple hopening.1 (isNotes_settle items hn hvs) hclosing.1)
  | function params result =>
    have hparams : ∀ name ∈ namesOf params, TypeName name := fun name h => hn name (by simp [names, h])
    have hresult : result.Writable := fun name h => hn name (by simp [names, h])
    obtain ⟨opening, us, rfl, hopening, hus⟩ := exists_cons_of_names h
    obtain ⟨vs, ws, rfl, hvs, hws⟩ := exists_append_of_names hus
    obtain ⟨closing, xs, rfl, hclosing, hxs⟩ := exists_cons_of_names hws
    obtain ⟨arrow, ys, rfl, harrow, hys⟩ := exists_cons_of_names hxs
    exact .function hopening.1 (isNotes_settle params hparams hvs) hclosing.1 harrow.1
      (isNote_settle result hresult hys)
termination_by structural n

theorem isNotes_settle (ns : List Note) {ts : List Token} (hns : ∀ name ∈ namesOf ns, TypeName name)
    (h : List.Forall₂ Lexeme.Names (lexemesOf ns) ts) : IsNotes ts (settleAll ns) := by
  cases ns with
  | nil =>
    cases h
    exact .empty
  | cons n ns =>
    obtain ⟨us, vs, rfl, hus, hvs⟩ := exists_append_of_names h
    have hn := isNote_settle n (fun name h => hns name (by simp [namesOf, h])) hus
    exact .more hn (isNotes_settle ns (fun name h => hns name (by simp [namesOf, h])) hvs)
termination_by structural ns

end

/-- the tokens of a type's text are those of its lexemes -/
theorem tokenize_render (n : Note) (hn : n.Writable) :
    ∃ body last, tokenize (Ty.ofNote n).render = .ok (body ++ [last]) ∧
    last.kind = .endOfText ∧ (∀ t ∈ body, t.Proper) ∧ List.Forall₂ Lexeme.Names n.lexemes body := by
  have hwritten := written n hn .nil .nil
  rw [List.append_nil, List.append_nil] at hwritten
  obtain ⟨body, hscan, hnames⟩ := Token.scan_written hwritten .first
  obtain ⟨_, _, hsplit, -, hproper⟩ := Token.scan_proper _ _ hscan
  obtain ⟨rfl, -⟩ := List.append_inj' hsplit rfl
  exact ⟨body, _, hscan, rfl, hproper, hnames⟩

/-- a type is shown and read again as the annotation with its question marks settled, up to the end of the text -/
theorem reads_settled (n : Note) (hn : n.Writable) :
    ∃ tokens d, tokenize (Ty.ofNote n).render = .ok tokens ∧
      Parse.note .default (.ofTokens tokens) = .ok n.settle d ∧ d.At [] := by
  obtain ⟨body, last, htokens, hlast, hproper, hnames⟩ := tokenize_render n hn
  have hat : (Cursor.ofTokens (body ++ [last])).At (body ++ []) := by
    rw [List.append_nil]
    exact at_ofTokens hlast hproper
  obtain ⟨m, d, hrun, rfl, hd⟩ := Parse.runs_note (isNote_settle n hn hnames) hat ⟨by simp, by simp⟩
  exact ⟨_, d, htokens, hrun, hd⟩

/-! ## Annotations that are read -/

/-- reading a type gives the annotation, in some text, at some place of it and with any binding power -/
def Producible (n : Note) : Prop :=
  ∃ source tokens c power d, tokenize source = .ok tokens ∧ c.current :: c.ahead <:+ tokens ∧
    Parse.note power c = .ok n d

mutual

theorem settled_of_isNote {ts : List Token} {n : Note} : IsNote ts n → n.Settled
  | .marked h => settled_of_isMarked h
  | .function _ hparams _ _ hresult => ⟨settled_of_isNotes hparams, settled_of_isNote hresult⟩

theorem settled_of_isMarked {ts : List Token} {n : Note} : IsMarked ts n → n.Settled
  | .any _ _ | .void _ _ | .ident _ _ _ => trivial
  | .list _ h _ => by simpa [Settled] using settled_of_isNote h
  | .tuple _ h _ => settled_of_isNotes h
  | .optional h _ => ⟨ne_function_of_isMarked h, settled_of_isMarked h⟩

theorem settled_of_isNotes {ts : List Token} {ns : List Note} : IsNotes ts ns → AllSettled ns
  | .empty => trivial
  | .more h rest => ⟨settled_of_isNote h, settled_of_isNotes rest⟩
  | .comma h _ rest => ⟨settled_of_isNote h, settled_of_isNotes rest⟩

end

/-- the name is an identifier among the tokens, and stands for no built-in type -/
def NamedIn (ts : List Token) (name : String) : Prop :=
  (∃ t ∈ ts, t.kind = .identifier ∧ t.value = name) ∧ name ≠ "Any" ∧ name ≠ "Void"

theorem NamedIn.mono {ts us : List Token} {name : String} (h : NamedIn ts name) (hsub : ts ⊆ us) : NamedIn us name := by
  obtain ⟨⟨t, ht, hname⟩, hfree⟩ := h
  exact ⟨⟨t, hsub ht, hname⟩, hfree⟩

mutual

theorem namedIn_of_isNote {ts : List Token} {n : Note} : IsNote ts n → ∀ name ∈ n.names, NamedIn ts name
  | .marked h => namedIn_of_isMarked h
  | .function _ hparams _ _ hresult => fun name hname => by
    rcases List.mem_append.1 hname with hname | hname
    · exact (namedIn_of_isNotes hparams name hname).mono (by intro t ht; simp [ht])
    · exact (namedIn_of_isNote hresult name hname).mono (by intro t ht; simp [ht])

theorem namedIn_of_isMarked {ts : List Token} {n : Note} : IsMarked ts n → ∀ name ∈ n.names, NamedIn ts name
  | .any _ _ | .void _ _ => by simp [names]
  | .ident hkind hany hvoid => by
    intro name hname
    obtain rfl := List.mem_singleton.1 hname
    exact ⟨⟨_, by simp, hkind, rfl⟩, hany, hvoid⟩
  | .list _ h _ => fun name hname => (namedIn_of_isNote h name hname).mono (by intro t ht; simp [ht])
  | .tuple _ h _ => fun name hname => (namedIn_of_isNotes h name hname).mono (by intro t ht; simp [ht])
  | .optional h _ => fun name hname => (namedIn_of_isMarked h name hname).mono (by intro t ht; simp [ht])

theorem namedIn_of_isNotes {ts : List Token} {ns : List Note} : IsNotes ts ns → ∀ name ∈ namesOf ns, NamedIn ts name
  | .empty => by simp [namesOf]
  | .more h rest => fun name hname => by
    rcases List.mem_append.1 hname with hname | hname
    · exact (namedIn_of_isNote h name hname).mono (by intro t ht; simp [ht])
    · exact (namedIn_of_isNotes rest name hname).mono (by intro t ht; simp [ht])
  | .comma h _ rest => fun name hname => by
    rcases List.mem_append.1 hname with hname | hname
    · exact (namedIn_of_isNote h name hname).mono (by intro t ht; simp [ht])
    · exact (namedIn_of_isNotes rest name hname).mono (by intro t ht; simp [ht])

end

theorem noteMarks_of_weaker {power : BindingPower} (hpower : power.weaker .call = true) (fuel : Nat) (n : Note) :
    Parse.noteMarks fuel power n = Parse.noteMarks fuel .default n := by
  have hdefault : BindingPower.default.weaker .call = true := rfl
  induction fuel generalizing n with
  | zero => rfl
  | succ fuel ih => simp only [Parse.noteMarks, hpower, hdefault, ih]

/-- where question marks bind no more tightly than the place, none is read -/
theorem noteMarks_of_not_weaker {power : BindingPower} (hpower : ¬ power.weaker .call = true) (fuel : Nat) (n : Note) :
    Parse.noteMarks fuel power n = pure n := by
  cases fuel with
  | zero => rfl
  | succ fuel =>
    simp only [Parse.noteMarks, hpower, Bool.false_eq_true, and_false, if_false]
    rfl

/-- the tokens that are read in a place of any power stand for what is read -/
theorem takes_note {c : Cursor} {ts : List Token} (power : BindingPower) (h : c.At ts) :
    Parse.Ensures (Parse.note power) c (Parse.Takes ts fun n used _ => IsNote used n) := by
  refine Parse.ensures_get.bind fun a d hd => ?_
  obtain ⟨rfl, rfl⟩ := hd
  have hdepth : c.depth = 8 * ts.length + 7 + 1 := h.depth
  rw [hdepth]
  by_cases hpower : power.weaker .call = true
  · intro n d hn
    simp only [Parse.noteWithin, noteMarks_of_weaker hpower] at hn
    obtain ⟨used, left, rfl, hd, hnote, -⟩ := (Parse.derivesNotes (8 * ts.length + 7 + 1)).within h (by omega) n d hn
    exact ⟨used, left, rfl, hd, hnote⟩
  · simp only [Parse.noteWithin, noteMarks_of_not_weaker hpower, bind_pure]
    intro n d hn
    obtain ⟨used, left, rfl, hd, hmarked | ⟨hnote, -⟩⟩ := (Parse.derivesNotes _).head h (by omega) n d hn
    · exact ⟨used, left, rfl, hd, .marked hmarked⟩
    · exact ⟨used, left, rfl, hd, hnote⟩

theorem Producible.writable_and_settled {n : Note} (h : Producible n) : n.Writable ∧ n.Settled := by
  obtain ⟨source, tokens, c, power, d, htokens, ⟨passed, hpassed⟩, hread⟩ := h
  obtain ⟨body, last, rfl, hlast, hproper⟩ := tokenize_proper htokens
  have hat : ∃ ts, ts ⊆ body ∧ c.At ts := by
    obtain ⟨ts, last', hsplit⟩ := (List.eq_nil_or_concat (c.current :: c.ahead)).resolve_left (List.cons_ne_nil _ _)
    rw [List.concat_eq_append] at hsplit
    rw [hsplit, ← List.append_assoc] at hpassed
    obtain ⟨rfl, hlast'⟩ := List.append_inj' hpassed rfl
    cases hlast'
    exact ⟨ts, List.subset_append_right _ _, fun t ht => hproper t (List.mem_append_right _ ht), last, hlast, hsplit⟩
  obtain ⟨ts, hsub, hat⟩ := hat
  obtain ⟨used, left, rfl, -, hnote⟩ := takes_note power hat n d hread
  refine ⟨fun name hname => ?_, settled_of_isNote hnote⟩
  obtain ⟨⟨t, ht, hkind, rfl⟩, hany, hvoid⟩ := namedIn_of_isNote hnote name hname
  have hword := identifier_of_tokenize htokens (List.mem_append_left _ (hsub (List.mem_append_left _ ht))) hkind
  exact ⟨hword.1, hword.2, hany, hvoid⟩

/-- the annotations that reading gives are those with type names only and no optional function type -/
theorem producible_iff (n : Note) : n.Producible ↔ n.Writable ∧ n.Settled := by
  refine ⟨Producible.writable_and_settled, fun ⟨hwritable, hsettled⟩ => ?_⟩
  obtain ⟨tokens, d, htokens, hread, -⟩ := reads_settled n hwritable
  rw [(settle_eq_iff n).2 hsettled] at hread
  obtain ⟨body, last, rfl, hlast, -⟩ := tokenize_proper htokens
  exact ⟨_, _, _, .default, d, htokens, by rw [ofTokens_tokens hlast], hread⟩

/-- Every type whose names are type names is shown as a text that is read to its end, as the type again if and only if
it has no optional function type. Every annotation that reading gives is read back as it was, and two of them that are
shown alike are the same. -/
theorem reads_back :
    (∀ n : Note, n.Writable → ∃ tokens m d, tokenize (Ty.ofNote n).render = .ok tokens ∧
      Parse.note .default (.ofTokens tokens) = .ok m d ∧ d.current.kind = .endOfText ∧ d.ahead = [] ∧
      (m = n ↔ n.Settled)) ∧
    (∀ n : Note, n.Producible → ∃ tokens d, tokenize (Ty.ofNote n).render = .ok tokens ∧
      Parse.note .default (.ofTokens tokens) = .ok n d ∧ d.current.kind = .endOfText ∧ d.ahead = []) ∧
    ∀ n m : Note, n.Producible → m.Producible → (Ty.ofNote n).render = (Ty.ofNote m).render → n = m := by
  have ends {d : Cursor} (hd : d.At []) : d.current.kind = .endOfText ∧ d.ahead = [] := by
    obtain ⟨last, hlast, htokens⟩ := hd.tokens
    exact ⟨hd.kind, (List.cons.inj htokens).2⟩
  have back {n : Note} (hn : n.Producible) : ∃ tokens d, tokenize (Ty.ofNote n).render = .ok tokens ∧
      Parse.note .default (.ofTokens tokens) = .ok n d ∧ d.At [] := by
    obtain ⟨hwritable, hsettled⟩ := hn.writable_and_settled
    simpa [(settle_eq_iff n).2 hsettled] using reads_settled n hwritable
  refine ⟨fun n hn => ?_, fun n hn => ?_, fun n m hn hm hshown => ?_⟩
  · obtain ⟨tokens, d, htokens, hread, hd⟩ := reads_settled n hn
    exact ⟨tokens, n.settle, d, htokens, hread, (ends hd).1, (ends hd).2, settle_eq_iff n⟩
  · obtain ⟨tokens, d, htokens, hread, hd⟩ := back hn
    exact ⟨tokens, d, htokens, hread, ends hd⟩
  · obtain ⟨tokens, d, htokens, hread, -⟩ := back hn
    obtain ⟨tokens', d', htokens', hread', -⟩ := back hm
    rw [hshown, htokens'] at htokens
    cases htokens
    rw [hread'] at hread
    cases hread
    rfl

/-- a function type under a question mark -/
def optionalFunction : Note := .optional (.function [.ident "Int"] (.list .any))

theorem optionalFunction_writable : optionalFunction.Writable := by
  intro name hname
  obtain rfl : name = "Int" := by simpa [optionalFunction, names, namesOf] using hname
  exact ⟨Pattern.mem_word_of_all (by decide), by decide, by decide, by decide⟩

/-- it is read back as another annotation, and this one as it was -/
theorem reads_back_optionalFunction : ∃ tokens m d, tokenize (Ty.ofNote optionalFunction).render = .ok tokens ∧
    Parse.note .default (.ofTokens tokens) = .ok m d ∧ m ≠ optionalFunction ∧ m.Producible ∧
    ∃ tokens' d', tokenize (Ty.ofNote m).render = .ok tokens' ∧
      Parse.note .default (.ofTokens tokens') = .ok m d' := by
  obtain ⟨tokens, m, d, htokens, hread, -, -, hiff⟩ := reads_back.1 optionalFunction optionalFunction_writable
  obtain ⟨body, last, rfl, hlast, -⟩ := tokenize_proper htokens
  have hm : m.Producible := ⟨_, _, _, .default, d, htokens, by rw [ofTokens_tokens hlast], hread⟩
  obtain ⟨tokens', d', htokens', hread', -⟩ := reads_back.2.1 m hm
  refine ⟨_, m, d, htokens, hread, fun heq => ?_, hm, tokens', d', htokens', hread'⟩
  exact (hiff.1 heq).1 _ _ rfl

end Note

end TypedScript
