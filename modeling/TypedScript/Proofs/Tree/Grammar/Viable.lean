/-
Tokens that a phrase can start with. The phrases of a part of the grammar are a language over tokens, and the parts of a
rule, one behind the other, are a product of languages. Tokens can be completed to a phrase where lexemes can be written
behind them so that, wherever the tokens of these stand, all together are a phrase. Every part of the grammar can be
completed from nothing, so that what can be completed to the first part of a rule can be completed to the whole of it.

- `Grammar.Completable`: tokens that can be completed.
- `Grammar.Completable.prod`: to complete the first part of a rule is to complete the rule.
- `Grammar.prod_declaration_le` and the like: the rules of the grammar as products.
-/
import Mathlib.Computability.MyhillNerode
import Mathlib.Order.CompletePartialOrder
import TypedScript.Proofs.Token.Written
import TypedScript.Proofs.Tree.Grammar.Sound

namespace TypedScript.Grammar

/-! ## Languages of tokens -/

/-- the tokens that something is derived from -/
def phrase {α : Type} (Derives : List Token → α → Prop) : Language Token := {ts | ∃ a, Derives ts a}

/-- one token of a kind -/
def ofKind (kind : TokenKind) : Language Token := {ts | ∃ t : Token, t.kind = kind ∧ ts = [t]}

/-- lexemes can be written behind the tokens so that all together are in the language -/
def Completable (L : Language Token) (used : List Token) : Prop :=
  ∃ more : List Lexeme, (∀ x ∈ more, x.Formed) ∧ ∀ ts, List.Forall₂ Lexeme.Names more ts → used ++ ts ∈ L

variable {α : Type} {L M : Language Token} {used ts us : List Token} {t : Token} {kind : TokenKind}

theorem mem_phrase {Derives : List Token → α → Prop} {a : α} (h : Derives ts a) : ts ∈ phrase Derives := ⟨a, h⟩

theorem mem_ofKind (h : t.kind = kind) : [t] ∈ ofKind kind := ⟨t, h, rfl⟩

theorem append_mem (hts : ts ∈ L) (hus : us ∈ M) : ts ++ us ∈ L * M := Language.mem_mul.2 ⟨ts, hts, us, hus, rfl⟩

/-- a phrase is in the language of what follows one of its starts -/
theorem le_leftQuotient (hts : ts ∈ L) : M ≤ (L * M).leftQuotient ts := fun _ hus => append_mem hts hus

theorem le_leftQuotient_of_prod_le {N : Language Token} (h : [L, M].prod ≤ N) (hts : ts ∈ L) :
    M ≤ N.leftQuotient ts := by
  rw [List.prod_cons, List.prod_singleton] at h
  exact fun _ hus => h (append_mem hts hus)

theorem completable_of_mem (h : used ∈ L) : Completable L used := by
  refine ⟨[], by simp, fun ts hts => ?_⟩
  rw [List.forall₂_nil_left_iff.1 hts, List.append_nil]
  exact h

/-- a phrase can be completed from nothing to what follows it -/
theorem completable_leftQuotient (h : ts ∈ L) : Completable (L.leftQuotient ts) [] := by
  refine completable_of_mem (show ts ++ [] ∈ L from ?_)
  rwa [List.append_nil]

theorem Completable.mono (h : Completable L used) (hle : L ≤ M) : Completable M used := by
  obtain ⟨more, hformed, hmore⟩ := h
  exact ⟨more, hformed, fun ts hts => hle (hmore ts hts)⟩

/-- to complete what follows the start of a phrase is to complete the phrase -/
theorem Completable.append (h : Completable (L.leftQuotient ts) used) : Completable L (ts ++ used) := by
  obtain ⟨more, hformed, hmore⟩ := h
  refine ⟨more, hformed, fun us hus => ?_⟩
  rw [List.append_assoc]
  exact hmore us hus

theorem Completable.mul (h : Completable L used) (h' : Completable M []) : Completable (L * M) used := by
  obtain ⟨more, hformed, hmore⟩ := h
  obtain ⟨more', hformed', hmore'⟩ := h'
  refine ⟨more ++ more', fun x hx => (List.mem_append.1 hx).elim (hformed x) (hformed' x), fun ts hts => ?_⟩
  obtain ⟨us, vs, rfl, hus, hvs⟩ := exists_append_of_names hts
  rw [← List.append_assoc]
  exact append_mem (hmore us hus) (hmore' vs hvs)

theorem completable_prod {parts : List (Language Token)} (h : ∀ L ∈ parts, Completable L []) :
    Completable parts.prod [] := by
  induction parts with
  | nil => exact completable_of_mem Language.nil_mem_one
  | cons L parts ih =>
    rw [List.forall_mem_cons] at h
    rw [List.prod_cons]
    exact h.1.mul (ih h.2)

/-- to complete the first part of a rule is to complete the rule -/
theorem Completable.prod {parts : List (Language Token)} (h : Completable L used)
    (hparts : ∀ M ∈ parts, Completable M []) : Completable (L :: parts).prod used := by
  rw [List.prod_cons]
  exact h.mul (completable_prod hparts)

/-- every kind of token but the end is that of some lexeme -/
theorem exists_lexeme (h : kind ≠ .endOfText) : ∃ x : Lexeme, x.Formed ∧ x.kind = kind := by
  have kinds : ∀ k ∈ TokenKind.all, k ≠ .endOfText →
      k = .number ∨ k = .string ∨ k = .identifier ∨ (∃ w ∈ reservedWords, w.2 = k) ∨ ∃ m ∈ marks, m.2 = k := by decide
  rcases kinds kind (TokenKind.mem_all kind) h with rfl | rfl | rfl | ⟨w, hw, rfl⟩ | ⟨m, hm, rfl⟩
  · exact ⟨.number "0", Pattern.mem_digits.2 ⟨'0', [], by decide, by simp, by decide⟩, rfl⟩
  · exact ⟨.string "", trivial, rfl⟩
  · exact ⟨.identifier "x", ⟨Pattern.mem_word_of_all (by decide), by decide⟩, rfl⟩
  · exact ⟨.reserved w.1 w.2, hw, rfl⟩
  · exact ⟨.mark (String.ofList m.1) m.2, by simpa [Lexeme.Formed] using hm, rfl⟩

@[simp]
theorem completable_ofKind (h : kind ≠ .endOfText) : Completable (ofKind kind) [] := by
  obtain ⟨x, hx, hkind⟩ := exists_lexeme h
  refine ⟨[x], by simpa using hx, fun ts hts => ?_⟩
  obtain ⟨t, rfl, ht⟩ := exists_singleton_of_names hts
  exact mem_ofKind (ht.1.trans hkind)

/-! ## Types -/

theorem note_named_le : ofKind .identifier ≤ phrase IsNote := by
  rintro _ ⟨t, ht, rfl⟩
  exact mem_phrase (.marked (Parse.isMarked_named ht))

theorem prod_note_list_le : [ofKind .openBracket, phrase IsNote, ofKind .closeBracket].prod ≤ phrase IsNote := by
  simp only [List.prod_cons, List.prod_nil, mul_one]
  rintro _ ⟨_, ⟨opening, hopening, rfl⟩, _, ⟨ts, ⟨element, helement⟩, _, ⟨closing, hclosing, rfl⟩, rfl⟩,
    rfl⟩
  exact mem_phrase (.marked (.list hopening helement hclosing))

/-- what may stand behind the parameters of a function type, which are a tuple if nothing does -/
def result : Language Token := 1 + ofKind .arrow * phrase IsNote

theorem prod_note_paren_le :
    [ofKind .openParen, phrase IsNotes, ofKind .closeParen, result].prod ≤ phrase IsNote := by
  simp only [List.prod_cons, List.prod_nil, mul_one]
  rintro _ ⟨_, ⟨opening, hopening, rfl⟩, _, ⟨ts, ⟨items, hitems⟩, _, ⟨_, ⟨closing, hclosing, rfl⟩, rest, hrest, rfl⟩,
    rfl⟩, rfl⟩
  rcases (Language.mem_add _ _ _).1 hrest with rfl | ⟨_, ⟨arrow, harrow, rfl⟩, us, ⟨given, hgiven⟩, rfl⟩
  · exact mem_phrase (.marked (.tuple hopening hitems hclosing))
  · have hfunction : IsNote (opening :: (ts ++ closing :: arrow :: us)) _ :=
      .function hopening hitems hclosing harrow hgiven
    exact mem_phrase hfunction

theorem prod_arrow_le : [ofKind .arrow, phrase IsNote].prod ≤ result := by
  simp only [List.prod_cons, List.prod_nil, mul_one]
  exact fun _ h => Or.inr h

/-- what may stand behind an item of a tuple -/
def moreNotes : Language Token := phrase IsNotes + ofKind .comma * phrase IsNotes

theorem notes_le_moreNotes : phrase IsNotes ≤ moreNotes := fun _ h => Or.inl h

theorem prod_comma_le : [ofKind .comma, phrase IsNotes].prod ≤ moreNotes := by
  simp only [List.prod_cons, List.prod_nil, mul_one]
  exact fun _ h => Or.inr h

theorem prod_notes_le : [phrase IsNote, moreNotes].prod ≤ phrase IsNotes := by
  simp only [List.prod_cons, List.prod_nil, mul_one]
  rintro _ ⟨ts, ⟨item, hitem⟩, rest, hrest, rfl⟩
  rcases (Language.mem_add _ _ _).1 hrest with ⟨items, hitems⟩ |
    ⟨_, ⟨comma, hcomma, rfl⟩, us, ⟨items, hitems⟩, rfl⟩
  · exact mem_phrase (.more hitem hitems)
  · exact mem_phrase (.comma hitem hcomma hitems)

@[simp]
theorem completable_note : Completable (phrase IsNote) [] := (completable_ofKind (by decide)).mono note_named_le

@[simp]
theorem completable_notes : Completable (phrase IsNotes) [] := completable_of_mem (mem_phrase .empty)

@[simp]
theorem completable_result : Completable result [] := completable_of_mem (Or.inl rfl)

@[simp]
theorem completable_moreNotes : Completable moreNotes [] := completable_notes.mono notes_le_moreNotes

theorem prod_annotation_le : [ofKind .colon, phrase IsNote].prod ≤ phrase IsAnnotation := by
  simp only [List.prod_cons, List.prod_nil, mul_one]
  rintro _ ⟨_, ⟨colon, hcolon, rfl⟩, ts, ⟨n, hn⟩, rfl⟩
  exact mem_phrase (.some hcolon hn)

@[simp]
theorem completable_annotation : Completable (phrase IsAnnotation) [] := completable_of_mem (mem_phrase .none)

/-! ## Items between commas -/

theorem prod_parameter_le : [ofKind .identifier, ofKind .colon, phrase IsNote].prod ≤ phrase IsParameter := by
  simp only [List.prod_cons, List.prod_nil, mul_one]
  rintro _ ⟨_, ⟨name, hname, rfl⟩, _, ⟨_, ⟨colon, hcolon, rfl⟩, ts, ⟨n, hn⟩, rfl⟩, rfl⟩
  exact mem_phrase (.mk hname hcolon hn)

theorem name_le : ofKind .identifier ≤ phrase IsName := by
  rintro _ ⟨name, hname, rfl⟩
  exact mem_phrase (.mk hname)

@[simp]
theorem completable_list (IsItem : List Token → α → Prop) : Completable (phrase (IsList IsItem)) [] :=
  completable_of_mem (mem_phrase .empty)

theorem item_le_list {IsItem : List Token → α → Prop} : phrase IsItem ≤ phrase (IsList IsItem) := by
  rintro ts ⟨item, hitem⟩
  exact mem_phrase (.last hitem)

theorem prod_filter_le : [ofKind .openParen, phrase (IsList IsName), ofKind .closeParen].prod ≤ phrase IsFilter := by
  simp only [List.prod_cons, List.prod_nil, mul_one]
  rintro _ ⟨_, ⟨opening, hopening, rfl⟩, _, ⟨ts, ⟨names, hnames⟩, _, ⟨closing, hclosing, rfl⟩, rfl⟩,
    rfl⟩
  exact mem_phrase (.some hopening hnames hclosing)

@[simp]
theorem completable_filter : Completable (phrase IsFilter) [] := completable_of_mem (mem_phrase .none)

/-! ## Expressions -/

theorem binds_le {m n : Nat} (h : m ≤ n) : phrase (Binds n) ≤ phrase (Binds m) := by
  rintro ts ⟨e, he⟩
  exact mem_phrase (he.mono h)

theorem primary_le (power : BindingPower) : phrase IsPrimary ≤ phrase (Binds power.floor) :=
  show phrase (Binds 8) ≤ _ from binds_le (floor_le power)

theorem prod_parentheses_le : [ofKind .openParen, phrase IsExpr, ofKind .closeParen].prod ≤ phrase IsPrimary := by
  simp only [List.prod_cons, List.prod_nil, mul_one]
  rintro _ ⟨_, ⟨opening, hopening, rfl⟩, _, ⟨ts, ⟨e, he⟩, _, ⟨closing, hclosing, rfl⟩, rfl⟩, rfl⟩
  exact mem_phrase (.parentheses hopening he hclosing)

theorem prod_list_le :
    [ofKind .openBracket, phrase (IsList IsExpr), ofKind .closeBracket].prod ≤ phrase IsPrimary := by
  simp only [List.prod_cons, List.prod_nil, mul_one]
  rintro _ ⟨_, ⟨opening, hopening, rfl⟩, _, ⟨ts, ⟨items, hitems⟩, _, ⟨closing, hclosing, rfl⟩, rfl⟩,
    rfl⟩
  exact mem_phrase (.list hopening (isExprs_iff.2 hitems) hclosing)

theorem prod_function_le : [ofKind .fnWord, ofKind .openParen, phrase (IsList IsParameter), ofKind .closeParen,
    phrase IsAnnotation, phrase IsBlock].prod ≤ phrase IsPrimary := by
  simp only [List.prod_cons, List.prod_nil, mul_one]
  rintro _ ⟨_, ⟨word, hword, rfl⟩, _, ⟨_, ⟨opening, hopening, rfl⟩, _, ⟨ts, ⟨params, hparams⟩, _,
    ⟨_, ⟨closing, hclosing, rfl⟩, _, ⟨us, ⟨note, hnote⟩, vs, ⟨body, hbody⟩, rfl⟩, rfl⟩, rfl⟩, rfl⟩,
    rfl⟩
  have hfunction : IsPrimary (word :: opening :: (ts ++ closing :: (us ++ vs))) _ :=
    .function hword hopening hparams hclosing hnote hbody
  exact mem_phrase hfunction

@[simp]
theorem completable_primary : Completable (phrase IsPrimary) [] := by
  have hident : ofKind .identifier ≤ phrase IsPrimary := by
    rintro _ ⟨t, ht, rfl⟩
    exact mem_phrase (.ident ht)
  exact (completable_ofKind (by decide)).mono hident

@[simp]
theorem completable_binds (power : BindingPower) : Completable (phrase (Binds power.floor)) [] :=
  completable_primary.mono (primary_le power)

@[simp]
theorem completable_expr : Completable (phrase IsExpr) [] := completable_binds .default

/-! ### Behind an expression -/

variable {pre : List Token} {m : Nat}

/-- what tokens may go on with so that they are an expression of a rank -/
def behind (rank : Nat) (pre : List Token) : Language Token := (phrase (Binds rank)).leftQuotient pre

theorem leftQuotient_behind (rank : Nat) (pre : List Token) :
    (behind rank pre).leftQuotient used = behind rank (pre ++ used) :=
  (Language.leftQuotient_append _ pre used).symm

theorem mem_behind {e : Expr} (h : Binds m (pre ++ t :: us) e) : us ∈ behind m (pre ++ [t]) := by
  refine ⟨e, ?_⟩
  rw [List.append_assoc]
  exact h

theorem assign_le_behind {target : Expr} (h : IsBinary .or pre target) (ht : t.kind = .assignment) :
    phrase IsExpr ≤ behind 0 (pre ++ [t]) := by
  rintro us ⟨value, hvalue⟩
  have hassign : Binds 0 (pre ++ t :: us) _ := .assign h ht hvalue
  exact mem_behind hassign

theorem call_le_behind {callee : Expr} (h : IsApplied pre callee) (ht : t.kind = .openParen) (hm : m ≤ 7) :
    [phrase (IsList IsExpr), ofKind .closeParen].prod ≤ behind m (pre ++ [t]) := by
  simp only [List.prod_cons, List.prod_nil, mul_one]
  rintro _ ⟨us, ⟨arguments, harguments⟩, _, ⟨closing, hclosing, rfl⟩, rfl⟩
  have hcall : Binds 7 (pre ++ t :: (us ++ [closing])) _ := .call h ht (isExprs_iff.2 harguments) hclosing
  exact mem_behind (hcall.mono hm)

theorem subscript_le_behind {target : Expr} (h : IsApplied pre target) (ht : t.kind = .openBracket) (hm : m ≤ 7) :
    [phrase IsExpr, ofKind .closeBracket].prod ≤ behind m (pre ++ [t]) := by
  simp only [List.prod_cons, List.prod_nil, mul_one]
  rintro _ ⟨us, ⟨index, hindex⟩, _, ⟨closing, hclosing, rfl⟩, rfl⟩
  have hsubscript : Binds 7 (pre ++ t :: (us ++ [closing])) _ := .subscript h ht hindex hclosing
  exact mem_behind (hsubscript.mono hm)

theorem operator_le_behind {level : Level} {left : Expr} (h : Binds level.power.rank pre left)
    (ht : (t.kind, t.value) ∈ level.operators) (hm : m ≤ level.power.rank) :
    phrase (Binds level.power.floor) ≤ behind m (pre ++ [t]) := by
  rintro us ⟨right, hright⟩
  rw [level.floor_power] at hright
  exact mem_behind ((isBinary_iff.1 (.apply (isBinary_iff.2 h) ht (isOperand_iff.2 hright))).mono hm)

/-! ## Statements -/

theorem prod_declaration_le : [ofKind .letWord, ofKind .identifier, phrase IsAnnotation, ofKind .declare,
    phrase IsExpr, ofKind .semicolon].prod ≤ phrase IsDeclaration := by
  simp only [List.prod_cons, List.prod_nil, mul_one]
  rintro _ ⟨_, ⟨word, hword, rfl⟩, _, ⟨_, ⟨name, hname, rfl⟩, _, ⟨us, ⟨note, hnote⟩, _, ⟨_, ⟨mark, hmark, rfl⟩, _,
    ⟨ts, ⟨value, hvalue⟩, _, ⟨semicolon, hsemicolon, rfl⟩, rfl⟩, rfl⟩, rfl⟩, rfl⟩, rfl⟩
  exact mem_phrase (.mk hword hname hnote hmark hvalue hsemicolon)

theorem declaration_le : phrase IsDeclaration ≤ phrase IsStmt := by
  rintro ts ⟨d, hd⟩
  exact mem_phrase (.declare hd)

theorem prod_pub_le : [ofKind .pubWord, phrase IsDeclaration].prod ≤ phrase IsStmt := by
  simp only [List.prod_cons, List.prod_nil, mul_one]
  rintro _ ⟨_, ⟨word, hword, rfl⟩, ts, ⟨d, hd⟩, rfl⟩
  exact mem_phrase (.pub hword hd)

theorem prod_use_le : [ofKind .useWord, ofKind .string, phrase IsFilter, ofKind .semicolon].prod ≤ phrase IsStmt := by
  simp only [List.prod_cons, List.prod_nil, mul_one]
  rintro _ ⟨_, ⟨word, hword, rfl⟩, _, ⟨_, ⟨path, hpath, rfl⟩, _,
    ⟨ts, ⟨names, hnames⟩, _, ⟨semicolon, hsemicolon, rfl⟩, rfl⟩, rfl⟩, rfl⟩
  exact mem_phrase (.use hword hpath hnames hsemicolon)

theorem prod_cond_le : [ofKind .ifWord, phrase IsExpr, phrase IsBlock].prod ≤ phrase IsStmt := by
  simp only [List.prod_cons, List.prod_nil, mul_one]
  rintro _ ⟨_, ⟨word, hword, rfl⟩, _, ⟨ts, ⟨condition, hcondition⟩, us, ⟨body, hbody⟩, rfl⟩, rfl⟩
  have hcond : IsStmt (word :: (ts ++ us)) _ := .cond hword hcondition hbody
  exact mem_phrase hcond

/-- what may stand behind the first word of a return -/
def returned : Language Token := ofKind .semicolon + phrase IsExpr * ofKind .semicolon

theorem semicolon_le_returned : [ofKind .semicolon].prod ≤ returned := by
  rw [List.prod_singleton]
  exact fun _ h => Or.inl h

theorem prod_returned_le : [phrase IsExpr, ofKind .semicolon].prod ≤ returned := by
  rw [List.prod_cons, List.prod_singleton]
  exact fun _ h => Or.inr h

theorem prod_giveBack_le : [ofKind .returnWord, returned].prod ≤ phrase IsStmt := by
  simp only [List.prod_cons, List.prod_nil, mul_one]
  rintro _ ⟨_, ⟨word, hword, rfl⟩, rest, hrest, rfl⟩
  rcases (Language.mem_add _ _ _).1 hrest with ⟨semicolon, hsemicolon, rfl⟩ |
    ⟨ts, ⟨value, hvalue⟩, _, ⟨semicolon, hsemicolon, rfl⟩, rfl⟩
  · exact mem_phrase (.giveNothing hword hsemicolon)
  · exact mem_phrase (.giveBack hword hvalue hsemicolon)

theorem prod_eval_le : [phrase IsExpr, ofKind .semicolon].prod ≤ phrase IsStmt := by
  simp only [List.prod_cons, List.prod_nil, mul_one]
  rintro _ ⟨ts, ⟨e, he⟩, _, ⟨semicolon, hsemicolon, rfl⟩, rfl⟩
  exact mem_phrase (.eval he hsemicolon)

theorem prod_stmts_le : [phrase IsStmt, phrase IsStmts].prod ≤ phrase IsStmts := by
  simp only [List.prod_cons, List.prod_nil, mul_one]
  rintro _ ⟨ts, ⟨s, hs⟩, us, ⟨ss, hss⟩, rfl⟩
  exact mem_phrase (.more hs hss)

theorem prod_block_le : [ofKind .openCurly, phrase IsStmts, ofKind .closeCurly].prod ≤ phrase IsBlock := by
  simp only [List.prod_cons, List.prod_nil, mul_one]
  rintro _ ⟨_, ⟨opening, hopening, rfl⟩, _, ⟨ts, ⟨body, hbody⟩, _, ⟨closing, hclosing, rfl⟩, rfl⟩,
    rfl⟩
  exact mem_phrase (.mk hopening hbody hclosing)

@[simp]
theorem completable_declaration : Completable (phrase IsDeclaration) [] :=
  (completable_prod (by simp)).mono prod_declaration_le

@[simp]
theorem completable_stmts : Completable (phrase IsStmts) [] := completable_of_mem (mem_phrase .empty)

@[simp]
theorem completable_block : Completable (phrase IsBlock) [] := (completable_prod (by simp)).mono prod_block_le

end TypedScript.Grammar
