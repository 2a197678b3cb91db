/-
The words that function literals start with. Each literal that is read takes one `fn` of the text, its span starts
there, and nothing else takes one. What is read takes as many of these words as there are literals in it, in the order
of its nodes.

- `Parse.marks`: the rules of expressions and statements take the words of the literals that they read.
- `literals_in_order`: the literals of a text have their numbers in the order of its `fn`s.
-/
import TypedScript.Proofs.Tree.Grammar.Sound

namespace TypedScript

open Grammar

/-- where the words that start function literals stand -/
def wordStarts (tokens : List Token) : List Position :=
  (tokens.filter fun t => t.kind = .fnWord).map fun t => t.span.start

/-- the number of a function literal, and where the literal starts -/
def Node.numbered? : Node → Option (Nat × Position)
  | .expr (.function id _ _ _ span) => some (id, span.start)
  | _ => none

/-- where the function literals among nodes start -/
def literalStarts (nodes : List Node) : List Position := (nodes.filterMap Node.numbered?).map Prod.snd

/-! ## Words and literals in a row -/

section

variable {t : Token} {ts us : List Token} {x : Node} {xs ys : List Node}

@[simp] theorem wordStarts_nil : wordStarts [] = [] := rfl

@[simp] theorem wordStarts_append (ts us : List Token) : wordStarts (ts ++ us) = wordStarts ts ++ wordStarts us := by
  simp [wordStarts]

theorem wordStarts_word (h : t.kind = .fnWord) (ts : List Token) :
    wordStarts (t :: ts) = t.span.start :: wordStarts ts := by
  simp [wordStarts, h]

/-- a token of another kind -/
theorem wordStarts_other (h : t.kind ≠ .fnWord) (ts : List Token) : wordStarts (t :: ts) = wordStarts ts := by
  simp [wordStarts, h]

@[simp] theorem literalStarts_nil : literalStarts [] = [] := rfl

@[simp] theorem literalStarts_append (xs ys : List Node) :
    literalStarts (xs ++ ys) = literalStarts xs ++ literalStarts ys := by
  simp [literalStarts]

@[simp] theorem literalStarts_cons (x : Node) (xs : List Node) :
    literalStarts (x :: xs) = x.numbered?.toList.map Prod.snd ++ literalStarts xs := by
  unfold literalStarts
  rw [List.filterMap_cons]
  cases x.numbered? <;> rfl

end

/-! ## Parts without literals -/

mutual

theorem Grammar.IsNote.no_words : ∀ {ts : List Token} {n : Note}, IsNote ts n → wordStarts ts = []
  | _, _, .marked h => h.no_words
  | _, _, .function ho hs hc ha hr => by
    simp [wordStarts_other, ho, hc, ha, hs.no_words, hr.no_words]

theorem Grammar.IsMarked.no_words : ∀ {ts : List Token} {n : Note}, IsMarked ts n → wordStarts ts = []
  | _, _, .any h _ => by simp [wordStarts_other, h]
  | _, _, .void h _ => by simp [wordStarts_other, h]
  | _, _, .ident h _ _ => by simp [wordStarts_other, h]
  | _, _, .list ho h hc => by simp [wordStarts_other, ho, hc, h.no_words]
  | _, _, .tuple ho h hc => by simp [wordStarts_other, ho, hc, h.no_words]
  | _, _, .optional h hm => by simp [wordStarts_other, hm, h.no_words]

theorem Grammar.IsNotes.no_words : ∀ {ts : List Token} {ns : List Note}, IsNotes ts ns → wordStarts ts = []
  | _, _, .empty => rfl
  | _, _, .more h hs => by simp [h.no_words, hs.no_words]
  | _, _, .comma h hc hs => by simp [wordStarts_other, hc, h.no_words, hs.no_words]

end

theorem Grammar.IsAnnotation.no_words {ts : List Token} {n : Option Note} : IsAnnotation ts n → wordStarts ts = []
  | .none => rfl
  | .some hc h => by simp [wordStarts_other, hc, h.no_words]

theorem Grammar.IsParameter.no_words {ts : List Token} {p : Parameter} : IsParameter ts p → wordStarts ts = []
  | .mk hn hc h => by simp [wordStarts_other, hn, hc, h.no_words]

/-- items between commas take the words that each of them takes -/
theorem wordStarts_list {α : Type} {IsItem : List Token → α → Prop} (starts : α → List Position)
    (hitem : ∀ ts a, IsItem ts a → wordStarts ts = starts a) {ts : List Token} {items : List α}
    (h : IsList IsItem ts items) : wordStarts ts = items.flatMap starts := by
  induction h with
  | empty => rfl
  | last h => simp [hitem _ _ h]
  | more h hcomma _ ih => simp [wordStarts_other, hcomma, hitem _ _ h, ih]

theorem Grammar.IsFilter.no_words {ts : List Token} {names : Option (List String)} :
    IsFilter ts names → wordStarts ts = []
  | .none => rfl
  | .some ho h hc => by
    have hnames :=
      wordStarts_list (fun _ => []) (fun _ _ hname => by cases hname with | mk h => simp [wordStarts_other, h]) h
    simp [wordStarts_other, ho, hc, hnames]

theorem literalStarts_nodesOf (es : List Expr) :
    literalStarts (Expr.nodesOf es) = es.flatMap fun e => literalStarts e.nodes := by
  induction es with
  | nil => rfl
  | cons e es ih => rw [Expr.nodesOf, literalStarts_append, ih, List.flatMap_cons]

namespace Parse

variable {α : Type} {c : Cursor} {ts us : List Token} {fuel : Nat}

/-- what is read takes the words of its literals -/
def Marks (nodes : α → List Node) (ts : List Token) : α → Cursor → Prop :=
  Takes ts fun a used _ => wordStarts used = literalStarts (nodes a)

/-! ## Expressions and statements -/

theorem marks_primary (h : c.At ts) : Ensures primary c (Marks Expr.nodes ts) := by
  have single {e : Expr} {k : TokenKind} (hkind : c.current.kind = k) (hk : k ∉ [.endOfText, .fnWord])
      (he : literalStarts e.nodes = []) : Ensures (do let _ ← advance; return e) c (Marks Expr.nodes ts) := by
    subst hkind
    simp only [List.mem_cons, List.not_mem_nil, or_false, not_or] at hk
    refine (ensures_advance h hk.1).bind fun token d hd => ?_
    obtain ⟨rfl, us, rfl, hd⟩ := hd
    exact .pure ⟨[c.current], us, rfl, hd, (wordStarts_other hk.2 []).trans he.symm⟩
  refine ensures_get.bind fun a d hd => ?_
  obtain ⟨rfl, rfl⟩ := hd
  dsimp only
  split
  · next hkind =>
    split
    · exact single hkind (by decide) rfl
    · exact ensures_throw
  · next hkind => exact single hkind (by decide) rfl
  · next hkind => exact single hkind (by decide) rfl
  · next hkind => exact single hkind (by decide) rfl
  · next hkind => exact single hkind (by decide) rfl
  · next hkind => exact single hkind (by decide) rfl
  · exact ensures_unexpected

/-- the rules of expressions and statements, each with the steps given -/
structure MarkRules (fuel : Nat) : Prop where
  expr : ∀ power {c : Cursor} {ts : List Token}, c.At ts → Ensures (exprWithin fuel power) c (Marks Expr.nodes ts)
  operand : ∀ {c : Cursor} {ts : List Token}, c.At ts → Ensures (operand fuel) c (Marks Expr.nodes ts)
  /-- the words of the expression so far were taken before -/
  tail : ∀ power left {c : Cursor} {ts : List Token}, c.At ts → Ensures (exprTail fuel power left) c
    (Takes ts fun e used _ => literalStarts e.nodes = literalStarts left.nodes ++ wordStarts used)
  items : ∀ close, TakesList (fun ts e => wordStarts ts = literalStarts e.nodes) close (exprItems fuel close)
  literal : ∀ {c : Cursor} {ts : List Token}, c.At ts → c.current.kind = .fnWord →
    Ensures (functionLiteral fuel) c (Marks Expr.nodes ts)
  declaration : ∀ {c : Cursor} {ts : List Token}, c.At ts → Ensures (declaration fuel) c (Marks Declaration.nodes ts)
  stmt : ∀ {c : Cursor} {ts : List Token}, c.At ts → Ensures (stmtWithin fuel) c (Marks Stmt.nodes ts)
  block : ∀ {c : Cursor} {ts : List Token}, c.At ts → Ensures (blockWithin fuel) c (Marks Block.nodes ts)
  body : ∀ {c : Cursor} {ts : List Token}, c.At ts → Ensures (blockBody fuel) c (Marks Stmt.nodesOf ts)

theorem MarkRules.exprs (ih : MarkRules fuel) (close : TokenKind) (h : c.At ts) :
    Ensures (exprItems fuel close) c (Marks Expr.nodesOf ts) := by
  intro es d hes
  obtain ⟨used, left, rfl, hd, hlist, _⟩ := ih.items close h es d hes
  exact ⟨used, left, rfl, hd, (wordStarts_list _ (fun _ _ hitem => hitem) hlist).trans (literalStarts_nodesOf es).symm⟩

theorem MarkRules.expr_succ (ih : MarkRules fuel) (power : BindingPower) (h : c.At ts) :
    Ensures (exprWithin (fuel + 1) power) c (Marks Expr.nodes ts) := by
  refine (ih.operand h).bind fun left d hd => ?_
  obtain ⟨used, rest, rfl, hd, hleft⟩ := hd
  intro e f he
  obtain ⟨more, rest, rfl, hf, hall⟩ := ih.tail power left hd e f he
  exact ⟨used ++ more, rest, by simp, hf, by simp [hleft, hall]⟩

theorem MarkRules.operand_succ (ih : MarkRules fuel) (h : c.At ts) :
    Ensures (Parse.operand (fuel + 1)) c (Marks Expr.nodes ts) := by
  refine ensures_kind.bind fun k d hk => ?_
  obtain ⟨rfl, rfl⟩ := hk
  split
  · next hkind => exact ih.literal h hkind
  · next hopening =>
    refine (ensures_advance h (by simp [hopening])).bind fun opening d hd => ?_
    obtain ⟨rfl, us, rfl, hd⟩ := hd
    refine (ih.exprs _ hd).bind fun items e he => ?_
    obtain ⟨used, left, rfl, he, hitems⟩ := he
    refine (ensures_expect he (by simp)).bind fun closing f hf => ?_
    obtain ⟨hclosing, vs, rfl, hf⟩ := hf
    refine ensures_spanFrom.bind fun span g hg => ?_
    subst hg
    refine .pure ⟨c.current :: (used ++ [closing]), vs, by simp, hf, ?_⟩
    simp [Expr.nodes, Node.numbered?, wordStarts_other, hopening, hclosing, hitems]
  · next hopening =>
    refine (ensures_advance h (by simp [hopening])).bind fun opening d hd => ?_
    obtain ⟨rfl, us, rfl, hd⟩ := hd
    refine (ih.expr _ hd).bind fun expr e he => ?_
    obtain ⟨used, left, rfl, he, hexpr⟩ := he
    refine (ensures_expect he (by simp)).bind fun closing f hf => ?_
    obtain ⟨hclosing, vs, rfl, hf⟩ := hf
    refine .pure ⟨c.current :: (used ++ [closing]), vs, by simp, hf, ?_⟩
    simp [wordStarts_other, hopening, hclosing, hexpr]
  · exact marks_primary h

/-- a tail that goes on behind a longer expression -/
theorem MarkRules.longer (ih : MarkRules fuel) (power : BindingPower) (left : Expr) (used : List Token)
    {e : Expr} (h : c.At us) (he : literalStarts e.nodes = literalStarts left.nodes ++ wordStarts used) :
    Ensures (exprTail fuel power e) c (Takes (used ++ us) fun e used _ =>
      literalStarts e.nodes = literalStarts left.nodes ++ wordStarts used) := by
  intro e' d he'
  obtain ⟨more, rest, rfl, hd, hall⟩ := ih.tail power e h e' d he'
  exact ⟨used ++ more, rest, by simp, hd, by simp [hall, he]⟩

/-- a token that an expression goes on with is neither the end of the text nor the start of a literal -/
theorem kind_of_weaker {power : BindingPower} {k : TokenKind} (h : power.weaker (BindingPower.ofToken k) = true) :
    k ≠ .endOfText ∧ k ≠ .fnWord := by
  constructor
  all_goals
    rintro rfl
    exact absurd (of_decide_eq_true h) (Nat.not_lt_zero _)

theorem MarkRules.tail_succ (ih : MarkRules fuel) (power : BindingPower) (left : Expr) (h : c.At ts) :
    Ensures (exprTail (fuel + 1) power left) c
      (Takes ts fun e used _ => literalStarts e.nodes = literalStarts left.nodes ++ wordStarts used) := by
  refine ensures_get.bind fun a d hd => ?_
  obtain ⟨rfl, rfl⟩ := hd
  dsimp only
  split
  · next hpower =>
    obtain ⟨hinside, hword⟩ := kind_of_weaker hpower
    refine (ensures_advance h hinside).bind fun token d hd => ?_
    obtain ⟨rfl, us, rfl, hd⟩ := hd
    split
    · refine (ih.expr _ hd).bind fun value e he => ?_
      obtain ⟨used, rest, rfl, he, hvalue⟩ := he
      refine ih.longer power left (c.current :: used) he ?_
      simp [Expr.nodes, Node.numbered?, wordStarts_other hword, hvalue]
    · refine (ih.exprs _ hd).bind fun arguments e he => ?_
      obtain ⟨used, rest, rfl, he, harguments⟩ := he
      refine (ensures_expect he (by simp)).bind fun closing f hf => ?_
      obtain ⟨hclosing, vs, rfl, hf⟩ := hf
      refine ensures_spanFrom.bind fun span g hg => ?_
      subst hg
      have hlonger := ih.longer power left (c.current :: (used ++ [closing])) (e := .call left arguments span) hf
        (by simp [Expr.nodes, Node.numbered?, wordStarts_other, hword, hclosing, harguments])
      simpa using hlonger
    · refine (ih.expr _ hd).bind fun index e he => ?_
      obtain ⟨used, rest, rfl, he, hindex⟩ := he
      refine (ensures_expect he (by simp)).bind fun closing f hf => ?_
      obtain ⟨hclosing, vs, rfl, hf⟩ := hf
      refine ensures_spanFrom.bind fun span g hg => ?_
      subst hg
      have hlonger := ih.longer power left (c.current :: (used ++ [closing])) (e := .subscript left index span) hf
        (by simp [Expr.nodes, Node.numbered?, wordStarts_other, hword, hclosing, hindex])
      simpa using hlonger
    · refine (ih.expr _ hd).bind fun right e he => ?_
      obtain ⟨used, rest, rfl, he, hright⟩ := he
      refine ih.longer power left (c.current :: used) he ?_
      simp [Expr.nodes, Node.numbered?, wordStarts_other hword, hright]
  · exact .pure ⟨[], ts, rfl, h, by simp⟩

theorem MarkRules.items_succ (ih : MarkRules fuel) (close : TokenKind) :
    TakesList (fun ts e => wordStarts ts = literalStarts e.nodes) close (exprItems (fuel + 1) close) := by
  rw [exprItems_succ]
  exact takesList_step (ih.expr .default) (ih.items close)

/-- the word of a literal is taken before those of the literals in it -/
theorem MarkRules.literal_succ (ih : MarkRules fuel) (h : c.At ts) (hword : c.current.kind = .fnWord) :
    Ensures (functionLiteral (fuel + 1)) c (Marks Expr.nodes ts) := by
  refine (ensures_advance h (by simp [hword])).bind fun word d hd => ?_
  obtain ⟨rfl, us, rfl, hd⟩ := hd
  refine (ensures_freshId hd).bind fun id d hd => ?_
  refine (ensures_expect hd (by simp)).bind fun opening e he => ?_
  obtain ⟨hopening, vs, rfl, he⟩ := he
  refine ensures_get.bind fun a f hf => ?_
  obtain ⟨rfl, rfl⟩ := hf
  refine (takesList_params _ he).bind fun parameters f hf => ?_
  obtain ⟨used, left, rfl, hf, hparams, _⟩ := hf
  refine (ensures_expect hf (by simp)).bind fun closing g hg => ?_
  obtain ⟨hclosing, ws, rfl, hg⟩ := hg
  refine (annotation_takes hg).bind fun result j hj => ?_
  obtain ⟨note, left, rfl, hj, hresult⟩ := hj
  refine (ih.block hj).bind fun body k hk => ?_
  obtain ⟨block, rest, rfl, hk, hbody⟩ := hk
  intro e l hl
  cases hl
  have hparams := wordStarts_list (fun _ => []) (fun _ _ h => h.no_words) hparams
  refine ⟨c.current :: opening :: (used ++ closing :: (note ++ block)), rest, by simp, hk, ?_⟩
  simp [Expr.nodes, Node.numbered?, Cursor.spanFrom, wordStarts_word hword, wordStarts_other,
    hopening, hclosing, hparams, hresult.no_words, hbody]

theorem MarkRules.declaration_succ (ih : MarkRules fuel) (h : c.At ts) :
    Ensures (Parse.declaration (fuel + 1)) c (Marks Declaration.nodes ts) := by
  refine (ensures_expect h (by simp)).bind fun word d hd => ?_
  obtain ⟨hword, us, rfl, hd⟩ := hd
  refine (ensures_expectDetailed hd (by simp)).bind fun name e he => ?_
  obtain ⟨hname, vs, rfl, he⟩ := he
  refine (annotation_takes he).bind fun type f hf => ?_
  obtain ⟨note, left, rfl, hf, hnote⟩ := hf
  refine (ensures_expectDetailed hf (by simp)).bind fun mark g hg => ?_
  obtain ⟨hmark, ws, rfl, hg⟩ := hg
  refine (ih.expr _ hg).bind fun value j hj => ?_
  obtain ⟨used, left, rfl, hj, hvalue⟩ := hj
  refine (ensures_expect hj (by simp)).bind fun semicolon k hk => ?_
  obtain ⟨hsemicolon, rest, rfl, hk⟩ := hk
  refine ensures_spanFrom.bind fun span l hl => ?_
  subst hl
  refine .pure ⟨word :: name :: (note ++ mark :: (used ++ [semicolon])), rest, by simp, hk, ?_⟩
  simp [Declaration.nodes, wordStarts_other, hword, hname, hmark, hsemicolon, hnote.no_words, hvalue]

theorem MarkRules.stmt_succ (ih : MarkRules fuel) (h : c.At ts) :
    Ensures (stmtWithin (fuel + 1)) c (Marks Stmt.nodes ts) := by
  refine ensures_kind.bind fun k d hk => ?_
  obtain ⟨rfl, rfl⟩ := hk
  split
  · refine (ih.declaration h).bind fun declared d hd => ?_
    obtain ⟨used, left, rfl, hd, hdeclared⟩ := hd
    exact .pure ⟨used, left, rfl, hd, by simp [Stmt.nodes, Node.numbered?, hdeclared]⟩
  · next hword =>
    refine (ensures_advance h (by simp [hword])).bind fun word d hd => ?_
    obtain ⟨rfl, us, rfl, hd⟩ := hd
    refine (ih.expr _ hd).bind fun condition e he => ?_
    obtain ⟨used, left, rfl, he, hcondition⟩ := he
    refine (ih.block he).bind fun body f hf => ?_
    obtain ⟨block, rest, rfl, hf, hbody⟩ := hf
    refine ensures_spanFrom.bind fun span g hg => ?_
    subst hg
    refine .pure ⟨c.current :: (used ++ block), rest, by simp, hf, ?_⟩
    simp [Stmt.nodes, Node.numbered?, wordStarts_other, hword, hcondition, hbody]
  · next hword =>
    refine (ensures_advance h (by simp [hword])).bind fun word d hd => ?_
    obtain ⟨rfl, us, rfl, hd⟩ := hd
    refine ensures_kind.bind fun k e he => ?_
    obtain ⟨rfl, rfl⟩ := he
    split
    · next hsemicolon =>
      refine (ensures_advance hd (by simp [hsemicolon])).bind fun semicolon e he => ?_
      obtain ⟨rfl, vs, rfl, he⟩ := he
      refine ensures_spanFrom.bind fun span g hg => ?_
      subst hg
      refine .pure ⟨[c.current, d.current], vs, rfl, he, ?_⟩
      simp [Stmt.nodes, Node.numbered?, wordStarts_other, hword, hsemicolon]
    · refine (ih.expr _ hd).bind fun value e he => ?_
      obtain ⟨used, left, rfl, he, hvalue⟩ := he
      refine (ensures_expect he (by simp)).bind fun semicolon f hf => ?_
      obtain ⟨hsemicolon, rest, rfl, hf⟩ := hf
      refine ensures_spanFrom.bind fun span g hg => ?_
      subst hg
      refine .pure ⟨c.current :: (used ++ [semicolon]), rest, by simp, hf, ?_⟩
      simp [Stmt.nodes, Node.numbered?, wordStarts_other, hword, hsemicolon, hvalue]
  · next hword =>
    refine (ensures_advance h (by simp [hword])).bind fun word d hd => ?_
    obtain ⟨rfl, us, rfl, hd⟩ := hd
    refine ensures_kind.bind fun k e he => ?_
    obtain ⟨rfl, rfl⟩ := he
    split
    · exact ensures_unexpectedDetailed
    · refine (ih.declaration hd).bind fun declared e he => ?_
      obtain ⟨used, left, rfl, he, hdeclared⟩ := he
      refine ensures_spanFrom.bind fun span g hg => ?_
      subst hg
      refine .pure ⟨c.current :: used, left, rfl, he, ?_⟩
      simp [Stmt.nodes, Node.numbered?, wordStarts_other, hword, hdeclared]
  · next hword =>
    refine (ensures_advance h (by simp [hword])).bind fun word d hd => ?_
    obtain ⟨rfl, us, rfl, hd⟩ := hd
    refine (ensures_expectDetailed hd (by simp)).bind fun path e he => ?_
    obtain ⟨hpath, vs, rfl, he⟩ := he
    refine (takes_useFilter he).bind fun names f hf => ?_
    obtain ⟨used, left, rfl, hf, hnames⟩ := hf
    refine (ensures_expect hf (by simp)).bind fun semicolon g hg => ?_
    obtain ⟨hsemicolon, rest, rfl, hg⟩ := hg
    refine ensures_spanFrom.bind fun span j hj => ?_
    subst hj
    refine .pure ⟨c.current :: path :: (used ++ [semicolon]), rest, by simp, hg, ?_⟩
    simp [Stmt.nodes, Node.numbered?, wordStarts_other, hword, hpath, hsemicolon, hnames.no_words]
  · refine (ih.expr _ h).bind fun expr d hd => ?_
    obtain ⟨used, left, rfl, hd, hexpr⟩ := hd
    refine (ensures_expect hd (by simp)).bind fun semicolon e he => ?_
    obtain ⟨hsemicolon, rest, rfl, he⟩ := he
    refine ensures_spanFrom.bind fun span f hf => ?_
    subst hf
    refine .pure ⟨used ++ [semicolon], rest, by simp, he, ?_⟩
    simp [Stmt.nodes, Node.numbered?, wordStarts_other, hsemicolon, hexpr]

theorem MarkRules.block_succ (ih : MarkRules fuel) (h : c.At ts) :
    Ensures (blockWithin (fuel + 1)) c (Marks Block.nodes ts) := by
  refine (ensures_expect h (by simp)).bind fun opening d hd => ?_
  obtain ⟨hopening, us, rfl, hd⟩ := hd
  refine (ih.body hd).bind fun body e he => ?_
  obtain ⟨used, left, rfl, he, hbody⟩ := he
  refine (ensures_expect he (by simp)).bind fun closing f hf => ?_
  obtain ⟨hclosing, rest, rfl, hf⟩ := hf
  refine ensures_spanFrom.bind fun span g hg => ?_
  subst hg
  refine .pure ⟨opening :: (used ++ [closing]), rest, by simp, hf, ?_⟩
  simp [Block.nodes, wordStarts_other, hopening, hclosing, hbody]

theorem MarkRules.body_succ (ih : MarkRules fuel) (h : c.At ts) :
    Ensures (blockBody (fuel + 1)) c (Marks Stmt.nodesOf ts) := by
  refine ensures_kind.bind fun k d hk => ?_
  obtain ⟨rfl, rfl⟩ := hk
  split
  · exact .pure ⟨[], ts, rfl, h, rfl⟩
  · exact ensures_unexpected
  · refine (ih.stmt h).bind fun s d hd => ?_
    obtain ⟨used, left, rfl, hd, hs⟩ := hd
    refine (ih.body hd).bind fun ss e he => ?_
    obtain ⟨more, rest, rfl, he, hss⟩ := he
    exact .pure ⟨used ++ more, rest, by simp, he, by simp [Stmt.nodesOf, hs, hss]⟩

theorem markRules (fuel : Nat) : MarkRules fuel := by
  induction fuel with
  | zero =>
    exact ⟨fun _ _ _ _ => ensures_unexpected, fun _ => ensures_unexpected, fun _ _ _ _ _ => ensures_unexpected,
      fun _ _ _ _ => ensures_unexpected, fun _ _ => ensures_unexpected, fun _ => ensures_unexpected,
      fun _ => ensures_unexpected, fun _ => ensures_unexpected, fun _ => ensures_unexpected⟩
  | succ fuel ih =>
    exact ⟨fun power => ih.expr_succ power, ih.operand_succ, fun power left => ih.tail_succ power left, ih.items_succ,
      ih.literal_succ, ih.declaration_succ, ih.stmt_succ, ih.block_succ, ih.body_succ⟩

/-! ## Modules -/

theorem marks_stmts (fuel : Nat) (h : c.At ts) :
    Ensures (stmts fuel) c fun ss _ => wordStarts ts = literalStarts (Stmt.nodesOf ss) := by
  induction fuel generalizing c ts with
  | zero => exact ensures_unexpected
  | succ fuel ih =>
    refine ensures_kind.bind fun k d hk => ?_
    obtain ⟨rfl, rfl⟩ := hk
    split
    · next hend =>
      cases ts with
      | nil => exact .pure rfl
      | cons t ts => exact absurd (h.current ▸ hend) (h.proper t List.mem_cons_self).inside
    · have hstmt : Ensures stmt c (Marks Stmt.nodes ts) := by
        refine ensures_get.bind fun a d hd => ?_
        obtain ⟨rfl, rfl⟩ := hd
        exact (markRules _).stmt h
      refine hstmt.bind fun s d hd => ?_
      obtain ⟨used, left, rfl, hd, hs⟩ := hd
      refine (ih hd).bind fun ss e hss => .pure ?_
      rw [Stmt.nodesOf, wordStarts_append, literalStarts_append, hs, hss]

/-- the words of a text are those of the literals of its module -/
theorem marks_module (h : c.At ts) : Ensures module c fun b _ => wordStarts ts = literalStarts b.nodes := by
  refine ensures_get.bind fun a d hd => ?_
  obtain ⟨rfl, rfl⟩ := hd
  refine (marks_stmts _ h).bind fun body d hbody => ?_
  refine ensures_spanFrom.bind fun span e _ => .pure ?_
  rw [Block.nodes]
  exact hbody

end Parse

/-- the numbers of literals, without the places -/
theorem literalIds_eq (nodes : List Node) : literalIds nodes = (nodes.filterMap Node.numbered?).map Prod.fst := by
  rw [literalIds, List.map_filterMap]
  congr 1
  funext x
  rcases x with e | s
  · cases e <;> rfl
  · rfl

/-- the `k`th literal of a text, in the order of its nodes, has the number `k` and starts with the `k`th `fn` -/
theorem literals_in_order {source : String} {body : Block} (h : parse source = .ok body) :
    ∃ tokens, tokenize source = .ok tokens ∧ body.nodes.filterMap Node.numbered? =
      (tokens.filter fun t => t.kind = .fnWord).mapIdx fun k t => (k, t.span.start) := by
  obtain ⟨tokens, c, htokens, hmodule⟩ := parse_eq_ok_iff.1 h
  refine ⟨tokens, htokens, ?_⟩
  obtain ⟨used, last, rfl, hlast, hused⟩ := tokenize_proper htokens
  obtain ⟨n, hids⟩ := parse_numbered h
  have hwords : literalStarts body.nodes = wordStarts (used ++ [last]) := by
    have hnone : wordStarts [last] = [] := wordStarts_other (by simp [hlast]) []
    rw [wordStarts_append, hnone, List.append_nil]
    exact (Parse.marks_module (Cursor.at_ofTokens hlast hused) body c hmodule).symm
  rw [literalIds_eq] at hids
  unfold literalStarts wordStarts at hwords
  generalize body.nodes.filterMap Node.numbered? = numbered at hids hwords
  generalize (used ++ [last]).filter (fun t => t.kind = .fnWord) = words at hwords
  refine List.ext_getElem? fun k => ?_
  have hid := congrArg (fun ids => ids[k]?) hids
  have hstart := congrArg (fun starts => starts[k]?) hwords
  rw [List.getElem?_map] at hid hstart
  rw [List.getElem?_map] at hstart
  rw [List.getElem?_mapIdx]
  cases hpair : numbered[k]? with
  | none =>
    rw [hpair] at hstart
    rw [Option.map_eq_none_iff.1 hstart.symm]
    rfl
  | some pair =>
    rw [hpair] at hid hstart
    obtain ⟨word, hword, hposition⟩ := Option.map_eq_some_iff.1 hstart.symm
    obtain ⟨_, hk⟩ := List.getElem?_eq_some_iff.1 hid.symm
    rw [List.getElem_range] at hk
    rw [hword, Option.map_some, hk, hposition]

end TypedScript
