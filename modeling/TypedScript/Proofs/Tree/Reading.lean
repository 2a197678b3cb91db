/-
What reading a source text makes sure of. The function literals of a module are numbered from zero on in the order of
the text, so that a number stands for one literal, and every operator of a binary expression is one that the machine
knows: an operator's token has the operator's own spelling, and no other token makes a binary expression.

Reading goes through a cursor that counts the literals it has met. `Numbered m n nodes` says of the nodes read while the
count goes from `m` to `n` that their literals have the numbers from `m` up to `n`; adjacent stretches join
(`Numbered.append`), and each rule of the grammar is put together from them.

- `parse_numbered`: the literals of a module have the numbers `0, 1, 2, ...`.
- `parse_operators`: the operators of a module are known.
-/
import TypedScript.Proofs.Tree.Nodes
import TypedScript.Tree.Parse

namespace TypedScript

/-! ## Tokens -/

/-- a token that makes a binary expression has the spelling of an operator the machine knows -/
def Token.Honest (t : Token) : Prop :=
  BindingPower.ofToken t.kind ∈ [.default, .assignment, .call] ∨ ∃ o, BinaryOp.ofText? t.value = some o

theorem Token.honest_of_default {t : Token} (h : BindingPower.ofToken t.kind = .default) : t.Honest :=
  Or.inl (by simp [h])

theorem TokenKind.ofToken_ofWord (word : String) : BindingPower.ofToken (TokenKind.ofWord word) = .default := by
  have words : ∀ w ∈ reservedWords, BindingPower.ofToken w.2 = .default := by decide
  unfold TokenKind.ofWord
  cases h : reservedWords.lookup word with
  | none => rfl
  | some kind =>
    obtain ⟨before, after, hw, _⟩ := List.lookup_eq_some_iff.1 h
    exact words (word, kind) (by simp [hw])

theorem marks_honest (span : Span) : ∀ m ∈ marks, (⟨m.2, String.ofList m.1, span⟩ : Token).Honest := by
  have known : ∀ m ∈ marks, BindingPower.ofToken m.2 ∈ [.default, .assignment, .call] ∨
      (BinaryOp.ofText? (String.ofList m.1)).isSome := by decide
  intro m hm
  rcases known m hm with h | h
  · exact Or.inl h
  · exact Or.inr (Option.isSome_iff_exists.1 h)

theorem Piece.first_honest {c : Char} {text : List Char} {piece : Piece} {p : Position} {t : Token}
    (h : Piece.first c text = .ok piece) (ht : piece.token? p = some t) : t.Honest := by
  unfold Piece.first at h
  split at h
  · cases h; cases ht; exact Token.honest_of_default (TokenKind.ofToken_ofWord _)
  split at h
  · cases h; cases ht; exact Token.honest_of_default rfl
  split at h
  · cases h; cases ht
  split at h
  · split at h
    · cases h; cases ht; exact Token.honest_of_default rfl
    · cases h
  split at h
  · cases h; cases ht
  split at h
  · next mark kind hm =>
    cases h
    cases ht
    exact marks_honest _ _ (List.mem_of_find?_eq_some hm)
  · cases h

theorem tokenize_honest {source : String} {tokens : List Token} (h : tokenize source = .ok tokens) :
    ∀ t ∈ tokens, t.Honest := by
  obtain ⟨body, q, rfl, hbody⟩ := Token.scan_pieces _ _ h
  intro t ht
  rcases List.mem_append.1 ht with ht | ht
  · obtain ⟨_, _, _, _, hpiece, htoken⟩ := hbody t ht
    exact Piece.first_honest hpiece htoken
  · rw [List.mem_singleton.1 ht]
    exact Token.honest_of_default rfl

/-! ## Cursors -/

/-- the tokens still to be passed are honest -/
def Cursor.Honest (c : Cursor) : Prop := c.current.Honest ∧ ∀ t ∈ c.ahead, t.Honest

theorem Cursor.honest_next {c : Cursor} (h : c.Honest) : c.next.Honest := by
  unfold Cursor.next
  split
  · exact h
  · next token rest hahead =>
    have hall := h.2
    rw [hahead] at hall
    exact ⟨hall token List.mem_cons_self, fun t ht => hall t (List.mem_cons_of_mem token ht)⟩

theorem Cursor.nextId_next (c : Cursor) : c.next.nextId = c.nextId := by
  unfold Cursor.next
  split <;> rfl

theorem Cursor.nextId_ofTokens (tokens : List Token) : (Cursor.ofTokens tokens).nextId = 0 := by
  unfold Cursor.ofTokens
  simp only
  split <;> rfl

theorem Cursor.honest_ofTokens {tokens : List Token} (h : ∀ t ∈ tokens, t.Honest) :
    (Cursor.ofTokens tokens).Honest := by
  have hend : ∀ p, (Token.endAt p).Honest := fun p => Token.honest_of_default rfl
  unfold Cursor.ofTokens
  simp only
  split
  · exact ⟨hend _, fun t ht => nomatch ht⟩
  · next first rest heq =>
    have hall : ∀ t ∈ first :: rest, t.Honest := by
      rw [← heq]
      intro t ht
      rcases List.mem_append.1 ht with ht | ht
      · exact h t ht
      · split at ht
        · rw [List.mem_singleton] at ht; subst ht; exact hend _
        · split at ht
          · cases ht
          · rw [List.mem_singleton] at ht; subst ht; exact hend _
    exact ⟨hall first List.mem_cons_self, fun t ht => hall t (List.mem_cons_of_mem first ht)⟩

/-! ## Stretches of nodes -/

/-- nodes read while the count of literals goes from `m` to `n`: they have the numbers between, and known operators -/
structure Numbered (m n : Nat) (nodes : List Node) : Prop where
  le : m ≤ n
  ids : literalIds nodes = List.range' m (n - m)
  operators : ∀ x ∈ nodes, x.OperatorKnown

theorem Numbered.nil (m : Nat) : Numbered m m [] :=
  ⟨Nat.le_refl m, by simp, fun x hx => nomatch hx⟩

theorem Numbered.append {m k n : Nat} {xs ys : List Node} (hx : Numbered m k xs) (hy : Numbered k n ys) :
    Numbered m n (xs ++ ys) := by
  refine ⟨Nat.le_trans hx.le hy.le, ?_, fun x h => (List.mem_append.1 h).elim (hx.operators x) (hy.operators x)⟩
  have hk : k = m + (k - m) := by have := hx.le; omega
  have hn : (k - m) + (n - k) = n - m := by have := hx.le; have := hy.le; omega
  rw [literalIds_append, hx.ids, hy.ids, ← hn, ← List.range'_append_1, ← hk]

/-- a node that is no literal, before nodes -/
theorem Numbered.cons {m n : Nat} {x : Node} {nodes : List Node} (hx : x.literal? = none) (ho : x.OperatorKnown)
    (h : Numbered m n nodes) : Numbered m n (x :: nodes) := by
  refine ⟨h.le, ?_, fun y hy => ?_⟩
  · rw [literalIds_cons_of_none _ hx]; exact h.ids
  · rcases List.mem_cons.1 hy with rfl | hy
    · exact ho
    · exact h.operators y hy

/-- a literal, which takes the first number, before the nodes in it -/
theorem Numbered.literal {m n : Nat} {x : Node} {nodes : List Node} (hx : x.literal? = some m) (ho : x.OperatorKnown)
    (h : Numbered (m + 1) n nodes) : Numbered m n (x :: nodes) := by
  have hle := h.le
  refine ⟨by omega, ?_, fun y hy => ?_⟩
  · have hn : n - m = (n - (m + 1)) + 1 := by omega
    rw [literalIds_cons_of_some _ hx, h.ids, hn, List.range'_succ]
  · rcases List.mem_cons.1 hy with rfl | hy
    · exact ho
    · exact h.operators y hy

/-! ## Rules -/

namespace Parse

variable {α β : Type}

/-- if reading from `c` succeeds, its result and where it ends are as `Q` says -/
def Ensures (x : Parse α) (c : Cursor) (Q : α → Cursor → Prop) : Prop := ∀ a d, x c = .ok a d → Q a d

/-- nodes were read since the count was `m`, and what is left is honest -/
def Read (m : Nat) (nodes : α → List Node) (a : α) (d : Cursor) : Prop :=
  d.Honest ∧ Numbered m d.nextId (nodes a)

/-- tokens were passed, and no literal was met -/
def Passed (c d : Cursor) : Prop := d.Honest ∧ d.nextId = c.nextId

theorem Passed.trans {c d e : Cursor} (h : Passed c d) (h' : Passed d e) : Passed c e :=
  ⟨h'.1, h'.2.trans h.2⟩

theorem Ensures.bind {x : Parse α} {f : α → Parse β} {c : Cursor} {P : α → Cursor → Prop} {Q : β → Cursor → Prop}
    (hx : Ensures x c P) (hf : ∀ a d, P a d → Ensures (f a) d Q) : Ensures (x >>= f) c Q := by
  intro b e h
  change EStateM.bind x f c = .ok b e at h
  unfold EStateM.bind at h
  cases hxc : x c with
  | error flaw d => rw [hxc] at h; cases h
  | ok a d => rw [hxc] at h; exact hf a d (hx a d hxc) b e h

theorem Ensures.pure {a : α} {c : Cursor} {Q : α → Cursor → Prop} (h : Q a c) : Ensures (pure a : Parse α) c Q := by
  intro b d hb
  cases hb
  exact h

theorem ensures_throw {e : SyntaxError} {c : Cursor} {Q : α → Cursor → Prop} : Ensures (throw e : Parse α) c Q :=
  fun _ _ h => nomatch h

theorem ensures_unexpected {c : Cursor} {Q : α → Cursor → Prop} : Ensures (unexpected : Parse α) c Q :=
  fun _ _ h => nomatch h

theorem ensures_unexpectedDetailed {message : String} {c : Cursor} {Q : α → Cursor → Prop} :
    Ensures (unexpectedDetailed message : Parse α) c Q :=
  fun _ _ h => nomatch h

theorem ensures_get {c : Cursor} : Ensures (get : Parse Cursor) c fun a d => c = a ∧ c = d := by
  intro a d h
  cases h
  exact ⟨rfl, rfl⟩

theorem ensures_kind {c : Cursor} : Ensures kind c fun k d => c.current.kind = k ∧ c = d := by
  intro a d h
  cases h
  exact ⟨rfl, rfl⟩

theorem ensures_spanFrom {c : Cursor} {start : Position} : Ensures (spanFrom start) c fun _ d => c = d := by
  intro a d h
  cases h
  rfl

theorem passed_advance {c : Cursor} (hc : c.Honest) : Ensures advance c fun _ d => Passed c d := by
  intro a d h
  cases h
  exact ⟨Cursor.honest_next hc, Cursor.nextId_next c⟩

theorem passed_expect {c : Cursor} (hc : c.Honest) (k : TokenKind) : Ensures (expect k) c fun _ d => Passed c d := by
  refine ensures_get.bind fun a d h => ?_
  obtain ⟨rfl, rfl⟩ := h
  split
  · exact passed_advance hc
  · exact ensures_unexpected

theorem passed_expectDetailed {c : Cursor} (hc : c.Honest) (k : TokenKind) (message : String) :
    Ensures (expectDetailed k message) c fun _ d => Passed c d := by
  refine ensures_get.bind fun a d h => ?_
  obtain ⟨rfl, rfl⟩ := h
  split
  · exact passed_advance hc
  · exact ensures_unexpectedDetailed

/-! ### Types -/

theorem passed_noteMarks (fuel : Nat) (power : BindingPower) (n : Note) {c : Cursor} (hc : c.Honest) :
    Ensures (noteMarks fuel power n) c fun _ d => Passed c d := by
  induction fuel generalizing n c with
  | zero => exact .pure ⟨hc, rfl⟩
  | succ fuel ih =>
    refine ensures_kind.bind fun k d h => ?_
    obtain ⟨rfl, rfl⟩ := h
    split
    · refine (passed_advance hc).bind fun _ d hd => ?_
      exact fun a e h => hd.trans (ih _ hd.1 a e h)
    · exact .pure ⟨hc, rfl⟩

/-- the rules of types, each with the fuel given, pass tokens only -/
structure NoteRules (fuel : Nat) : Prop where
  within : ∀ power {c : Cursor}, c.Honest → Ensures (noteWithin fuel power) c fun _ d => Passed c d
  head : ∀ {c : Cursor}, c.Honest → Ensures (noteHead fuel) c fun _ d => Passed c d
  items : ∀ {c : Cursor}, c.Honest → Ensures (noteItems fuel) c fun _ d => Passed c d

theorem NoteRules.within_succ {fuel : Nat} (ih : NoteRules fuel) (power : BindingPower) {c : Cursor} (hc : c.Honest) :
    Ensures (noteWithin (fuel + 1) power) c fun _ d => Passed c d := by
  refine (ih.head hc).bind fun n d hd => ?_
  exact fun a e h => hd.trans (passed_noteMarks fuel power n hd.1 a e h)

theorem NoteRules.head_succ {fuel : Nat} (ih : NoteRules fuel) {c : Cursor} (hc : c.Honest) :
    Ensures (noteHead (fuel + 1)) c fun _ d => Passed c d := by
  refine ensures_kind.bind fun k d h => ?_
  obtain ⟨rfl, rfl⟩ := h
  split
  · exact (passed_advance hc).bind fun _ d hd => .pure hd
  · refine (passed_advance hc).bind fun _ d hd => ?_
    refine (ih.within .default hd.1).bind fun _ d' hd' => ?_
    refine (passed_expect hd'.1 _).bind fun _ d'' hd'' => ?_
    exact .pure (hd.trans (hd'.trans hd''))
  · refine (passed_advance hc).bind fun _ d hd => ?_
    refine (ih.items hd.1).bind fun _ d' hd' => ?_
    refine (passed_expect hd'.1 _).bind fun _ d'' hd'' => ?_
    have h2 := hd.trans (hd'.trans hd'')
    refine ensures_kind.bind fun k e h => ?_
    obtain ⟨rfl, rfl⟩ := h
    split
    · refine (passed_advance h2.1).bind fun _ f hf => ?_
      refine (ih.within .default hf.1).bind fun _ f' hf' => ?_
      exact .pure (h2.trans (hf.trans hf'))
    · exact .pure h2
  · exact ensures_unexpected

theorem NoteRules.items_succ {fuel : Nat} (ih : NoteRules fuel) {c : Cursor} (hc : c.Honest) :
    Ensures (noteItems (fuel + 1)) c fun _ d => Passed c d := by
  refine ensures_kind.bind fun k d h => ?_
  obtain ⟨rfl, rfl⟩ := h
  split
  · exact .pure ⟨hc, rfl⟩
  · refine (ih.within .default hc).bind fun n d hd => ?_
    refine ensures_kind.bind fun k e h => ?_
    obtain ⟨rfl, rfl⟩ := h
    have items {f : Cursor} (hf : Passed c f) :
        Ensures (do return n :: (← noteItems fuel)) f fun _ d => Passed c d :=
      (ih.items hf.1).bind fun _ g hg => .pure (hf.trans hg)
    split
    · exact (passed_advance hd.1).bind fun _ f hf => items (hd.trans hf)
    · exact items hd

theorem noteRules (fuel : Nat) : NoteRules fuel := by
  induction fuel with
  | zero => exact ⟨fun _ _ _ => ensures_unexpected, fun _ => ensures_unexpected, fun _ => ensures_unexpected⟩
  | succ fuel ih => exact ⟨ih.within_succ, ih.head_succ, ih.items_succ⟩

theorem passed_note (power : BindingPower) {c : Cursor} (hc : c.Honest) :
    Ensures (note power) c fun _ d => Passed c d := by
  refine ensures_get.bind fun a d h => ?_
  obtain ⟨rfl, rfl⟩ := h
  exact (noteRules _).within power hc

/-! ### Parts without literals -/

theorem annotation_passed {c : Cursor} (hc : c.Honest) : Ensures annotation c fun _ d => Passed c d := by
  refine ensures_kind.bind fun k d h => ?_
  obtain ⟨rfl, rfl⟩ := h
  split
  · refine (passed_advance hc).bind fun _ d hd => ?_
    exact (passed_note _ hd.1).bind fun _ e he => .pure (hd.trans he)
  · exact .pure ⟨hc, rfl⟩

theorem passed_separator (close : TokenKind) {c : Cursor} (hc : c.Honest) :
    Ensures (separator close) c fun _ d => Passed c d := by
  refine ensures_kind.bind fun k d h => ?_
  obtain ⟨rfl, rfl⟩ := h
  split
  · exact (passed_advance hc).bind fun _ d hd => .pure hd
  · refine ensures_kind.bind fun k d h => ?_
    obtain ⟨rfl, rfl⟩ := h
    split
    · exact ensures_unexpected
    · exact .pure ⟨hc, rfl⟩

theorem passed_params (fuel : Nat) {c : Cursor} (hc : c.Honest) : Ensures (params fuel) c fun _ d => Passed c d := by
  induction fuel generalizing c with
  | zero => exact ensures_unexpected
  | succ fuel ih =>
    refine ensures_kind.bind fun k d h => ?_
    obtain ⟨rfl, rfl⟩ := h
    split
    · exact .pure ⟨hc, rfl⟩
    · refine (passed_expectDetailed hc _ _).bind fun _ d hd => ?_
      refine (passed_expect hd.1 _).bind fun _ e he => ?_
      refine (passed_note _ he.1).bind fun _ f hf => ?_
      refine ensures_spanFrom.bind fun _ g hg => ?_
      subst hg
      refine (passed_separator _ hf.1).bind fun _ g hg => ?_
      exact (ih hg.1).bind fun _ j hj => .pure (hd.trans (he.trans (hf.trans (hg.trans hj))))

theorem passed_useNames (fuel : Nat) {c : Cursor} (hc : c.Honest) :
    Ensures (useNames fuel) c fun _ d => Passed c d := by
  induction fuel generalizing c with
  | zero => exact ensures_unexpected
  | succ fuel ih =>
    refine ensures_kind.bind fun k d h => ?_
    obtain ⟨rfl, rfl⟩ := h
    split
    · exact .pure ⟨hc, rfl⟩
    · refine (passed_expect hc _).bind fun _ d hd => ?_
      refine (passed_separator _ hd.1).bind fun _ e he => ?_
      exact (ih he.1).bind fun _ f hf => .pure (hd.trans (he.trans hf))

theorem passed_useFilter {c : Cursor} (hc : c.Honest) : Ensures useFilter c fun _ d => Passed c d := by
  refine ensures_kind.bind fun k d h => ?_
  obtain ⟨rfl, rfl⟩ := h
  split
  · refine (passed_advance hc).bind fun _ d hd => ?_
    refine ensures_get.bind fun a e h => ?_
    obtain ⟨rfl, rfl⟩ := h
    refine (passed_useNames _ hd.1).bind fun _ e he => ?_
    exact (passed_expect he.1 _).bind fun _ f hf => .pure (hd.trans (he.trans hf))
  · exact .pure ⟨hc, rfl⟩

/-- an expression of one token has no literal in it -/
theorem read_primary {c : Cursor} (hc : c.Honest) : Ensures primary c (Read c.nextId Expr.nodes) := by
  have leaf {e : Expr} (hl : ∀ m, Numbered m m e.nodes) :
      Ensures (do let _ ← advance; return e) c (Read c.nextId Expr.nodes) :=
    (passed_advance hc).bind fun _ d hd => .pure ⟨hd.1, hd.2 ▸ hl c.nextId⟩
  have single {e : Expr} (h : e.nodes = [.expr e]) (hn : (Node.expr e).literal? = none)
      (ho : (Node.expr e).OperatorKnown) (m : Nat) : Numbered m m e.nodes :=
    h ▸ (Numbered.nil m).cons hn ho
  refine ensures_get.bind fun a d h => ?_
  obtain ⟨rfl, rfl⟩ := h
  dsimp only
  split
  · split
    · exact leaf (single (by rw [Expr.nodes]) rfl trivial)
    · exact ensures_throw
  · exact leaf (single (by rw [Expr.nodes]) rfl trivial)
  · exact leaf (single (by rw [Expr.nodes]) rfl trivial)
  · exact leaf (single (by rw [Expr.nodes]) rfl trivial)
  · exact leaf (single (by rw [Expr.nodes]) rfl trivial)
  · exact leaf (single (by rw [Expr.nodes]) rfl trivial)
  · exact ensures_unexpected

/-! ### Expressions and statements -/

/-- the rules of expressions and statements, each with the fuel given, number the literals they read -/
structure Rules (fuel : Nat) : Prop where
  expr : ∀ power {c : Cursor}, c.Honest → Ensures (exprWithin fuel power) c (Read c.nextId Expr.nodes)
  operand : ∀ {c : Cursor}, c.Honest → Ensures (operand fuel) c (Read c.nextId Expr.nodes)
  tail : ∀ power {m : Nat} {left : Expr} {c : Cursor}, Read m Expr.nodes left c →
    Ensures (exprTail fuel power left) c (Read m Expr.nodes)
  items : ∀ close {c : Cursor}, c.Honest → Ensures (exprItems fuel close) c (Read c.nextId Expr.nodesOf)
  literal : ∀ {c : Cursor}, c.Honest → Ensures (functionLiteral fuel) c (Read c.nextId Expr.nodes)
  declaration : ∀ {c : Cursor}, c.Honest → Ensures (declaration fuel) c (Read c.nextId Declaration.nodes)
  stmt : ∀ {c : Cursor}, c.Honest → Ensures (stmtWithin fuel) c (Read c.nextId Stmt.nodes)
  block : ∀ {c : Cursor}, c.Honest → Ensures (blockWithin fuel) c (Read c.nextId Block.nodes)
  body : ∀ {c : Cursor}, c.Honest → Ensures (blockBody fuel) c (Read c.nextId Stmt.nodesOf)

/-- nodes read after tokens were passed -/
theorem Read.after {m : Nat} {nodes : α → List Node} {a : α} {c d e : Cursor} (hp : Passed c d)
    (h : Read d.nextId nodes a e) (hm : c.nextId = m) : Read m nodes a e := by
  rw [hp.2, hm] at h
  exact h

/-- tokens passed after nodes were read -/
theorem Read.passed {m : Nat} {nodes : α → List Node} {a : α} {d e : Cursor} (h : Read m nodes a d)
    (hp : Passed d e) : Read m nodes a e :=
  ⟨hp.1, hp.2 ▸ h.2⟩

theorem Rules.expr_succ {fuel : Nat} (ih : Rules fuel) (power : BindingPower) {c : Cursor} (hc : c.Honest) :
    Ensures (exprWithin (fuel + 1) power) c (Read c.nextId Expr.nodes) :=
  (ih.operand hc).bind fun _ _ hd => ih.tail power hd

theorem Rules.operand_succ {fuel : Nat} (ih : Rules fuel) {c : Cursor} (hc : c.Honest) :
    Ensures (Parse.operand (fuel + 1)) c (Read c.nextId Expr.nodes) := by
  refine ensures_kind.bind fun k d h => ?_
  obtain ⟨rfl, rfl⟩ := h
  split
  · exact ih.literal hc
  · refine (passed_advance hc).bind fun _ d hd => ?_
    refine (ih.items _ hd.1).bind fun items e he => ?_
    refine (passed_expect he.1 _).bind fun _ f hf => ?_
    refine ensures_spanFrom.bind fun _ g hg => ?_
    subst hg
    refine .pure ⟨hf.1, ?_⟩
    rw [Expr.nodes]
    exact ((Read.after hd he rfl).passed hf).2.cons rfl trivial
  · refine (passed_advance hc).bind fun _ d hd => ?_
    refine (ih.expr _ hd.1).bind fun e e' he => ?_
    refine (passed_expect he.1 _).bind fun _ f hf => ?_
    exact .pure ((Read.after hd he rfl).passed hf)
  · exact read_primary hc

/-- a token that may follow an operand, and is none of the marks with a rule of their own, is an operator's -/
theorem operator_of_honest {t : Token} {power : BindingPower} (ht : t.Honest)
    (hp : power.weaker (BindingPower.ofToken t.kind) = true) (hassign : t.kind ≠ .assignment)
    (hparen : t.kind ≠ .openParen) (hbracket : t.kind ≠ .openBracket) : ∃ o, BinaryOp.ofText? t.value = some o := by
  rcases ht with h | h
  · cases hk : t.kind <;> simp_all [BindingPower.ofToken, BindingPower.weaker, BindingPower.rank]
  · exact h

theorem Rules.tail_succ {fuel : Nat} (ih : Rules fuel) (power : BindingPower) {m : Nat} {left : Expr} {c : Cursor}
    (hleft : Read m Expr.nodes left c) : Ensures (exprTail (fuel + 1) power left) c (Read m Expr.nodes) := by
  have hc := hleft.1
  refine ensures_get.bind fun a d h => ?_
  obtain ⟨rfl, rfl⟩ := h
  dsimp only
  split
  · next hpower =>
    refine (passed_advance hc).bind fun _ d hd => ?_
    have hleft' := (hleft.passed hd).2
    split
    · refine (ih.expr _ hd.1).bind fun value e he => ih.tail power ⟨he.1, ?_⟩
      rw [Expr.nodes]
      exact (hleft'.append he.2).cons rfl trivial
    · refine (ih.items _ hd.1).bind fun arguments e he => ?_
      refine (passed_expect he.1 _).bind fun _ f hf => ?_
      refine ensures_spanFrom.bind fun _ g hg => ?_
      subst hg
      refine ih.tail power ⟨hf.1, ?_⟩
      rw [Expr.nodes]
      exact (hleft'.append (he.passed hf).2).cons rfl trivial
    · refine (ih.expr _ hd.1).bind fun index e he => ?_
      refine (passed_expect he.1 _).bind fun _ f hf => ?_
      refine ensures_spanFrom.bind fun _ g hg => ?_
      subst hg
      refine ih.tail power ⟨hf.1, ?_⟩
      rw [Expr.nodes]
      exact (hleft'.append (he.passed hf).2).cons rfl trivial
    · next hassign hparen hbracket =>
      refine (ih.expr _ hd.1).bind fun right e he => ih.tail power ⟨he.1, ?_⟩
      rw [Expr.nodes]
      exact (hleft'.append he.2).cons rfl (operator_of_honest hc.1 hpower hassign hparen hbracket)
  · exact .pure hleft

theorem Rules.items_succ {fuel : Nat} (ih : Rules fuel) (close : TokenKind) {c : Cursor} (hc : c.Honest) :
    Ensures (exprItems (fuel + 1) close) c (Read c.nextId Expr.nodesOf) := by
  refine ensures_kind.bind fun k d h => ?_
  obtain ⟨rfl, rfl⟩ := h
  split
  · refine .pure ⟨hc, ?_⟩
    rw [Expr.nodesOf]
    exact Numbered.nil _
  · refine (ih.expr _ hc).bind fun item d hd => ?_
    refine (passed_separator _ hd.1).bind fun _ e he => ?_
    refine (ih.items close he.1).bind fun items f hf => .pure ⟨hf.1, ?_⟩
    rw [Expr.nodesOf]
    exact (hd.passed he).2.append hf.2

theorem Rules.literal_succ {fuel : Nat} (ih : Rules fuel) {c : Cursor} (hc : c.Honest) :
    Ensures (functionLiteral (fuel + 1)) c (Read c.nextId Expr.nodes) := by
  have hfresh {d : Cursor} (hd : d.Honest) :
      Ensures freshId d fun id e => id = d.nextId ∧ e.Honest ∧ e.nextId = d.nextId + 1 := by
    intro a e h
    cases h
    exact ⟨rfl, hd, rfl⟩
  refine (passed_advance hc).bind fun _ d hd => ?_
  refine (hfresh hd.1).bind fun id e he => ?_
  obtain ⟨rfl, he, hnext⟩ := he
  refine (passed_expect he _).bind fun _ f hf => ?_
  refine ensures_get.bind fun a g h => ?_
  obtain ⟨rfl, rfl⟩ := h
  refine (passed_params _ hf.1).bind fun parameters g hg => ?_
  refine (passed_expect hg.1 _).bind fun _ j hj => ?_
  refine (annotation_passed hj.1).bind fun result k hk => ?_
  refine (ih.block hk.1).bind fun body l hl => ?_
  refine ensures_spanFrom.bind fun _ l' h => ?_
  subst h
  have hpassed : Passed e k := hf.trans (hg.trans (hj.trans hk))
  have hbody := (Read.after hpassed hl hnext).2
  refine .pure ⟨hl.1, ?_⟩
  rw [hd.2] at hbody ⊢
  rw [Expr.nodes]
  exact hbody.literal rfl trivial

theorem Rules.declaration_succ {fuel : Nat} (ih : Rules fuel) {c : Cursor} (hc : c.Honest) :
    Ensures (Parse.declaration (fuel + 1)) c (Read c.nextId Declaration.nodes) := by
  refine (passed_expect hc _).bind fun _ d hd => ?_
  refine (passed_expectDetailed hd.1 _ _).bind fun _ e he => ?_
  refine (annotation_passed he.1).bind fun _ f hf => ?_
  refine (passed_expectDetailed hf.1 _ _).bind fun _ g hg => ?_
  refine (ih.expr _ hg.1).bind fun value j hj => ?_
  refine (passed_expect hj.1 _).bind fun _ k hk => ?_
  refine ensures_spanFrom.bind fun _ k' h => ?_
  subst h
  have hpassed : Passed c g := hd.trans (he.trans (hf.trans hg))
  refine .pure ⟨hk.1, ?_⟩
  rw [Declaration.nodes]
  exact ((Read.after hpassed hj rfl).passed hk).2

theorem Rules.stmt_succ {fuel : Nat} (ih : Rules fuel) {c : Cursor} (hc : c.Honest) :
    Ensures (stmtWithin (fuel + 1)) c (Read c.nextId Stmt.nodes) := by
  refine ensures_kind.bind fun k d h => ?_
  obtain ⟨rfl, rfl⟩ := h
  split
  · refine (ih.declaration hc).bind fun d e he => .pure ⟨he.1, ?_⟩
    rw [Stmt.nodes]
    exact he.2.cons rfl trivial
  · refine (passed_advance hc).bind fun _ d hd => ?_
    refine (ih.expr _ hd.1).bind fun condition e he => ?_
    refine (ih.block he.1).bind fun body f hf => ?_
    refine ensures_spanFrom.bind fun _ f' h => ?_
    subst h
    refine .pure ⟨hf.1, ?_⟩
    rw [Stmt.nodes]
    exact ((Read.after hd he rfl).2.append hf.2).cons rfl trivial
  · refine (passed_advance hc).bind fun _ d hd => ?_
    refine ensures_kind.bind fun k d' h => ?_
    obtain ⟨rfl, rfl⟩ := h
    split
    · refine (passed_advance hd.1).bind fun _ e he => ?_
      refine ensures_spanFrom.bind fun _ e' h => ?_
      subst h
      have hnext : e.nextId = c.nextId := (hd.trans he).2
      refine .pure ⟨he.1, ?_⟩
      rw [Stmt.nodes, hnext]
      exact (Numbered.nil _).cons rfl trivial
    · refine (ih.expr _ hd.1).bind fun value e he => ?_
      refine (passed_expect he.1 _).bind fun _ f hf => ?_
      refine ensures_spanFrom.bind fun _ f' h => ?_
      subst h
      refine .pure ⟨hf.1, ?_⟩
      rw [Stmt.nodes]
      exact ((Read.after hd he rfl).passed hf).2.cons rfl trivial
  · refine (passed_advance hc).bind fun _ d hd => ?_
    refine ensures_kind.bind fun k d' h => ?_
    obtain ⟨rfl, rfl⟩ := h
    split
    · exact ensures_unexpectedDetailed
    · refine (ih.declaration hd.1).bind fun declared e he => ?_
      refine ensures_spanFrom.bind fun _ e' h => ?_
      subst h
      refine .pure ⟨he.1, ?_⟩
      rw [Stmt.nodes]
      exact (Read.after hd he rfl).2.cons rfl trivial
  · refine (passed_advance hc).bind fun _ d hd => ?_
    refine (passed_expectDetailed hd.1 _ _).bind fun _ e he => ?_
    refine (passed_useFilter he.1).bind fun _ f hf => ?_
    refine (passed_expect hf.1 _).bind fun _ g hg => ?_
    refine ensures_spanFrom.bind fun _ g' h => ?_
    subst h
    have hnext : g.nextId = c.nextId := (hd.trans (he.trans (hf.trans hg))).2
    refine .pure ⟨hg.1, ?_⟩
    rw [Stmt.nodes, hnext]
    exact (Numbered.nil _).cons rfl trivial
  · refine (ih.expr _ hc).bind fun e d hd => ?_
    refine (passed_expect hd.1 _).bind fun _ f hf => ?_
    refine ensures_spanFrom.bind fun _ f' h => ?_
    subst h
    refine .pure ⟨hf.1, ?_⟩
    rw [Stmt.nodes]
    exact (hd.passed hf).2.cons rfl trivial

theorem Rules.block_succ {fuel : Nat} (ih : Rules fuel) {c : Cursor} (hc : c.Honest) :
    Ensures (blockWithin (fuel + 1)) c (Read c.nextId Block.nodes) := by
  refine (passed_expect hc _).bind fun _ d hd => ?_
  refine (ih.body hd.1).bind fun body e he => ?_
  refine (passed_expect he.1 _).bind fun _ f hf => ?_
  refine ensures_spanFrom.bind fun _ f' h => ?_
  subst h
  refine .pure ⟨hf.1, ?_⟩
  rw [Block.nodes]
  exact ((Read.after hd he rfl).passed hf).2

theorem Rules.body_succ {fuel : Nat} (ih : Rules fuel) {c : Cursor} (hc : c.Honest) :
    Ensures (blockBody (fuel + 1)) c (Read c.nextId Stmt.nodesOf) := by
  refine ensures_kind.bind fun k d h => ?_
  obtain ⟨rfl, rfl⟩ := h
  split
  · refine .pure ⟨hc, ?_⟩
    rw [Stmt.nodesOf]
    exact Numbered.nil _
  · exact ensures_unexpected
  · refine (ih.stmt hc).bind fun s d hd => ?_
    refine (ih.body hd.1).bind fun rest e he => .pure ⟨he.1, ?_⟩
    rw [Stmt.nodesOf]
    exact hd.2.append he.2

theorem rules (fuel : Nat) : Rules fuel := by
  induction fuel with
  | zero =>
    exact ⟨fun _ _ _ => ensures_unexpected, fun _ => ensures_unexpected, fun _ {_ _ _} _ => ensures_unexpected,
      fun _ _ _ => ensures_unexpected, fun _ => ensures_unexpected, fun _ => ensures_unexpected,
      fun _ => ensures_unexpected, fun _ => ensures_unexpected, fun _ => ensures_unexpected⟩
  | succ fuel ih =>
    exact ⟨ih.expr_succ, ih.operand_succ, ih.tail_succ, ih.items_succ, ih.literal_succ, ih.declaration_succ,
      ih.stmt_succ, ih.block_succ, ih.body_succ⟩

/-! ## Modules -/

theorem read_stmts (fuel : Nat) {c : Cursor} (hc : c.Honest) : Ensures (stmts fuel) c (Read c.nextId Stmt.nodesOf) := by
  induction fuel generalizing c with
  | zero => exact ensures_unexpected
  | succ fuel ih =>
    refine ensures_kind.bind fun k d h => ?_
    obtain ⟨rfl, rfl⟩ := h
    split
    · refine .pure ⟨hc, ?_⟩
      rw [Stmt.nodesOf]
      exact Numbered.nil _
    · have hstmt : Ensures stmt c (Read c.nextId Stmt.nodes) := by
        refine ensures_get.bind fun a d h => ?_
        obtain ⟨rfl, rfl⟩ := h
        exact (rules _).stmt hc
      refine hstmt.bind fun s d hd => ?_
      refine (ih hd.1).bind fun rest e he => .pure ⟨he.1, ?_⟩
      rw [Stmt.nodesOf]
      exact hd.2.append he.2

theorem read_module {c : Cursor} (hc : c.Honest) : Ensures module c (Read c.nextId Block.nodes) := by
  refine ensures_get.bind fun a d h => ?_
  obtain ⟨rfl, rfl⟩ := h
  refine (read_stmts _ hc).bind fun body d hd => ?_
  refine ensures_spanFrom.bind fun _ d' h => ?_
  subst h
  refine .pure ⟨hd.1, ?_⟩
  rw [Block.nodes]
  exact hd.2

end Parse

theorem parseTokens_eq_ok_iff {tokens : List Token} {ast : Block} :
    parseTokens tokens = .ok ast ↔ ∃ c, Parse.module (.ofTokens tokens) = .ok ast c := by
  unfold parseTokens EStateM.run
  cases Parse.module (.ofTokens tokens) <;> simp

theorem parseTokens_eq_error_iff {tokens : List Token} {e : SyntaxError} :
    parseTokens tokens = .error e ↔ ∃ c, Parse.module (.ofTokens tokens) = .error e c := by
  unfold parseTokens EStateM.run
  cases Parse.module (.ofTokens tokens) <;> simp

theorem parse_of_tokenize {source : String} {tokens : List Token} (h : tokenize source = .ok tokens) :
    parse source = parseTokens tokens := by
  rw [parse, h]
  rfl

theorem parse_eq_ok_iff {source : String} {ast : Block} :
    parse source = .ok ast ↔ ∃ tokens c, tokenize source = .ok tokens ∧
    Parse.module (.ofTokens tokens) = .ok ast c := by
  constructor
  · intro h
    cases htokens : tokenize source with
    | error e => rw [parse, htokens] at h; cases h
    | ok tokens =>
      rw [parse_of_tokenize htokens] at h
      obtain ⟨c, hmodule⟩ := parseTokens_eq_ok_iff.1 h
      exact ⟨tokens, c, rfl, hmodule⟩
  · rintro ⟨tokens, c, htokens, hmodule⟩
    rw [parse_of_tokenize htokens]
    exact parseTokens_eq_ok_iff.2 ⟨c, hmodule⟩

theorem numbered_of_parse {source : String} {body : Block} (h : parse source = .ok body) :
    ∃ n, Numbered 0 n body.nodes := by
  obtain ⟨tokens, c, htokens, hmodule⟩ := parse_eq_ok_iff.1 h
  have hread := Parse.read_module (Cursor.honest_ofTokens (tokenize_honest htokens)) body c hmodule
  rw [Cursor.nextId_ofTokens] at hread
  exact ⟨c.nextId, hread.2⟩

/-- the function literals of a text have the numbers from zero on, in the order of the text -/
theorem parse_numbered {source : String} {body : Block} (h : parse source = .ok body) :
    ∃ n, literalIds body.nodes = List.range n := by
  obtain ⟨n, hn⟩ := numbered_of_parse h
  exact ⟨n, by rw [hn.ids, Nat.sub_zero, List.range_eq_range']⟩

/-- no two function literals of a text have one number -/
theorem nodup_literalIds_of_parse {source : String} {body : Block} (h : parse source = .ok body) :
    (literalIds body.nodes).Nodup := by
  obtain ⟨n, hn⟩ := parse_numbered h
  rw [hn]
  exact List.nodup_range

/-- the machine knows every operator of a text -/
theorem parse_operators {source : String} {body : Block} (h : parse source = .ok body) :
    ∀ x ∈ body.nodes, x.OperatorKnown := by
  obtain ⟨n, hn⟩ := numbered_of_parse h
  exact hn.operators

end TypedScript
