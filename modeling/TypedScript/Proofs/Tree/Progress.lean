/-
Reading always moves on. Whatever tokens it is given, what reads a statement, an expression, a type or a block passes a
token at least and never the end of the text, so that no rule can go round without moving. The parser nests its rules
only so deep as the tokens left call for, and fails where it would go deeper. `reading_progresses` says that it never
would: however the rules would go on below that depth, the answer is the parser's.

Two things are carried through every rule at once, from the cursor where it starts (`Agree`): with its parts read by
turns of the rules without a limit, it answers as the parser does, and a success leads the cursor on. A rule asks for a
part at the place where it started only if the part is one of those that it may start with, and eight turns for every
token, less a few by the kind of rule, are enough for that (`Covers`).

- `Cursor.Leads`, `Cursor.Passes`: where a cursor comes to before the end of the text.
- `Parse.nested_agrees`: turns of the rules and the parser agree on every rule.
- `reading_progresses`: statements, expressions, types, blocks and modules, from any place in any tokens.
-/
import TypedScript.Proofs.Tree.Reading
import TypedScript.Proofs.Tree.Readers

namespace TypedScript

/-! ## Cursors -/

namespace Cursor

variable {c d e : Cursor}

/-- the tokens from the cursor on -/
def tokens (c : Cursor) : List Token := c.current :: c.ahead

/-- an end of the text is at the cursor or behind it -/
def Ended (c : Cursor) : Prop := ∃ t ∈ c.tokens, t.kind = .endOfText

/-- from `c` to `d` tokens are passed that do not end the text -/
def Leads (c d : Cursor) : Prop := ∃ used, c.tokens = used ++ d.tokens ∧ ∀ t ∈ used, t.kind ≠ .endOfText

/-- from `c` to `d` one token is passed at least, and none of them ends the text -/
def Passes (c d : Cursor) : Prop := c.Leads d ∧ d.remaining < c.remaining

theorem one_le_remaining (c : Cursor) : 1 ≤ c.remaining := Nat.le_add_left 1 _

theorem length_tokens (c : Cursor) : c.tokens.length = c.remaining := rfl

theorem Leads.refl (c : Cursor) : c.Leads c := ⟨[], rfl, fun _ h => nomatch h⟩

theorem Leads.trans (h : c.Leads d) (h' : d.Leads e) : c.Leads e := by
  obtain ⟨used, hc, hused⟩ := h
  obtain ⟨more, hd, hmore⟩ := h'
  refine ⟨used ++ more, by rw [hc, hd, List.append_assoc], fun t ht => ?_⟩
  exact (List.mem_append.1 ht).elim (hused t) (hmore t)

theorem Leads.remaining_le (h : c.Leads d) : d.remaining ≤ c.remaining := by
  obtain ⟨used, hc, _⟩ := h
  rw [← length_tokens, ← length_tokens, hc, List.length_append]
  exact Nat.le_add_left _ _

theorem Leads.ended (h : c.Leads d) (hc : c.Ended) : d.Ended := by
  obtain ⟨used, htokens, hused⟩ := h
  obtain ⟨t, ht, hkind⟩ := hc
  rw [htokens] at ht
  exact ⟨t, (List.mem_append.1 ht).resolve_left fun h => hused t h hkind, hkind⟩

theorem Passes.trans_leads (h : c.Passes d) (h' : d.Leads e) : c.Passes e :=
  ⟨h.1.trans h', Nat.lt_of_le_of_lt h'.remaining_le h.2⟩

end Cursor

/-! ## Readings that agree -/

namespace Parse

variable {α β : Type} {c d : Cursor}

/-- two readings from `c` come to the same, and a result and where it ends are as `Q` says -/
def Agree (x y : Parse α) (c : Cursor) (Q : α → Cursor → Prop) : Prop := x c = y c ∧ Ensures y c Q

theorem Ensures.agree {x : Parse α} {Q : α → Cursor → Prop} (h : Ensures x c Q) : Agree x x c Q := ⟨rfl, h⟩

theorem Agree.imp {x y : Parse α} {P Q : α → Cursor → Prop} (h : Agree x y c P) (hPQ : ∀ a d, P a d → Q a d) :
    Agree x y c Q :=
  ⟨h.1, fun a d hy => hPQ a d (h.2 a d hy)⟩

theorem Agree.bind {x y : Parse α} {f g : α → Parse β} {P : α → Cursor → Prop} {Q : β → Cursor → Prop}
    (hx : Agree x y c P) (hf : ∀ a d, P a d → Agree (f a) (g a) d Q) : Agree (x >>= f) (y >>= g) c Q := by
  refine ⟨?_, hx.2.bind fun a d hP => (hf a d hP).2⟩
  change EStateM.bind x f c = EStateM.bind y g c
  unfold EStateM.bind
  rw [hx.1]
  cases hy : y c with
  | error flaw d => rfl
  | ok a d => exact (hf a d (hx.2 a d hy)).1

theorem Agree.pure {a : α} {Q : α → Cursor → Prop} (h : Q a c) : Agree (pure a) (pure a) c Q := (Ensures.pure h).agree

/-- the other reading may look at its cursor first -/
theorem Agree.of_get {x : Parse α} {f : Cursor → Parse α} {Q : α → Cursor → Prop} (h : Agree x (f c) c Q) :
    Agree x (get >>= f) c Q := h

theorem Agree.ite {p : Prop} [Decidable p] {x y x' y' : Parse α} {Q : α → Cursor → Prop} (h : p → Agree x y c Q)
    (h' : ¬ p → Agree x' y' c Q) : Agree (if p then x else x') (if p then y else y') c Q := by
  by_cases hp : p
  · rw [if_pos hp, if_pos hp]
    exact h hp
  · rw [if_neg hp, if_neg hp]
    exact h' hp

/-! ### Tokens -/

theorem passes_advance (hc : c.Ended) (hkind : c.current.kind ≠ .endOfText) :
    Ensures advance c fun _ d => c.Passes d := by
  intro t d h
  cases h
  have hahead : c.ahead ≠ [] := by
    intro hnil
    obtain ⟨t, ht, hend⟩ := hc
    rw [Cursor.tokens, hnil, List.mem_singleton] at ht
    exact hkind (ht ▸ hend)
  obtain ⟨token, rest, hcons⟩ := List.exists_cons_of_ne_nil hahead
  have hlt := Cursor.remaining_next hahead
  refine ⟨⟨[c.current], ?_, fun t ht => List.mem_singleton.1 ht ▸ hkind⟩, by omega⟩
  rw [Cursor.tokens, Cursor.tokens, Cursor.next, hcons]
  rfl

theorem passes_expect {k : TokenKind} (hc : c.Ended) (hk : k ≠ .endOfText) :
    Ensures (expect k) c fun _ d => c.Passes d := by
  refine ensures_get.bind fun a d h => ?_
  obtain ⟨rfl, rfl⟩ := h
  split
  · next heq => exact passes_advance hc (heq ▸ hk)
  · exact ensures_unexpected

theorem passes_expectDetailed {k : TokenKind} {message : String} (hc : c.Ended) (hk : k ≠ .endOfText) :
    Ensures (expectDetailed k message) c fun _ d => c.Passes d := by
  refine ensures_get.bind fun a d h => ?_
  obtain ⟨rfl, rfl⟩ := h
  split
  · next heq => exact passes_advance hc (heq ▸ hk)
  · exact ensures_unexpectedDetailed

theorem leads_freshId : Ensures freshId c fun _ d => c.Leads d := by
  intro a d h
  cases h
  exact Cursor.Leads.refl c

theorem leads_separator {close : TokenKind} (hc : c.Ended) : Ensures (separator close) c fun _ d => c.Leads d := by
  refine ensures_kind.bind fun k d h => ?_
  obtain ⟨rfl, rfl⟩ := h
  split
  · next hcomma => exact (passes_advance hc (by rw [hcomma]; decide)).bind fun _ d hd => .pure hd.1
  · refine ensures_kind.bind fun k d h => ?_
    obtain ⟨rfl, rfl⟩ := h
    split
    · exact ensures_unexpected
    · exact .pure (Cursor.Leads.refl c)

theorem passes_primary (hc : c.Ended) : Ensures primary c fun _ d => c.Passes d := by
  have leaf {e : Expr} (hkind : c.current.kind ≠ .endOfText) :
      Ensures (do let _ ← advance; return e) c fun _ d => c.Passes d :=
    (passes_advance hc hkind).bind fun _ d hd => .pure hd
  refine ensures_get.bind fun a d h => ?_
  obtain ⟨rfl, rfl⟩ := h
  dsimp only
  split
  · next hkind =>
    split
    · exact leaf (by rw [hkind]; decide)
    · exact ensures_throw
  · next hkind => exact leaf (by rw [hkind]; decide)
  · next hkind => exact leaf (by rw [hkind]; decide)
  · next hkind => exact leaf (by rw [hkind]; decide)
  · next hkind => exact leaf (by rw [hkind]; decide)
  · next hkind => exact leaf (by rw [hkind]; decide)
  · exact ensures_unexpected

/-! ### Turns and steps -/

/-- turns of the rules and steps of the parser that are enough for what is left from `c`, less a few -/
structure Covers (short turns steps : Nat) (c : Cursor) : Prop where
  ended : c.Ended
  few : short ≤ 7
  turns : 8 * c.remaining ≤ turns + short
  steps : 8 * c.remaining ≤ steps + short

variable {short short' n m : Nat}

theorem Covers.exists_succ (h : Covers short n m c) : (∃ n', n = n' + 1) ∧ ∃ m', m = m' + 1 := by
  have hone := Cursor.one_le_remaining c
  have hfew := h.few
  have hturns := h.turns
  have hsteps := h.steps
  exact ⟨⟨n - 1, by omega⟩, m - 1, by omega⟩

/-- a part that a rule starts with, or asks for where it may not have moved -/
theorem Covers.leads (h : Covers short (n + 1) (m + 1) c) (hd : c.Leads d)
    (hshort : short < short') (hfew : short' ≤ 7) :
    Covers short' n m d := by
  have hle := hd.remaining_le
  have hturns := h.turns
  have hsteps := h.steps
  exact ⟨hd.ended h.ended, hfew, by omega, by omega⟩

/-- a part that a rule asks for after a token was passed -/
theorem Covers.passes (h : Covers short (n + 1) (m + 1) c) (hd : c.Passes d) (hfew : short' ≤ 7) :
    Covers short' n m d := by
  have hlt := hd.2
  have hshort := h.few
  have hturns := h.turns
  have hsteps := h.steps
  exact ⟨hd.1.ended h.ended, hfew, by omega, by omega⟩

theorem Covers.further (h : Covers short n m c) (hd : c.Passes d) (hfew : short' ≤ 7) : Covers short' n m d := by
  have hlt := hd.2
  have hshort := h.few
  have hturns := h.turns
  have hsteps := h.steps
  exact ⟨hd.1.ended h.ended, hfew, by omega, by omega⟩

/-- a part that the parser takes up with steps of its own -/
theorem Covers.restart (h : Covers short n m c) : Covers short n c.depth c :=
  ⟨h.ended, h.few, h.turns, Nat.le_add_right _ _⟩

/-! ## Rules -/

/-- what `r` has for each part answers as the parser does where `n` turns are enough, and leads on -/
structure Agrees (r : Readers) (n : Nat) : Prop where
  marks : ∀ {m : Nat} {c : Cursor} (power : BindingPower) (note : Note), Covers 7 n m c →
    Agree (r.marks power note) (noteMarks m power note) c fun _ d => c.Leads d
  note : ∀ {m : Nat} {c : Cursor} (power : BindingPower), Covers 5 n m c →
    Agree (r.note power) (noteWithin m power) c fun _ d => c.Passes d
  head : ∀ {m : Nat} {c : Cursor}, Covers 6 n m c → Agree r.head (noteHead m) c fun _ d => c.Passes d
  noteItems : ∀ {m : Nat} {c : Cursor}, Covers 4 n m c → Agree r.noteItems (noteItems m) c fun _ d => c.Leads d
  params : ∀ {m : Nat} {c : Cursor}, Covers 7 n m c → Agree r.params (params m) c fun _ d => c.Leads d
  useNames : ∀ {m : Nat} {c : Cursor}, Covers 7 n m c → Agree r.useNames (useNames m) c fun _ d => c.Leads d
  expr : ∀ {m : Nat} {c : Cursor} (power : BindingPower), Covers 5 n m c →
    Agree (r.expr power) (exprWithin m power) c fun _ d => c.Passes d
  operand : ∀ {m : Nat} {c : Cursor}, Covers 6 n m c → Agree r.operand (operand m) c fun _ d => c.Passes d
  tail : ∀ {m : Nat} {c : Cursor} (power : BindingPower) (left : Expr), Covers 7 n m c →
    Agree (r.tail power left) (exprTail m power left) c fun _ d => c.Leads d
  exprItems : ∀ {m : Nat} {c : Cursor} (close : TokenKind), Covers 4 n m c →
    Agree (r.exprItems close) (exprItems m close) c fun _ d => c.Leads d
  literal : ∀ {m : Nat} {c : Cursor}, c.current.kind ≠ .endOfText → Covers 7 n m c →
    Agree r.literal (functionLiteral m) c fun _ d => c.Passes d
  declaration : ∀ {m : Nat} {c : Cursor}, Covers 7 n m c →
    Agree r.declaration (declaration m) c fun _ d => c.Passes d
  stmt : ∀ {m : Nat} {c : Cursor}, Covers 4 n m c → Agree r.stmt (stmtWithin m) c fun _ d => c.Passes d
  block : ∀ {m : Nat} {c : Cursor}, Covers 7 n m c → Agree r.block (blockWithin m) c fun _ d => c.Passes d
  body : ∀ {m : Nat} {c : Cursor}, Covers 3 n m c → Agree r.body (blockBody m) c fun _ d => c.Leads d
  stmts : ∀ {m : Nat} {c : Cursor}, Covers 3 n m c →
    Agree r.stmts (stmts m) c fun _ d => c.Leads d ∧ d.current.kind = .endOfText

variable {r : Readers} {power : BindingPower}

/-! ### Types -/

theorem Agrees.turnMarks (h : Agrees r n) (hc : Covers 7 (n + 1) (m + 1) c) (note : Note) :
    Agree (r.turnMarks power note) (noteMarks (m + 1) power note) c fun _ d => c.Leads d := by
  refine ensures_kind.agree.bind fun k d hk => ?_
  obtain ⟨rfl, rfl⟩ := hk
  refine Agree.ite (fun hquestion => ?_) fun _ => .pure (Cursor.Leads.refl c)
  refine (passes_advance hc.ended (by rw [hquestion.1]; decide)).agree.bind fun _ d hd => ?_
  exact (h.marks power _ (hc.passes hd (by decide))).imp fun _ e he => hd.1.trans he

theorem Agrees.turnNote (h : Agrees r n) (hc : Covers 5 (n + 1) (m + 1) c) :
    Agree (r.turnNote power) (noteWithin (m + 1) power) c fun _ d => c.Passes d := by
  refine (h.head (hc.leads (.refl c) (by decide) (by decide))).bind fun note d hd => ?_
  exact (h.marks power note (hc.passes hd (by decide))).imp fun _ e he => hd.trans_leads he

theorem Agrees.turnHead (h : Agrees r n) (hc : Covers 6 (n + 1) (m + 1) c) :
    Agree r.turnHead (noteHead (m + 1)) c fun _ d => c.Passes d := by
  refine ensures_kind.agree.bind fun k d hk => ?_
  obtain ⟨hk, rfl⟩ := hk
  cases k with
  | identifier => exact (passes_advance hc.ended (by rw [hk]; decide)).agree.bind fun _ d hd => .pure hd
  | openBracket =>
    refine (passes_advance hc.ended (by rw [hk]; decide)).agree.bind fun _ d hd => ?_
    refine (h.note .default (hc.passes hd (by decide))).bind fun element e he => ?_
    refine (passes_expect (he.1.ended (hd.1.ended hc.ended)) (by decide)).agree.bind fun _ f hf => ?_
    exact .pure (hd.trans_leads (he.1.trans hf.1))
  | openParen =>
    refine (passes_advance hc.ended (by rw [hk]; decide)).agree.bind fun _ d hd => ?_
    refine (h.noteItems (hc.passes hd (by decide))).bind fun items e he => ?_
    refine (passes_expect (he.ended (hd.1.ended hc.ended)) (by decide)).agree.bind fun _ f hf => ?_
    have hcf : c.Passes f := hd.trans_leads (he.trans hf.1)
    refine ensures_kind.agree.bind fun k g hk => ?_
    obtain ⟨rfl, rfl⟩ := hk
    refine Agree.ite (fun harrow => ?_) fun _ => .pure hcf
    refine (passes_advance (hcf.1.ended hc.ended) (by rw [harrow]; decide)).agree.bind fun _ g hg => ?_
    refine (h.note .default (hc.passes (hcf.trans_leads hg.1) (by decide))).bind fun result j hj => ?_
    exact .pure (hcf.trans_leads (hg.1.trans hj.1))
  | _ => exact ensures_unexpected.agree

theorem Agrees.turnNoteItems (h : Agrees r n) (hc : Covers 4 (n + 1) (m + 1) c) :
    Agree r.turnNoteItems (Parse.noteItems (m + 1)) c fun _ d => c.Leads d := by
  refine ensures_kind.agree.bind fun k d hk => ?_
  obtain ⟨rfl, rfl⟩ := hk
  refine Agree.ite (fun _ => .pure (Cursor.Leads.refl c)) fun _ => ?_
  refine (h.note .default (hc.leads (.refl c) (by decide) (by decide))).bind fun item d hd => ?_
  have items {e : Cursor} (he : c.Passes e) : Agree (do return item :: (← r.noteItems))
      (do return item :: (← Parse.noteItems m)) e fun _ d => c.Leads d :=
    (h.noteItems (hc.passes he (by decide))).bind fun _ f hf => .pure (he.1.trans hf)
  refine ensures_kind.agree.bind fun k e hk => ?_
  obtain ⟨rfl, rfl⟩ := hk
  refine Agree.ite (fun hcomma => ?_) fun _ => items hd
  refine (passes_advance (hd.1.ended hc.ended) (by rw [hcomma]; decide)).agree.bind fun _ e he => ?_
  exact items (hd.trans_leads he.1)

/-- a type that the parser takes up with steps of its own -/
theorem Agrees.ownNote (h : Agrees r n) (hc : Covers 5 n m c) :
    Agree (r.note power) (Parse.note power) c fun _ d => c.Passes d :=
  Agree.of_get (h.note power hc.restart)

theorem Agrees.annotation (h : Agrees r n) (hc : Covers 7 n m c) :
    Agree r.annotation Parse.annotation c fun _ d => c.Leads d := by
  refine ensures_kind.agree.bind fun k d hk => ?_
  obtain ⟨rfl, rfl⟩ := hk
  refine Agree.ite (fun hcolon => ?_) fun _ => .pure (Cursor.Leads.refl c)
  refine (passes_advance hc.ended (by rw [hcolon]; decide)).agree.bind fun _ d hd => ?_
  exact (h.ownNote (hc.further hd (by decide))).bind fun _ e he => .pure (hd.1.trans he.1)

/-! ### Parameters and imports -/

theorem Agrees.turnParams (h : Agrees r n) (hc : Covers 7 (n + 1) (m + 1) c) :
    Agree r.turnParams (Parse.params (m + 1)) c fun _ d => c.Leads d := by
  refine ensures_kind.agree.bind fun k d hk => ?_
  obtain ⟨rfl, rfl⟩ := hk
  refine Agree.ite (fun _ => .pure (Cursor.Leads.refl c)) fun _ => ?_
  refine (passes_expectDetailed hc.ended (by decide)).agree.bind fun name d hd => ?_
  refine (passes_expect (hd.1.ended hc.ended) (by decide)).agree.bind fun _ e he => ?_
  have hce : c.Passes e := hd.trans_leads he.1
  refine (h.ownNote (hc.passes hce (by decide))).bind fun type f hf => ?_
  refine ensures_spanFrom.agree.bind fun span g hg => ?_
  subst hg
  have hcf : c.Passes f := hce.trans_leads hf.1
  refine (leads_separator (hcf.1.ended hc.ended)).agree.bind fun _ g hg => ?_
  have hcg : c.Passes g := hcf.trans_leads hg
  exact (h.params (hc.passes hcg (by decide))).bind fun rest j hj => .pure (hcg.1.trans hj)

theorem Agrees.turnUseNames (h : Agrees r n) (hc : Covers 7 (n + 1) (m + 1) c) :
    Agree r.turnUseNames (Parse.useNames (m + 1)) c fun _ d => c.Leads d := by
  refine ensures_kind.agree.bind fun k d hk => ?_
  obtain ⟨rfl, rfl⟩ := hk
  refine Agree.ite (fun _ => .pure (Cursor.Leads.refl c)) fun _ => ?_
  refine (passes_expect hc.ended (by decide)).agree.bind fun name d hd => ?_
  refine (leads_separator (hd.1.ended hc.ended)).agree.bind fun _ e he => ?_
  have hce : c.Passes e := hd.trans_leads he
  exact (h.useNames (hc.passes hce (by decide))).bind fun rest f hf => .pure (hce.1.trans hf)

theorem Agrees.useFilter (h : Agrees r n) (hc : Covers 7 n m c) :
    Agree r.useFilter Parse.useFilter c fun _ d => c.Leads d := by
  refine ensures_kind.agree.bind fun k d hk => ?_
  obtain ⟨rfl, rfl⟩ := hk
  refine Agree.ite (fun hparen => ?_) fun _ => .pure (Cursor.Leads.refl c)
  refine (passes_advance hc.ended (by rw [hparen]; decide)).agree.bind fun _ d hd => ?_
  refine Agree.of_get ?_
  refine (h.useNames (hc.further hd (by decide)).restart).bind fun names e he => ?_
  have hce : c.Passes e := hd.trans_leads he
  refine (passes_expect (hce.1.ended hc.ended) (by decide)).agree.bind fun _ f hf => ?_
  exact .pure (hce.1.trans hf.1)

theorem Agrees.useStmt (h : Agrees r n) (hkind : c.current.kind ≠ .endOfText) (hc : Covers 7 n m c) :
    Agree r.useStmt Parse.useStmt c fun _ d => c.Passes d := by
  refine (passes_advance hc.ended hkind).agree.bind fun word d hd => ?_
  refine (passes_expectDetailed (hd.1.ended hc.ended) (by decide)).agree.bind fun path e he => ?_
  have hce : c.Passes e := hd.trans_leads he.1
  refine (h.useFilter (hc.further hce (by decide))).bind fun names f hf => ?_
  have hcf : c.Passes f := hce.trans_leads hf
  refine (passes_expect (hcf.1.ended hc.ended) (by decide)).agree.bind fun _ g hg => ?_
  refine ensures_spanFrom.agree.bind fun span g' hg' => ?_
  subst hg'
  exact .pure (hcf.trans_leads hg.1)

/-! ### Expressions -/

theorem Agrees.turnExpr (h : Agrees r n) (hc : Covers 5 (n + 1) (m + 1) c) :
    Agree (r.turnExpr power) (exprWithin (m + 1) power) c fun _ d => c.Passes d := by
  refine (h.operand (hc.leads (.refl c) (by decide) (by decide))).bind fun left d hd => ?_
  exact (h.tail power left (hc.passes hd (by decide))).imp fun _ e he => hd.trans_leads he

theorem Agrees.turnOperand (h : Agrees r n) (hc : Covers 6 (n + 1) (m + 1) c) :
    Agree r.turnOperand (Parse.operand (m + 1)) c fun _ d => c.Passes d := by
  refine ensures_kind.agree.bind fun k d hk => ?_
  obtain ⟨hk, rfl⟩ := hk
  cases k with
  | fnWord => exact h.literal (by rw [hk]; decide) (hc.leads (.refl c) (by decide) (by decide))
  | openBracket =>
    refine (passes_advance hc.ended (by rw [hk]; decide)).agree.bind fun bracket d hd => ?_
    refine (h.exprItems .closeBracket (hc.passes hd (by decide))).bind fun items e he => ?_
    refine (passes_expect (he.ended (hd.1.ended hc.ended)) (by decide)).agree.bind fun _ f hf => ?_
    refine ensures_spanFrom.agree.bind fun span g hg => ?_
    subst hg
    exact .pure (hd.trans_leads (he.trans hf.1))
  | openParen =>
    refine (passes_advance hc.ended (by rw [hk]; decide)).agree.bind fun _ d hd => ?_
    refine (h.expr .default (hc.passes hd (by decide))).bind fun expr e he => ?_
    refine (passes_expect (he.1.ended (hd.1.ended hc.ended)) (by decide)).agree.bind fun _ f hf => ?_
    exact .pure (hd.trans_leads (he.1.trans hf.1))
  | _ => exact (passes_primary hc.ended).agree

/-- no expression goes on at the end of the text -/
theorem kind_ne_of_weaker (h : power.weaker (.ofToken c.current.kind) = true) : c.current.kind ≠ .endOfText := by
  intro hend
  rw [hend] at h
  revert h
  cases power <;> decide

theorem Agrees.turnTail (h : Agrees r n) (hc : Covers 7 (n + 1) (m + 1) c) (left : Expr) :
    Agree (r.turnTail power left) (exprTail (m + 1) power left) c fun _ d => c.Leads d := by
  -- what is read of the rest leads on from where the operator and what belongs to it were passed
  have tail {d : Cursor} (hd : c.Passes d) (e : Expr) :
      Agree (r.tail power e) (exprTail m power e) d fun _ e => c.Leads e :=
    (h.tail power e (hc.passes hd (by decide))).imp fun _ e he => hd.1.trans he
  refine ensures_get.agree.bind fun a d ha => ?_
  obtain ⟨rfl, rfl⟩ := ha
  refine Agree.ite (fun hweaker => ?_) fun _ => .pure (Cursor.Leads.refl c)
  refine (passes_advance hc.ended (kind_ne_of_weaker hweaker)).agree.bind fun _ d hd => ?_
  have hended := hd.1.ended hc.ended
  have binary (operator : String) (tightness : BindingPower) :
      Agree (do let right ← r.expr tightness
                r.tail power (.binary operator left right ⟨left.span.start, right.span.stop⟩))
        (do let right ← exprWithin m tightness
            exprTail m power (.binary operator left right ⟨left.span.start, right.span.stop⟩)) d fun _ e => c.Leads e :=
    (h.expr tightness (hc.passes hd (by decide))).bind fun right e he => tail (hd.trans_leads he.1) _
  cases hk : c.current.kind with
  | assignment =>
    exact (h.expr .default (hc.passes hd (by decide))).bind fun value e he => tail (hd.trans_leads he.1) _
  | openParen =>
    refine (h.exprItems .closeParen (hc.passes hd (by decide))).bind fun arguments e he => ?_
    refine (passes_expect (he.ended hended) (by decide)).agree.bind fun _ f hf => ?_
    refine ensures_spanFrom.agree.bind fun span g hg => ?_
    subst hg
    exact tail (hd.trans_leads (he.trans hf.1)) _
  | openBracket =>
    refine (h.expr .default (hc.passes hd (by decide))).bind fun index e he => ?_
    refine (passes_expect (he.1.ended hended) (by decide)).agree.bind fun _ f hf => ?_
    refine ensures_spanFrom.agree.bind fun span g hg => ?_
    subst hg
    exact tail (hd.trans_leads (he.1.trans hf.1)) _
  | _ => exact binary _ _

theorem Agrees.turnExprItems (h : Agrees r n) {close : TokenKind} (hc : Covers 4 (n + 1) (m + 1) c) :
    Agree (r.turnExprItems close) (Parse.exprItems (m + 1) close) c fun _ d => c.Leads d := by
  refine ensures_kind.agree.bind fun k d hk => ?_
  obtain ⟨rfl, rfl⟩ := hk
  refine Agree.ite (fun _ => .pure (Cursor.Leads.refl c)) fun _ => ?_
  refine (h.expr .default (hc.leads (.refl c) (by decide) (by decide))).bind fun item d hd => ?_
  refine (leads_separator (hd.1.ended hc.ended)).agree.bind fun _ e he => ?_
  have hce : c.Passes e := hd.trans_leads he
  exact (h.exprItems close (hc.passes hce (by decide))).bind fun items f hf => .pure (hce.1.trans hf)

theorem Agrees.turnLiteral (h : Agrees r n) (hkind : c.current.kind ≠ .endOfText) (hc : Covers 7 (n + 1) (m + 1) c) :
    Agree r.turnLiteral (functionLiteral (m + 1)) c fun _ d => c.Passes d := by
  refine (passes_advance hc.ended hkind).agree.bind fun word d hd => ?_
  refine leads_freshId.agree.bind fun id e he => ?_
  have hce : c.Passes e := hd.trans_leads he
  refine (passes_expect (hce.1.ended hc.ended) (by decide)).agree.bind fun _ f hf => ?_
  have hcf : c.Passes f := hce.trans_leads hf.1
  refine Agree.of_get ?_
  refine (h.params (hc.passes hcf (by decide)).restart).bind fun parameters g hg => ?_
  have hcg : c.Passes g := hcf.trans_leads hg
  refine (passes_expect (hcg.1.ended hc.ended) (by decide)).agree.bind fun _ j hj => ?_
  have hcj : c.Passes j := hcg.trans_leads hj.1
  refine (h.annotation (hc.passes hcj (by decide))).bind fun result k hk => ?_
  have hck : c.Passes k := hcj.trans_leads hk
  refine (h.block (hc.passes hck (by decide))).bind fun body l hl => ?_
  refine ensures_spanFrom.agree.bind fun span l' hl' => ?_
  subst hl'
  exact .pure (hck.trans_leads hl.1)

/-! ### Statements -/

theorem Agrees.turnDeclaration (h : Agrees r n) (hc : Covers 7 (n + 1) (m + 1) c) :
    Agree r.turnDeclaration (Parse.declaration (m + 1)) c fun _ d => c.Passes d := by
  refine (passes_expect hc.ended (by decide)).agree.bind fun word d hd => ?_
  refine (passes_expectDetailed (hd.1.ended hc.ended) (by decide)).agree.bind fun name e he => ?_
  have hce : c.Passes e := hd.trans_leads he.1
  refine (h.annotation (hc.passes hce (by decide))).bind fun type f hf => ?_
  have hcf : c.Passes f := hce.trans_leads hf
  refine (passes_expectDetailed (hcf.1.ended hc.ended) (by decide)).agree.bind fun _ g hg => ?_
  have hcg : c.Passes g := hcf.trans_leads hg.1
  refine (h.expr .default (hc.passes hcg (by decide))).bind fun value j hj => ?_
  have hcj : c.Passes j := hcg.trans_leads hj.1
  refine (passes_expect (hcj.1.ended hc.ended) (by decide)).agree.bind fun _ k hk => ?_
  refine ensures_spanFrom.agree.bind fun span k' hk' => ?_
  subst hk'
  exact .pure (hcj.trans_leads hk.1)

/-- an expression as a statement -/
theorem Agrees.turnEval (h : Agrees r n) (hc : Covers 4 (n + 1) (m + 1) c) :
    Agree (do let expr ← r.expr .default
              let _ ← expect .semicolon
              return Stmt.eval expr (← spanFrom expr.span.start))
      (do let expr ← exprWithin m .default
          let _ ← expect .semicolon
          return Stmt.eval expr (← spanFrom expr.span.start)) c fun _ d => c.Passes d := by
  refine (h.expr .default (hc.leads (.refl c) (by decide) (by decide))).bind fun expr d hd => ?_
  refine (passes_expect (hd.1.ended hc.ended) (by decide)).agree.bind fun _ e he => ?_
  refine ensures_spanFrom.agree.bind fun span e' he' => ?_
  subst he'
  exact .pure (hd.trans_leads he.1)

theorem Agrees.turnStmt (h : Agrees r n) (hc : Covers 4 (n + 1) (m + 1) c) :
    Agree r.turnStmt (stmtWithin (m + 1)) c fun _ d => c.Passes d := by
  refine ensures_kind.agree.bind fun k d hk => ?_
  obtain ⟨hk, rfl⟩ := hk
  cases k with
  | letWord =>
    exact (h.declaration (hc.leads (.refl c) (by decide) (by decide))).bind fun _ d hd => .pure hd
  | ifWord =>
    refine (passes_advance hc.ended (by rw [hk]; decide)).agree.bind fun word d hd => ?_
    refine (h.expr .default (hc.passes hd (by decide))).bind fun condition e he => ?_
    have hce : c.Passes e := hd.trans_leads he.1
    refine (h.block (hc.passes hce (by decide))).bind fun body f hf => ?_
    refine ensures_spanFrom.agree.bind fun span f' hf' => ?_
    subst hf'
    exact .pure (hce.trans_leads hf.1)
  | returnWord =>
    refine (passes_advance hc.ended (by rw [hk]; decide)).agree.bind fun word d hd => ?_
    have hended := hd.1.ended hc.ended
    refine ensures_kind.agree.bind fun k d' hk => ?_
    obtain ⟨rfl, rfl⟩ := hk
    refine Agree.ite (fun hsemicolon => ?_) fun _ => ?_
    · refine (passes_advance hended (by rw [hsemicolon]; decide)).agree.bind fun _ e he => ?_
      refine ensures_spanFrom.agree.bind fun span e' he' => ?_
      subst he'
      exact .pure (hd.trans_leads he.1)
    · refine (h.expr .default (hc.passes hd (by decide))).bind fun value e he => ?_
      refine (passes_expect (he.1.ended hended) (by decide)).agree.bind fun _ f hf => ?_
      refine ensures_spanFrom.agree.bind fun span f' hf' => ?_
      subst hf'
      exact .pure (hd.trans_leads (he.1.trans hf.1))
  | pubWord =>
    refine (passes_advance hc.ended (by rw [hk]; decide)).agree.bind fun word d hd => ?_
    refine ensures_kind.agree.bind fun k d' hk => ?_
    obtain ⟨rfl, rfl⟩ := hk
    refine Agree.ite (fun _ => ensures_unexpectedDetailed.agree) fun _ => ?_
    refine (h.declaration (hc.passes hd (by decide))).bind fun declared e he => ?_
    refine ensures_spanFrom.agree.bind fun span e' he' => ?_
    subst he'
    exact .pure (hd.trans_leads he.1)
  | useWord => exact h.useStmt (by rw [hk]; decide) (hc.leads (.refl c) (by decide) (by decide))
  | _ => exact h.turnEval hc

theorem Agrees.turnBlock (h : Agrees r n) (hc : Covers 7 (n + 1) (m + 1) c) :
    Agree r.turnBlock (blockWithin (m + 1)) c fun _ d => c.Passes d := by
  refine (passes_expect hc.ended (by decide)).agree.bind fun bracket d hd => ?_
  refine (h.body (hc.passes hd (by decide))).bind fun body e he => ?_
  have hce : c.Passes e := hd.trans_leads he
  refine (passes_expect (hce.1.ended hc.ended) (by decide)).agree.bind fun _ f hf => ?_
  refine ensures_spanFrom.agree.bind fun span f' hf' => ?_
  subst hf'
  exact .pure (hce.trans_leads hf.1)

theorem Agrees.turnBody (h : Agrees r n) (hc : Covers 3 (n + 1) (m + 1) c) :
    Agree r.turnBody (blockBody (m + 1)) c fun _ d => c.Leads d := by
  have more : Agree (do let stmt ← r.stmt
                        let rest ← r.body
                        return stmt :: rest)
      (do let stmt ← stmtWithin m
          let rest ← blockBody m
          return stmt :: rest) c fun _ d => c.Leads d := by
    refine (h.stmt (hc.leads (.refl c) (by decide) (by decide))).bind fun stmt d hd => ?_
    exact (h.body (hc.passes hd (by decide))).bind fun rest e he => .pure (hd.1.trans he)
  refine ensures_kind.agree.bind fun k d hk => ?_
  obtain ⟨hk, rfl⟩ := hk
  cases k with
  | closeCurly => exact .pure (Cursor.Leads.refl c)
  | endOfText => exact ensures_unexpected.agree
  | _ => exact more

theorem Agrees.turnStmts (h : Agrees r n) (hc : Covers 3 (n + 1) (m + 1) c) :
    Agree r.turnStmts (Parse.stmts (m + 1)) c fun _ d => c.Leads d ∧ d.current.kind = .endOfText := by
  refine ensures_kind.agree.bind fun k d hk => ?_
  obtain ⟨rfl, rfl⟩ := hk
  refine Agree.ite (fun hend => .pure ⟨Cursor.Leads.refl c, hend⟩) fun _ => ?_
  have hstmt : Agree r.stmt Parse.stmt c fun _ d => c.Passes d :=
    Agree.of_get (h.stmt (hc.leads (.refl c) (by decide) (by decide)).restart)
  refine hstmt.bind fun first d hd => ?_
  exact (h.stmts (hc.passes hd (by decide))).bind fun rest e he => .pure ⟨hd.1.trans he.1, he.2⟩

/-! ### All rules -/

/-- no turn is enough for nothing -/
theorem agrees_zero (r : Readers) : Agrees r 0 := by
  have never {s m : Nat} {c : Cursor} (hc : Covers s 0 m c) {p : Prop} : p := by
    obtain ⟨⟨n, hn⟩, _⟩ := hc.exists_succ
    cases hn
  exact ⟨fun _ _ hc => never hc, fun _ hc => never hc, fun hc => never hc, fun hc => never hc, fun hc => never hc,
    fun hc => never hc, fun _ hc => never hc, fun hc => never hc, fun _ _ hc => never hc, fun _ hc => never hc,
    fun _ hc => never hc, fun hc => never hc, fun hc => never hc, fun hc => never hc, fun hc => never hc,
    fun hc => never hc⟩

theorem Agrees.rules (h : Agrees r n) : Agrees r.rules (n + 1) where
  marks power note hc := by
    obtain ⟨_, m, rfl⟩ := hc.exists_succ
    exact h.turnMarks hc note
  note power hc := by
    obtain ⟨_, m, rfl⟩ := hc.exists_succ
    exact h.turnNote hc
  head hc := by
    obtain ⟨_, m, rfl⟩ := hc.exists_succ
    exact h.turnHead hc
  noteItems hc := by
    obtain ⟨_, m, rfl⟩ := hc.exists_succ
    exact h.turnNoteItems hc
  params hc := by
    obtain ⟨_, m, rfl⟩ := hc.exists_succ
    exact h.turnParams hc
  useNames hc := by
    obtain ⟨_, m, rfl⟩ := hc.exists_succ
    exact h.turnUseNames hc
  expr power hc := by
    obtain ⟨_, m, rfl⟩ := hc.exists_succ
    exact h.turnExpr hc
  operand hc := by
    obtain ⟨_, m, rfl⟩ := hc.exists_succ
    exact h.turnOperand hc
  tail power left hc := by
    obtain ⟨_, m, rfl⟩ := hc.exists_succ
    exact h.turnTail hc left
  exprItems close hc := by
    obtain ⟨_, m, rfl⟩ := hc.exists_succ
    exact h.turnExprItems hc
  literal hkind hc := by
    obtain ⟨_, m, rfl⟩ := hc.exists_succ
    exact h.turnLiteral hkind hc
  declaration hc := by
    obtain ⟨_, m, rfl⟩ := hc.exists_succ
    exact h.turnDeclaration hc
  stmt hc := by
    obtain ⟨_, m, rfl⟩ := hc.exists_succ
    exact h.turnStmt hc
  block hc := by
    obtain ⟨_, m, rfl⟩ := hc.exists_succ
    exact h.turnBlock hc
  body hc := by
    obtain ⟨_, m, rfl⟩ := hc.exists_succ
    exact h.turnBody hc
  stmts hc := by
    obtain ⟨_, m, rfl⟩ := hc.exists_succ
    exact h.turnStmts hc

/-- the rules turned `n` times answer as the parser does wherever `n` turns are enough -/
theorem nested_agrees (r : Readers) (n : Nat) : Agrees (r.nested n) n := by
  induction n with
  | zero => exact agrees_zero r
  | succ n ih => exact ih.rules

/-! ### Where the parser starts -/

section

variable (r : Readers)

/-- the parser starts with as many steps as the tokens left call for -/
theorem Covers.of_depth (hc : c.Ended) (hn : c.depth ≤ n) (hfew : short ≤ 7) : Covers short n c.depth c :=
  ⟨hc, hfew, Nat.le_add_right_of_le hn, Nat.le_add_right _ _⟩

theorem agree_stmt (hc : c.Ended) (hn : c.depth ≤ n) : Agree (r.nested n).stmt stmt c fun _ d => c.Passes d :=
  Agree.of_get ((nested_agrees r n).stmt (.of_depth hc hn (by decide)))

theorem agree_expr (hc : c.Ended) (hn : c.depth ≤ n) (power : BindingPower) :
    Agree ((r.nested n).expr power) (expr power) c fun _ d => c.Passes d :=
  Agree.of_get ((nested_agrees r n).expr power (.of_depth hc hn (by decide)))

theorem agree_note (hc : c.Ended) (hn : c.depth ≤ n) (power : BindingPower) :
    Agree ((r.nested n).note power) (note power) c fun _ d => c.Passes d :=
  Agree.of_get ((nested_agrees r n).note power (.of_depth hc hn (by decide)))

theorem agree_block (hc : c.Ended) (hn : c.depth ≤ n) : Agree (r.nested n).block block c fun _ d => c.Passes d :=
  Agree.of_get ((nested_agrees r n).block (.of_depth hc hn (by decide)))

theorem agree_module (hc : c.Ended) (hn : c.depth ≤ n) :
    Agree (r.nested n).module module c fun _ d => c.Leads d ∧ d.current.kind = .endOfText := by
  refine ensures_get.agree.bind fun a d ha => ?_
  obtain ⟨rfl, rfl⟩ := ha
  refine ((nested_agrees r n).stmts (.of_depth hc hn (by decide))).bind fun body d hd => ?_
  refine ensures_spanFrom.agree.bind fun span d' hd' => ?_
  subst hd'
  exact .pure hd

end

end Parse

/-! ## Any tokens -/

namespace Cursor

variable {tokens : List Token} {c d : Cursor}

/-- the last of the tokens is an end, or an end was added behind them -/
theorem tokens_ofTokens (tokens : List Token) : ∃ before last, (ofTokens tokens).tokens = before ++ [last] ∧
    last.kind = .endOfText ∧ (tokens = before ++ [last] ∨ tokens = before) := by
  rcases tokens.eq_nil_or_concat with rfl | ⟨before, last, hconcat⟩
  · exact ⟨[], .endAt .null, rfl, rfl, Or.inr rfl⟩
  rw [List.concat_eq_append] at hconcat
  subst hconcat
  have hfirst (closing : List Token) : ∃ first rest, before ++ [last] ++ closing = first :: rest := by
    cases before with
    | nil => exact ⟨last, closing, rfl⟩
    | cons first rest => exact ⟨first, rest ++ [last] ++ closing, rfl⟩
  by_cases hlast : last.kind = .endOfText
  · refine ⟨before, last, ?_, hlast, Or.inl rfl⟩
    obtain ⟨first, rest, heq⟩ := hfirst []
    unfold ofTokens
    simp only [List.getLast?_concat, hlast, if_true, heq]
    rw [Cursor.tokens, ← heq, List.append_nil]
  · refine ⟨before ++ [last], .endAt last.span.stop, ?_, rfl, Or.inr rfl⟩
    obtain ⟨first, rest, heq⟩ := hfirst [.endAt last.span.stop]
    unfold ofTokens
    simp only [List.getLast?_concat, hlast, if_false, heq]
    rw [Cursor.tokens, ← heq]

/-- from any place in the tokens that a cursor is made for, an end is at it or behind it -/
theorem ended_of_suffix (h : c.tokens <:+ (ofTokens tokens).tokens) : c.Ended := by
  obtain ⟨before, last, htokens, hlast, _⟩ := tokens_ofTokens tokens
  obtain ⟨passed, hpassed⟩ := h
  have hne : c.tokens ≠ [] := List.cons_ne_nil _ _
  have hend : c.tokens.getLast hne = last := by
    rw [← List.getLast_append_of_ne_nil (l := passed) (by simp [hne]) hne]
    simp only [hpassed, htokens, List.getLast_concat]
  exact ⟨last, hend ▸ List.getLast_mem hne, hlast⟩

/-- a cursor that is led to the first end has passed exactly the tokens before it -/
theorem Leads.to_end (h : (ofTokens tokens).Leads d) (hd : d.current.kind = .endOfText) :
    (ofTokens tokens).tokens = tokens.takeWhile (fun t => t.kind ≠ .endOfText) ++ d.tokens := by
  obtain ⟨used, hused, hinside⟩ := h
  obtain ⟨before, last, htokens, hlast, hbefore⟩ := tokens_ofTokens tokens
  have hwhole : (ofTokens tokens).tokens.takeWhile (fun t => t.kind ≠ .endOfText) = used := by
    rw [hused, List.takeWhile_append_of_pos (by simpa using hinside), Cursor.tokens,
      List.takeWhile_cons_of_neg (by simpa using hd), List.append_nil]
  have hadded : tokens.takeWhile (fun t => t.kind ≠ .endOfText) =
      (ofTokens tokens).tokens.takeWhile (fun t => t.kind ≠ .endOfText) := by
    rw [htokens]
    rcases hbefore with rfl | rfl
    · rfl
    · rw [List.takeWhile_append]
      split
      · next hall =>
        rw [List.takeWhile_cons_of_neg (by simpa using hlast), List.append_nil]
        exact (List.takeWhile_prefix _).eq_of_length hall
      · rfl
  rw [hadded, hwhole, hused]

end Cursor

/-! ## Progress -/

namespace Parse

variable {c : Cursor}

end Parse

/-- Reading always moves on, whatever the tokens are: none at all, none that ends the text, or several that do. From any
place in them, reading a statement, an expression, a type or a block passes a token at least where it succeeds, and not
the first end of the text from there on. It comes to an answer: the rules without a limit, turned no oftener than the
parser nests them, give that answer, whatever is taken for what lies deeper. The same holds for a whole module, which is
read where exactly the tokens before the first end were passed. -/
theorem reading_progresses (tokens : List Token) :
    (∀ c : Cursor, c.tokens <:+ (Cursor.ofTokens tokens).tokens →
      (∀ stmt d, Parse.stmt c = .ok stmt d → c.Passes d) ∧
      (∀ power expr d, Parse.expr power c = .ok expr d → c.Passes d) ∧
      (∀ power note d, Parse.note power c = .ok note d → c.Passes d) ∧
      (∀ block d, Parse.block c = .ok block d → c.Passes d) ∧
      ∀ (deeper : Parse.Readers) n, c.depth ≤ n →
        (deeper.nested n).stmt c = Parse.stmt c ∧
        (∀ power, (deeper.nested n).expr power c = Parse.expr power c) ∧
        (∀ power, (deeper.nested n).note power c = Parse.note power c) ∧
        (deeper.nested n).block c = Parse.block c) ∧
    (∀ (deeper : Parse.Readers) n, (Cursor.ofTokens tokens).depth ≤ n →
      (deeper.nested n).module (.ofTokens tokens) = Parse.module (.ofTokens tokens)) ∧
    ∀ body, parseTokens tokens = .ok body → ∃ d, Parse.module (.ofTokens tokens) = .ok body d ∧
      d.current.kind = .endOfText ∧
      (Cursor.ofTokens tokens).tokens = tokens.takeWhile (fun t => t.kind ≠ .endOfText) ++ d.tokens := by
  refine ⟨fun c hc => ?_, fun deeper n hn => ?_, fun body hbody => ?_⟩
  · have hended := Cursor.ended_of_suffix hc
    have hdepth : c.depth ≤ c.depth := Nat.le_refl _
    refine ⟨(Parse.agree_stmt default hended hdepth).2, fun power => (Parse.agree_expr default hended hdepth power).2,
      fun power => (Parse.agree_note default hended hdepth power).2, (Parse.agree_block default hended hdepth).2,
      fun deeper n hn => ?_⟩
    exact ⟨(Parse.agree_stmt deeper hended hn).1, fun power => (Parse.agree_expr deeper hended hn power).1,
      fun power => (Parse.agree_note deeper hended hn power).1, (Parse.agree_block deeper hended hn).1⟩
  · exact (Parse.agree_module deeper (Cursor.ended_of_suffix (List.suffix_refl _)) hn).1
  · obtain ⟨d, hd⟩ := parseTokens_eq_ok_iff.1 hbody
    have hended := Cursor.ended_of_suffix (List.suffix_refl (Cursor.ofTokens tokens).tokens)
    obtain ⟨hleads, hend⟩ := (Parse.agree_module default hended (Nat.le_refl _)).2 body d hd
    exact ⟨d, hd, hend, hleads.to_end hend⟩

/-- a statement, an end of the text, and a word behind it that nobody reads -/
theorem reading_progresses_cut_short :
    let tokens : List Token :=
      [⟨.selfWord, "self", .null⟩, ⟨.semicolon, ";", .null⟩, .endAt .null, ⟨.selfWord, "self", .null⟩]
    (∃ body d, Parse.module (.ofTokens tokens) = .ok body d ∧ d.tokens.length = 3) ∧
    ∃ stmt d, Parse.stmt (.ofTokens tokens) = .ok stmt d ∧ (Cursor.ofTokens tokens).Passes d := by
  intro tokens
  obtain ⟨hcalls, _, hmodule⟩ := reading_progresses tokens
  obtain ⟨hstmt, _⟩ := hcalls (.ofTokens tokens) (List.suffix_refl _)
  obtain ⟨d, hd, _, htokens⟩ := hmodule _ rfl
  refine ⟨⟨_, d, hd, ?_⟩, _, _, rfl, hstmt _ _ rfl⟩
  have hlength := congrArg List.length htokens
  rw [List.length_append] at hlength
  have hpassed : (tokens.takeWhile fun t => t.kind ≠ .endOfText).length = 2 := rfl
  have hall : (Cursor.ofTokens tokens).tokens.length = 5 := rfl
  omega

end TypedScript
