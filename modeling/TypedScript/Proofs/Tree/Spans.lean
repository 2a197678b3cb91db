/-
Where the nodes of a tree stand in the text. The outline of a tree keeps the span of every node and the nodes in it, in
the order in which the text has them: a callee before its arguments, the left operand before the right one, a condition
before its block, parameters before the body. Each node of a tree that was read stands between two places of the text,
the nodes in it stand between these, and each of them ends before the next one starts. The spans say where these places
are by lines and columns, which order the places of a text as long as no counter starts over in it (`Position.Fits`): in
such a text no span ends before it starts, and the spans nest and follow one another as the nodes do.

A reading starts behind the tokens that were passed before it and ends with the last token that it passes. What it reads
is laid out between the two places (`Laid`), also where a parenthesis stands at either end and is left out of the tree.
Nodes that are laid out in the stretch of a node are the nodes in it, and stretches of nodes join (`Laid.append`).

- `Outline.Nested`: the spans of an outline nest.
- `Laid.nested`: so they do where the nodes are laid out in a text whose lines and columns fit the counters.
- `spans_nest`: every module is laid out in its text.
-/
import TypedScript.Proofs.Token.Split
import TypedScript.Proofs.Tree.Proper

namespace TypedScript

/-! ## Outlines -/

/-- a node by its span, with the nodes directly in it -/
inductive Outline
  | node (span : Span) (children : List Outline)

def Outline.span : Outline → Span
  | .node span _ => span

/-- a span that does not end before it starts, with children in it that follow one another and are nested themselves -/
inductive Outline.Nested : Outline → Prop
  | node {span : Span} {children : List Outline} (forward : span.start ≤ span.stop)
      (within : ∀ child ∈ children, span.start ≤ child.span.start ∧ child.span.stop ≤ span.stop)
      (sequence : children.Pairwise fun left right => left.span.stop ≤ right.span.start)
      (nested : ∀ child ∈ children, child.Nested) : Nested (.node span children)

def Parameter.outline (p : Parameter) : Outline := .node p.span []

mutual

/-- the spans of an expression and of all that is in it -/
def Expr.outline : Expr → Outline
  | .number _ span => .node span []
  | .text _ span => .node span []
  | .truth _ span => .node span []
  | .ident _ span => .node span []
  | .self span => .node span []
  | .list items span => .node span (Expr.outlines items)
  | .function _ params _ body span => .node span (params.map Parameter.outline ++ [body.outline])
  | .call callee arguments span => .node span (callee.outline :: Expr.outlines arguments)
  | .assign target value span => .node span [target.outline, value.outline]
  | .binary _ left right span => .node span [left.outline, right.outline]
  | .subscript target index span => .node span [target.outline, index.outline]

def Expr.outlines : List Expr → List Outline
  | [] => []
  | e :: es => e.outline :: Expr.outlines es

def Stmt.outline : Stmt → Outline
  | .cond condition body span => .node span [condition.outline, body.outline]
  | .declare d => d.outline
  | .giveBack none span => .node span []
  | .giveBack (some value) span => .node span [value.outline]
  | .eval e span => .node span [e.outline]
  | .pub d span => .node span [d.outline]
  | .use _ _ span => .node span []

def Stmt.outlines : List Stmt → List Outline
  | [] => []
  | s :: ss => s.outline :: Stmt.outlines ss

def Declaration.outline : Declaration → Outline
  | ⟨_, _, value, span⟩ => .node span [value.outline]

def Block.outline : Block → Outline
  | ⟨body, span⟩ => .node span (Stmt.outlines body)

end

theorem Expr.outlines_eq (es : List Expr) : Expr.outlines es = es.flatMap fun e => [e.outline] := by
  induction es with
  | nil => rfl
  | cons e es ih => rw [Expr.outlines, ih]; rfl

theorem Expr.span_outline (e : Expr) : e.outline.span = e.span := by
  cases e <;> (rw [Expr.outline]; rfl)

/-! ## Nodes in a row -/

/-- from one place of a text to another -/
def Span.ofPlaces (text : List Char) (i j : Nat) : Span := ⟨.ofPlace text i, .ofPlace text j⟩

/-- nodes that stand one after the other between two places of a text, each with the nodes in it laid out between the
places where it starts and ends -/
inductive Laid (text : List Char) : Nat → Nat → List Outline → Prop
  | nil {i j : Nat} (forward : i ≤ j) : Laid text i j []
  | cons {i a b j : Nat} {children os : List Outline} (behind : i ≤ a) (inside : Laid text a b children)
      (rest : Laid text b j os) : Laid text i j (.node (.ofPlaces text a b) children :: os)

variable {text : List Char} {i j k a b : Nat} {o : Outline} {os : List Outline}

namespace Laid

theorem forward (h : Laid text i j os) : i ≤ j := by
  induction h with
  | nil forward => exact forward
  | cons behind _ _ hinside hrest => exact Nat.le_trans behind (Nat.le_trans hinside hrest)

theorem of_le (h : Laid text j k os) (hij : i ≤ j) : Laid text i k os := by
  cases h with
  | nil forward => exact .nil (Nat.le_trans hij forward)
  | cons behind inside rest => exact .cons (Nat.le_trans hij behind) inside rest

theorem append {os' : List Outline} (h : Laid text i j os) (h' : Laid text j k os') : Laid text i k (os ++ os') := by
  induction h with
  | nil forward => exact h'.of_le forward
  | cons behind inside _ _ ih => exact .cons behind inside (ih h')

theorem up_to (h : Laid text i j os) (hjk : j ≤ k) : Laid text i k os := by
  have hjoined := h.append (Laid.nil hjk)
  rwa [List.append_nil] at hjoined

/-- nodes that are laid out between two places are the nodes in one that starts and ends there -/
theorem node (h : Laid text a b os) (hstart : i ≤ a) (hstop : b ≤ j) :
    Laid text i j [.node (.ofPlaces text a b) os] :=
  .cons hstart h (.nil hstop)

/-- one node and nodes behind it are laid out from the start of the one on -/
theorem of_single (h : Laid text i j [o]) (h' : Laid text j k os) :
    ∃ a, i ≤ a ∧ o.span.start = .ofPlace text a ∧ Laid text a k (o :: os) := by
  cases h with
  | cons behind inside rest => exact ⟨_, behind, rfl, .cons (Nat.le_refl _) inside (h'.of_le rest.forward)⟩

/-- one node is laid out up to its own end -/
theorem stop_of_single (h : Laid text i j [o]) :
    ∃ b, b ≤ j ∧ o.span.stop = .ofPlace text b ∧ Laid text i b [o] := by
  cases h with
  | cons behind inside rest => exact ⟨_, rest.forward, rfl, inside.node behind (Nat.le_refl _)⟩

/-- the spans of nodes that are laid out in a text nest, as far as its lines and columns fit the counters -/
theorem nested (hfits : Position.Fits text) (h : Laid text i j os) :
    (∀ o ∈ os, o.Nested ∧ .ofPlace text i ≤ o.span.start ∧ o.span.stop ≤ .ofPlace text j) ∧
      os.Pairwise fun left right => left.span.stop ≤ right.span.start := by
  induction h with
  | nil _ => simp
  | cons behind inside rest hinside hrest =>
    obtain ⟨hchildren, hsequence⟩ := hinside
    obtain ⟨hothers, hothers_sequence⟩ := hrest
    have hstop := hfits.ofPlace_le rest.forward
    have hnode : Outline.Nested (.node (.ofPlaces text _ _) _) :=
      .node (hfits.ofPlace_le inside.forward) (fun child hchild => (hchildren child hchild).2) hsequence
        fun child hchild => (hchildren child hchild).1
    refine ⟨List.forall_mem_cons.2 ⟨⟨hnode, hfits.ofPlace_le behind, hstop⟩, fun o ho => ?_⟩,
      .cons (fun o ho => (hothers o ho).2.1) hothers_sequence⟩
    obtain ⟨ho, hstart, hend⟩ := hothers o ho
    exact ⟨ho, Position.le_trans (hfits.ofPlace_le (Nat.le_trans behind inside.forward)) hstart, hend⟩

end Laid

/-! ## Cursors -/

/-- the token most recently passed ends at a place of the text, and the tokens to be passed stand behind it -/
structure Cursor.Stands (text : List Char) (c : Cursor) (i : Nat) : Prop where
  ended : ∃ ts, c.At ts
  inside : i ≤ text.length
  stop : c.previousEnd = .ofPlace text i
  tokens : Token.Placed text i (c.current :: c.ahead)

namespace Parse

variable {α : Type} {c d e : Cursor} {t : Token} {fuel : Nat}

/-- a token was passed, which stands between two places behind all that was passed before -/
structure Steps (text : List Char) (i a b : Nat) (t : Token) (d : Cursor) : Prop where
  behind : i ≤ a
  forward : a ≤ b
  span : t.span = .ofPlaces text a b
  stands : d.Stands text b

/-- tokens were passed -/
def Onward (text : List Char) (i : Nat) (d : Cursor) : Prop := ∃ j, i ≤ j ∧ d.Stands text j

/-- what was read is laid out from a place up to the end of the token most recently passed -/
inductive Lays (text : List Char) (outlines : α → List Outline) (i : Nat) (a : α) (d : Cursor) : Prop
  | up_to (j : Nat) (stands : d.Stands text j) (laid : Laid text i j (outlines a))

theorem Onward.of_le (h : Onward text j d) (hij : i ≤ j) : Onward text i d := by
  obtain ⟨k, hjk, hd⟩ := h
  exact ⟨k, Nat.le_trans hij hjk, hd⟩

theorem Steps.passed (h : Steps text i a b t d) : i ≤ b := Nat.le_trans h.behind h.forward

theorem Steps.onward (h : Steps text i a b t d) : Onward text i d := ⟨b, h.passed, h.stands⟩

theorem Steps.start (h : Steps text i a b t d) : t.span.start = .ofPlace text a := by rw [h.span]; rfl

theorem steps_advance (h : c.Stands text i) (hkind : c.current.kind ≠ .endOfText) :
    Ensures advance c fun t d => c.current = t ∧ ∃ a b, Steps text i a b t d := by
  intro t d had
  cases had
  obtain ⟨ts, hat⟩ := h.ended
  obtain ⟨us, rfl, hnext⟩ := hat.cons hkind
  obtain ⟨last, _, htokens⟩ := hat.tokens
  have hahead : c.ahead = us ++ [last] := (List.cons.inj htokens).2
  obtain ⟨first, rest, hcons⟩ := List.exists_cons_of_ne_nil (hahead ▸ List.concat_ne_nil last us)
  have hstop : c.next.previousEnd = c.current.span.stop := by simp [Cursor.next, hcons, Cursor.previousEnd]
  have htokens : c.next.current :: c.next.ahead = c.ahead := by simp [Cursor.next, hcons]
  cases h.tokens with
  | @cons _ a b _ _ behind forward inside span rest =>
    exact ⟨rfl, a, b, behind, forward, span, ⟨us, hnext⟩, inside, by rw [hstop, span], by rwa [htokens]⟩

theorem steps_expect (h : c.Stands text i) {kind : TokenKind} (hkind : kind ≠ .endOfText) :
    Ensures (expect kind) c fun t d => ∃ a b, Steps text i a b t d := by
  refine ensures_get.bind fun a d hd => ?_
  obtain ⟨rfl, rfl⟩ := hd
  split
  · next heq => exact fun t d had => (steps_advance h (heq ▸ hkind) t d had).2
  · exact ensures_unexpected

theorem steps_expectDetailed (h : c.Stands text i) {kind : TokenKind} (hkind : kind ≠ .endOfText) (message : String) :
    Ensures (expectDetailed kind message) c fun t d => ∃ a b, Steps text i a b t d := by
  refine ensures_get.bind fun a d hd => ?_
  obtain ⟨rfl, rfl⟩ := hd
  split
  · next heq => exact fun t d had => (steps_advance h (heq ▸ hkind) t d had).2
  · exact ensures_unexpectedDetailed

/-- the span from the start of a token to the end of the one most recently passed -/
theorem placed_spanFrom {start : Position} (h : c.Stands text b) (hstart : start = .ofPlace text a) :
    Ensures (spanFrom start) c fun span d => span = .ofPlaces text a b ∧ c = d := by
  intro span d hspan
  cases hspan
  exact ⟨by rw [Cursor.spanFrom, hstart, h.stop]; rfl, rfl⟩

/-- a node whose span ends where the token most recently passed does, with what lies in it -/
theorem lays_spanned {build : Span → α} {outlines : α → List Outline} {children : List Outline} {start : Position}
    (h : c.Stands text b) (hlaid : Laid text a b children) (hle : i ≤ a) (hstart : start = .ofPlace text a)
    (hbuild : ∀ span, outlines (build span) = [.node span children]) :
    Ensures (do return build (← spanFrom start)) c (Lays text outlines i) := by
  refine (placed_spanFrom h hstart).bind fun span d hd => ?_
  obtain ⟨rfl, rfl⟩ := hd
  refine .pure ⟨b, h, ?_⟩
  rw [hbuild]
  exact hlaid.node hle (Nat.le_refl b)

theorem stands_freshId (h : c.Stands text i) : Ensures freshId c fun _ d => d.Stands text i := by
  intro id d had
  cases had
  obtain ⟨ts, hat⟩ := h.ended
  exact ⟨⟨ts, hat.proper, hat.tokens⟩, h.inside, h.stop, h.tokens⟩

/-! ### Types -/

theorem onward_noteMarks (power : BindingPower) (n : Note) (h : c.Stands text i) :
    Ensures (noteMarks fuel power n) c fun _ d => Onward text i d := by
  induction fuel generalizing n c i with
  | zero => exact .pure ⟨i, Nat.le_refl i, h⟩
  | succ fuel ih =>
    refine ensures_kind.bind fun k d hk => ?_
    obtain ⟨rfl, rfl⟩ := hk
    split
    · next hmark =>
      refine (steps_advance h (by simp [hmark.1])).bind fun _ d hd => ?_
      obtain ⟨_, _, _, hd⟩ := hd
      exact fun m e hm => (ih (.optional n) hd.stands m e hm).of_le hd.passed
    · exact .pure ⟨i, Nat.le_refl i, h⟩

/-- the rules of types pass tokens -/
structure OnwardNotes (text : List Char) (fuel : Nat) : Prop where
  within : ∀ power {c : Cursor} {i : Nat}, c.Stands text i →
    Ensures (noteWithin fuel power) c fun _ d => Onward text i d
  head : ∀ {c : Cursor} {i : Nat}, c.Stands text i → Ensures (noteHead fuel) c fun _ d => Onward text i d
  items : ∀ {c : Cursor} {i : Nat}, c.Stands text i → Ensures (noteItems fuel) c fun _ d => Onward text i d

theorem OnwardNotes.within_succ (ih : OnwardNotes text fuel) (power : BindingPower) (h : c.Stands text i) :
    Ensures (noteWithin (fuel + 1) power) c fun _ d => Onward text i d := by
  refine (ih.head h).bind fun n d hd => ?_
  obtain ⟨j, hij, hd⟩ := hd
  exact fun m e hm => (onward_noteMarks power n hd m e hm).of_le hij

theorem OnwardNotes.head_succ (ih : OnwardNotes text fuel) (h : c.Stands text i) :
    Ensures (noteHead (fuel + 1)) c fun _ d => Onward text i d := by
  refine ensures_kind.bind fun k d hk => ?_
  obtain ⟨rfl, rfl⟩ := hk
  split
  · next hkind =>
    refine (steps_advance h (by simp [hkind])).bind fun _ d hd => ?_
    obtain ⟨_, _, _, hd⟩ := hd
    exact .pure hd.onward
  · next hkind =>
    refine (steps_advance h (by simp [hkind])).bind fun _ d hd => ?_
    obtain ⟨_, _, _, hd⟩ := hd
    refine (ih.within .default hd.stands).bind fun _ e he => ?_
    obtain ⟨j, hj, he⟩ := he
    refine (steps_expect he (by simp)).bind fun _ f hf => ?_
    obtain ⟨_, _, hf⟩ := hf
    exact .pure (hf.onward.of_le (Nat.le_trans hd.passed hj))
  · next hkind =>
    refine (steps_advance h (by simp [hkind])).bind fun _ d hd => ?_
    obtain ⟨_, _, _, hd⟩ := hd
    refine (ih.items hd.stands).bind fun _ e he => ?_
    obtain ⟨j, hj, he⟩ := he
    refine (steps_expect he (by simp)).bind fun _ f hf => ?_
    obtain ⟨_, _, hf⟩ := hf
    have htuple := Nat.le_trans hd.passed (Nat.le_trans hj hf.passed)
    refine ensures_kind.bind fun k g hg => ?_
    obtain ⟨rfl, rfl⟩ := hg
    split
    · next harrow =>
      refine (steps_advance hf.stands (by simp [harrow])).bind fun _ g hg => ?_
      obtain ⟨_, _, _, hg⟩ := hg
      refine (ih.within .default hg.stands).bind fun _ l hl => ?_
      exact .pure (hl.of_le (Nat.le_trans htuple hg.passed))
    · exact .pure ⟨_, htuple, hf.stands⟩
  · exact ensures_unexpected

theorem OnwardNotes.items_succ (ih : OnwardNotes text fuel) (h : c.Stands text i) :
    Ensures (noteItems (fuel + 1)) c fun _ d => Onward text i d := by
  refine ensures_kind.bind fun k d hk => ?_
  obtain ⟨rfl, rfl⟩ := hk
  split
  · exact .pure ⟨i, Nat.le_refl i, h⟩
  refine (ih.within .default h).bind fun _ d hd => ?_
  obtain ⟨j, hj, hd⟩ := hd
  refine ensures_kind.bind fun k e he => ?_
  obtain ⟨rfl, rfl⟩ := he
  split
  · next hcomma =>
    refine (steps_advance hd (by simp [hcomma])).bind fun _ e he => ?_
    obtain ⟨_, _, _, he⟩ := he
    exact (ih.items he.stands).bind fun _ f hf => .pure (hf.of_le (Nat.le_trans hj he.passed))
  · exact (ih.items hd).bind fun _ e he => .pure (he.of_le hj)

theorem onwardNotes (text : List Char) (fuel : Nat) : OnwardNotes text fuel := by
  induction fuel with
  | zero => exact ⟨fun _ _ _ _ => ensures_unexpected, fun _ => ensures_unexpected, fun _ => ensures_unexpected⟩
  | succ fuel ih => exact ⟨fun power => ih.within_succ power, ih.head_succ, ih.items_succ⟩

theorem onward_note (h : c.Stands text i) : Ensures (note .default) c fun _ d => Onward text i d := by
  refine ensures_get.bind fun a d hd => ?_
  obtain ⟨rfl, rfl⟩ := hd
  exact (onwardNotes text _).within .default h

theorem annotation_onward (h : c.Stands text i) : Ensures annotation c fun _ d => Onward text i d := by
  refine ensures_kind.bind fun k d hk => ?_
  obtain ⟨rfl, rfl⟩ := hk
  split
  · next hcolon =>
    refine (steps_advance h (by simp [hcolon])).bind fun _ d hd => ?_
    obtain ⟨_, _, _, hd⟩ := hd
    exact (onward_note hd.stands).bind fun _ e he => .pure (he.of_le hd.passed)
  · exact .pure ⟨i, Nat.le_refl i, h⟩

/-! ### Items between commas -/

theorem onward_separator (close : TokenKind) (h : c.Stands text i) :
    Ensures (separator close) c fun _ d => Onward text i d := by
  refine ensures_kind.bind fun k d hk => ?_
  obtain ⟨rfl, rfl⟩ := hk
  split
  · next hcomma =>
    refine (steps_advance h (by simp [hcomma])).bind fun _ d hd => ?_
    obtain ⟨_, _, _, hd⟩ := hd
    exact .pure hd.onward
  · refine ensures_kind.bind fun k d hk => ?_
    obtain ⟨rfl, rfl⟩ := hk
    split
    · exact ensures_unexpected
    · exact .pure ⟨i, Nat.le_refl i, h⟩

/-- the items of a list are laid out behind what was passed before them -/
theorem lays_listStep {outline : α → List Outline} {close : TokenKind} {item : Parse α} {rest : Parse (List α)}
    (hitem : ∀ {c : Cursor} {i : Nat}, c.Stands text i → Ensures item c (Lays text outline i))
    (hrest : ∀ {c : Cursor} {i : Nat}, c.Stands text i → Ensures rest c (Lays text (List.flatMap outline) i))
    (h : c.Stands text i) : Ensures (listStep close item rest) c (Lays text (List.flatMap outline) i) := by
  refine ensures_kind.bind fun k d hk => ?_
  obtain ⟨rfl, rfl⟩ := hk
  split
  · exact .pure ⟨i, h, .nil (Nat.le_refl i)⟩
  refine (hitem h).bind fun a d hd => ?_
  obtain ⟨j, hd, hlaid⟩ := hd
  refine (onward_separator close hd).bind fun _ e he => ?_
  obtain ⟨k, hjk, he⟩ := he
  refine (hrest he).bind fun as f hf => ?_
  obtain ⟨l, hf, hothers⟩ := hf
  refine .pure ⟨l, hf, ?_⟩
  rw [List.flatMap_cons]
  exact (hlaid.up_to hjk).append hothers

theorem lays_param (h : c.Stands text i) : Ensures param c (Lays text (fun p => [p.outline]) i) := by
  refine (steps_expectDetailed h (by simp) _).bind fun name d hd => ?_
  obtain ⟨_, _, hd⟩ := hd
  refine (steps_expect hd.stands (by simp)).bind fun _ e he => ?_
  obtain ⟨_, _, he⟩ := he
  refine (onward_note he.stands).bind fun n f hf => ?_
  obtain ⟨_, hle, hf⟩ := hf
  have hforward := Nat.le_trans hd.forward (Nat.le_trans he.passed hle)
  exact lays_spanned hf (.nil hforward) hd.behind hd.start fun _ => rfl

theorem lays_params (h : c.Stands text i) :
    Ensures (params fuel) c (Lays text (List.flatMap fun p => [p.outline]) i) := by
  induction fuel generalizing c i with
  | zero => exact ensures_unexpected
  | succ fuel ih =>
    rw [params_succ]
    exact lays_listStep lays_param ih h

theorem onward_useNames (h : c.Stands text i) : Ensures (useNames fuel) c fun _ d => Onward text i d := by
  have hlays : Ensures (useNames fuel) c (Lays text (List.flatMap fun _ => []) i) := by
    induction fuel generalizing c i with
    | zero => exact ensures_unexpected
    | succ fuel ih =>
      rw [useNames_succ]
      refine lays_listStep (fun h => ?_) ih h
      refine (steps_expect h (by simp)).bind fun _ d hd => ?_
      obtain ⟨_, b, hd⟩ := hd
      exact .pure ⟨b, hd.stands, .nil hd.passed⟩
  intro names d hd
  obtain ⟨j, hd, hlaid⟩ := hlays names d hd
  exact ⟨j, hlaid.forward, hd⟩

theorem onward_useFilter (h : c.Stands text i) : Ensures useFilter c fun _ d => Onward text i d := by
  refine ensures_kind.bind fun k d hk => ?_
  obtain ⟨rfl, rfl⟩ := hk
  split
  · next hopening =>
    refine (steps_advance h (by simp [hopening])).bind fun _ d hd => ?_
    obtain ⟨_, _, _, hd⟩ := hd
    refine ensures_get.bind fun a e he => ?_
    obtain ⟨rfl, rfl⟩ := he
    refine (onward_useNames hd.stands).bind fun _ e he => ?_
    obtain ⟨_, hle, he⟩ := he
    refine (steps_expect he (by simp)).bind fun _ f hf => ?_
    obtain ⟨_, _, hf⟩ := hf
    exact .pure (hf.onward.of_le (Nat.le_trans hd.passed hle))
  · exact .pure ⟨i, Nat.le_refl i, h⟩

/-! ### Expressions and statements -/

theorem lays_primary (h : c.Stands text i) : Ensures primary c (Lays text (fun e => [e.outline]) i) := by
  have leaf {e : Expr} (hinside : c.current.kind ≠ .endOfText) (he : e.outline = .node c.current.span []) :
      Ensures (do let _ ← advance; return e) c (Lays text (fun e => [e.outline]) i) := by
    refine (steps_advance h hinside).bind fun t d hd => ?_
    obtain ⟨rfl, a, b, hd⟩ := hd
    refine .pure ⟨b, hd.stands, ?_⟩
    rw [he, hd.span]
    exact Laid.node (.nil hd.forward) hd.behind (Nat.le_refl b)
  refine ensures_get.bind fun a d hd => ?_
  obtain ⟨rfl, rfl⟩ := hd
  dsimp only
  split
  · next hkind =>
    split
    · exact leaf (by simp [hkind]) (by rw [Expr.outline])
    · exact ensures_throw
  · next hkind => exact leaf (by simp [hkind]) (by rw [Expr.outline])
  · next hkind => exact leaf (by simp [hkind]) (by rw [Expr.outline])
  · next hkind => exact leaf (by simp [hkind]) (by rw [Expr.outline])
  · next hkind => exact leaf (by simp [hkind]) (by rw [Expr.outline])
  · next hkind => exact leaf (by simp [hkind]) (by rw [Expr.outline])
  · exact ensures_unexpected

/-- the rules of expressions and statements, each with the steps given, lay out what they read -/
structure Nests (text : List Char) (fuel : Nat) : Prop where
  expr : ∀ power {c : Cursor} {i : Nat}, c.Stands text i →
    Ensures (exprWithin fuel power) c (Lays text (fun e => [e.outline]) i)
  operand : ∀ {c : Cursor} {i : Nat}, c.Stands text i →
    Ensures (operand fuel) c (Lays text (fun e => [e.outline]) i)
  tail : ∀ power {i : Nat} {left : Expr} {c : Cursor}, Lays text (fun e => [e.outline]) i left c →
    Ensures (exprTail fuel power left) c (Lays text (fun e => [e.outline]) i)
  items : ∀ close {c : Cursor} {i : Nat}, c.Stands text i →
    Ensures (exprItems fuel close) c (Lays text (List.flatMap fun e => [e.outline]) i)
  literal : ∀ {c : Cursor} {i : Nat}, c.Stands text i → c.current.kind = .fnWord →
    Ensures (functionLiteral fuel) c (Lays text (fun e => [e.outline]) i)
  declaration : ∀ {c : Cursor} {i : Nat}, c.Stands text i →
    Ensures (declaration fuel) c (Lays text (fun d => [d.outline]) i)
  stmt : ∀ {c : Cursor} {i : Nat}, c.Stands text i →
    Ensures (stmtWithin fuel) c (Lays text (fun s => [s.outline]) i)
  block : ∀ {c : Cursor} {i : Nat}, c.Stands text i →
    Ensures (blockWithin fuel) c (Lays text (fun b => [b.outline]) i)
  body : ∀ {c : Cursor} {i : Nat}, c.Stands text i → Ensures (blockBody fuel) c (Lays text Stmt.outlines i)

theorem Nests.expr_succ (ih : Nests text fuel) (power : BindingPower) (h : c.Stands text i) :
    Ensures (exprWithin (fuel + 1) power) c (Lays text (fun e => [e.outline]) i) :=
  (ih.operand h).bind fun _ _ hd => ih.tail power hd

theorem Nests.operand_succ (ih : Nests text fuel) (h : c.Stands text i) :
    Ensures (Parse.operand (fuel + 1)) c (Lays text (fun e => [e.outline]) i) := by
  refine ensures_kind.bind fun k d hk => ?_
  obtain ⟨rfl, rfl⟩ := hk
  split
  · next hword => exact ih.literal h hword
  · next hopening =>
    refine (steps_advance h (by simp [hopening])).bind fun bracket d hd => ?_
    obtain ⟨rfl, _, _, hd⟩ := hd
    refine (ih.items _ hd.stands).bind fun items e he => ?_
    obtain ⟨_, he, hitems⟩ := he
    refine (steps_expect he (by simp)).bind fun _ f hf => ?_
    obtain ⟨_, _, hf⟩ := hf
    exact lays_spanned hf.stands ((hitems.up_to hf.passed).of_le hd.forward) hd.behind hd.start fun _ => by
      rw [Expr.outline, Expr.outlines_eq]
  · next hopening =>
    -- the parentheses are no part of what they enclose, which lies between them
    refine (steps_advance h (by simp [hopening])).bind fun _ d hd => ?_
    obtain ⟨_, _, _, hd⟩ := hd
    refine (ih.expr _ hd.stands).bind fun e f he => ?_
    obtain ⟨_, hf, he⟩ := he
    refine (steps_expect hf (by simp)).bind fun _ g hg => ?_
    obtain ⟨b, _, hg⟩ := hg
    exact .pure ⟨_, hg.stands, (he.up_to hg.passed).of_le hd.passed⟩
  · exact lays_primary h

theorem Nests.tail_succ (ih : Nests text fuel) (power : BindingPower) {left : Expr}
    (hleft : Lays text (fun e => [e.outline]) i left c) :
    Ensures (exprTail (fuel + 1) power left) c (Lays text (fun e => [e.outline]) i) := by
  refine ensures_get.bind fun a d hd => ?_
  obtain ⟨rfl, rfl⟩ := hd
  dsimp only
  split
  · next hpower =>
    have hinside : c.current.kind ≠ .endOfText := by
      intro hend
      rw [hend] at hpower
      exact absurd (of_decide_eq_true hpower) (Nat.not_lt_zero _)
    obtain ⟨j, hc, hlaid⟩ := hleft
    refine (steps_advance hc hinside).bind fun token d hd => ?_
    obtain ⟨rfl, _, k, hd⟩ := hd
    -- what stands behind the left operand, up to the end of the longer expression
    have longer {os : List Outline} {l : Nat} (hos : Laid text k l os) :
        ∃ a, i ≤ a ∧ left.span.start = .ofPlace text a ∧ Laid text a l (left.outline :: os) := by
      rw [← Expr.span_outline]
      exact (hlaid.up_to hd.passed).of_single hos
    split
    · refine (ih.expr _ hd.stands).bind fun value e he => ?_
      obtain ⟨l, he, hvalue⟩ := he
      obtain ⟨b, hbl, hstop, hvalue⟩ := hvalue.stop_of_single
      obtain ⟨a, hia, hstart, hboth⟩ := longer hvalue
      refine ih.tail power ⟨l, he, ?_⟩
      rw [Expr.span_outline] at hstop
      rw [Expr.outline, hstart, hstop]
      exact hboth.node hia hbl
    · refine (ih.items _ hd.stands).bind fun arguments e he => ?_
      obtain ⟨_, he, harguments⟩ := he
      refine (steps_expect he (by simp)).bind fun _ f hf => ?_
      obtain ⟨_, l, hf⟩ := hf
      obtain ⟨a, hia, hstart, hboth⟩ := longer (harguments.up_to hf.passed)
      refine (placed_spanFrom hf.stands hstart).bind fun span g hg => ?_
      obtain ⟨rfl, rfl⟩ := hg
      refine ih.tail power ⟨l, hf.stands, ?_⟩
      rw [Expr.outline, Expr.outlines_eq]
      exact hboth.node hia (Nat.le_refl l)
    · refine (ih.expr _ hd.stands).bind fun index e he => ?_
      obtain ⟨_, he, hindex⟩ := he
      refine (steps_expect he (by simp)).bind fun _ f hf => ?_
      obtain ⟨_, l, hf⟩ := hf
      obtain ⟨a, hia, hstart, hboth⟩ := longer (hindex.up_to hf.passed)
      refine (placed_spanFrom hf.stands hstart).bind fun span g hg => ?_
      obtain ⟨rfl, rfl⟩ := hg
      refine ih.tail power ⟨l, hf.stands, ?_⟩
      rw [Expr.outline]
      exact hboth.node hia (Nat.le_refl l)
    · refine (ih.expr _ hd.stands).bind fun right e he => ?_
      obtain ⟨l, he, hright⟩ := he
      obtain ⟨b, hbl, hstop, hright⟩ := hright.stop_of_single
      obtain ⟨a, hia, hstart, hboth⟩ := longer hright
      refine ih.tail power ⟨l, he, ?_⟩
      rw [Expr.span_outline] at hstop
      rw [Expr.outline, hstart, hstop]
      exact hboth.node hia hbl
  · exact .pure hleft

theorem Nests.items_succ (ih : Nests text fuel) (close : TokenKind) (h : c.Stands text i) :
    Ensures (exprItems (fuel + 1) close) c (Lays text (List.flatMap fun e => [e.outline]) i) := by
  rw [exprItems_succ]
  exact lays_listStep (ih.expr _) (ih.items close) h

theorem Nests.literal_succ (ih : Nests text fuel) (h : c.Stands text i) (hword : c.current.kind = .fnWord) :
    Ensures (functionLiteral (fuel + 1)) c (Lays text (fun e => [e.outline]) i) := by
  refine (steps_advance h (by simp [hword])).bind fun word d hd => ?_
  obtain ⟨rfl, _, _, hd⟩ := hd
  refine (stands_freshId hd.stands).bind fun id d' hd' => ?_
  refine (steps_expect hd' (by simp)).bind fun _ e he => ?_
  obtain ⟨_, _, he⟩ := he
  refine ensures_get.bind fun a f hf => ?_
  obtain ⟨rfl, rfl⟩ := hf
  refine (lays_params he.stands).bind fun parameters f hf => ?_
  obtain ⟨_, hf, hparameters⟩ := hf
  refine (steps_expect hf (by simp)).bind fun _ g hg => ?_
  obtain ⟨_, _, hg⟩ := hg
  refine (annotation_onward hg.stands).bind fun result l hl => ?_
  obtain ⟨_, hle, hl⟩ := hl
  refine (ih.block hl).bind fun body m hm => ?_
  obtain ⟨_, hm, hbody⟩ := hm
  have hlaid := (hparameters.up_to (Nat.le_trans hg.passed hle)).append hbody
  exact lays_spanned hm (hlaid.of_le (Nat.le_trans hd.forward he.passed)) hd.behind hd.start fun _ => by
    rw [Expr.outline, List.map_eq_flatMap]

theorem Nests.declaration_succ (ih : Nests text fuel) (h : c.Stands text i) :
    Ensures (Parse.declaration (fuel + 1)) c (Lays text (fun d => [d.outline]) i) := by
  refine (steps_expect h (by simp)).bind fun word d hd => ?_
  obtain ⟨_, _, hd⟩ := hd
  refine (steps_expectDetailed hd.stands (by simp) _).bind fun _ e he => ?_
  obtain ⟨_, _, he⟩ := he
  refine (annotation_onward he.stands).bind fun _ f hf => ?_
  obtain ⟨_, hle, hf⟩ := hf
  refine (steps_expectDetailed hf (by simp) _).bind fun _ g hg => ?_
  obtain ⟨_, _, hg⟩ := hg
  refine (ih.expr _ hg.stands).bind fun value l hl => ?_
  obtain ⟨_, hl, hvalue⟩ := hl
  refine (steps_expect hl (by simp)).bind fun _ m hm => ?_
  obtain ⟨_, _, hm⟩ := hm
  have hpassed := Nat.le_trans hd.forward (Nat.le_trans he.passed (Nat.le_trans hle hg.passed))
  exact lays_spanned hm.stands ((hvalue.up_to hm.passed).of_le hpassed) hd.behind hd.start fun _ => by
    rw [Declaration.outline]

theorem Nests.stmt_succ (ih : Nests text fuel) (h : c.Stands text i) :
    Ensures (stmtWithin (fuel + 1)) c (Lays text (fun s => [s.outline]) i) := by
  refine ensures_kind.bind fun k d hk => ?_
  obtain ⟨rfl, rfl⟩ := hk
  split
  · refine (ih.declaration h).bind fun declared d hd => ?_
    obtain ⟨j, hd, hlaid⟩ := hd
    refine .pure ⟨j, hd, ?_⟩
    rw [Stmt.outline]
    exact hlaid
  · next hword =>
    refine (steps_advance h (by simp [hword])).bind fun word d hd => ?_
    obtain ⟨rfl, _, _, hd⟩ := hd
    refine (ih.expr _ hd.stands).bind fun condition e he => ?_
    obtain ⟨_, he, hcondition⟩ := he
    refine (ih.block he).bind fun body f hf => ?_
    obtain ⟨_, hf, hbody⟩ := hf
    exact lays_spanned hf ((hcondition.append hbody).of_le hd.forward) hd.behind hd.start fun _ => by
      rw [Stmt.outline]
      rfl
  · next hword =>
    refine (steps_advance h (by simp [hword])).bind fun word d hd => ?_
    obtain ⟨rfl, _, _, hd⟩ := hd
    refine ensures_kind.bind fun k e he => ?_
    obtain ⟨rfl, rfl⟩ := he
    split
    · next hsemicolon =>
      refine (steps_advance hd.stands (by simp [hsemicolon])).bind fun _ e he => ?_
      obtain ⟨_, _, _, he⟩ := he
      exact lays_spanned he.stands (.nil (Nat.le_trans hd.forward he.passed)) hd.behind hd.start fun _ => by
        rw [Stmt.outline]
    · refine (ih.expr _ hd.stands).bind fun value e he => ?_
      obtain ⟨_, he, hvalue⟩ := he
      refine (steps_expect he (by simp)).bind fun _ f hf => ?_
      obtain ⟨_, _, hf⟩ := hf
      exact lays_spanned hf.stands ((hvalue.up_to hf.passed).of_le hd.forward) hd.behind hd.start fun _ => by
        rw [Stmt.outline]
  · next hword =>
    refine (steps_advance h (by simp [hword])).bind fun word d hd => ?_
    obtain ⟨rfl, _, _, hd⟩ := hd
    refine ensures_kind.bind fun k e he => ?_
    obtain ⟨rfl, rfl⟩ := he
    split
    · exact ensures_unexpectedDetailed
    · refine (ih.declaration hd.stands).bind fun declared e he => ?_
      obtain ⟨_, he, hdeclared⟩ := he
      exact lays_spanned he (hdeclared.of_le hd.forward) hd.behind hd.start fun _ => by rw [Stmt.outline]
  · next hword =>
    refine (steps_advance h (by simp [hword])).bind fun word d hd => ?_
    obtain ⟨rfl, _, _, hd⟩ := hd
    refine (steps_expectDetailed hd.stands (by simp) _).bind fun _ e he => ?_
    obtain ⟨_, _, he⟩ := he
    refine (onward_useFilter he.stands).bind fun _ f hf => ?_
    obtain ⟨_, hle, hf⟩ := hf
    refine (steps_expect hf (by simp)).bind fun _ g hg => ?_
    obtain ⟨_, _, hg⟩ := hg
    have hforward := Nat.le_trans hd.forward (Nat.le_trans he.passed (Nat.le_trans hle hg.passed))
    exact lays_spanned hg.stands (.nil hforward) hd.behind hd.start fun _ => by rw [Stmt.outline]
  · refine (ih.expr _ h).bind fun e d hd => ?_
    obtain ⟨_, hd, hlaid⟩ := hd
    refine (steps_expect hd (by simp)).bind fun _ f hf => ?_
    obtain ⟨_, _, hf⟩ := hf
    obtain ⟨a, hia, hstart, hlaid⟩ := hlaid.of_single (.nil hf.passed)
    rw [Expr.span_outline] at hstart
    exact lays_spanned hf.stands hlaid hia hstart fun _ => by rw [Stmt.outline]

theorem Nests.block_succ (ih : Nests text fuel) (h : c.Stands text i) :
    Ensures (blockWithin (fuel + 1)) c (Lays text (fun b => [b.outline]) i) := by
  refine (steps_expect h (by simp)).bind fun bracket d hd => ?_
  obtain ⟨_, _, hd⟩ := hd
  refine (ih.body hd.stands).bind fun body e he => ?_
  obtain ⟨_, he, hbody⟩ := he
  refine (steps_expect he (by simp)).bind fun _ f hf => ?_
  obtain ⟨_, _, hf⟩ := hf
  exact lays_spanned hf.stands ((hbody.up_to hf.passed).of_le hd.forward) hd.behind hd.start fun _ => by
    rw [Block.outline]

/-- a statement before statements -/
theorem lays_cons_stmt {s : Stmt} {ss : List Stmt} (hlaid : Laid text i j [s.outline])
    (h : Lays text Stmt.outlines j ss d) : Lays text Stmt.outlines i (s :: ss) d := by
  obtain ⟨k, hd, hothers⟩ := h
  exact ⟨k, hd, hlaid.append hothers⟩

theorem Nests.body_succ (ih : Nests text fuel) (h : c.Stands text i) :
    Ensures (blockBody (fuel + 1)) c (Lays text Stmt.outlines i) := by
  refine ensures_kind.bind fun k d hk => ?_
  obtain ⟨rfl, rfl⟩ := hk
  split
  · exact .pure ⟨i, h, .nil (Nat.le_refl i)⟩
  · exact ensures_unexpected
  · refine (ih.stmt h).bind fun s d hd => ?_
    obtain ⟨_, hd, hs⟩ := hd
    exact (ih.body hd).bind fun ss e he => .pure (lays_cons_stmt hs he)

end Parse

end TypedScript
