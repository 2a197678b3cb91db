/-
Where reading stops. A rule that fails stops at a token such that the tokens before it can be completed to a phrase of
the rule, and it fails from all other tokens that start in the same way, up to and including the one it stops at.

A tail of an expression stops in what may stand behind the expression so far (`behind`), which has to be known to be an
expression of the right rank, as it is when the grammar is followed (`Parse.derives`).

- `Parse.followsNotes`: the rules of types.
- `Parse.follows`: the rules of expressions and statements.
- `Parse.follows_module`: a module.
-/
import TypedScript.Proofs.Tree.Grammar.Follows

namespace TypedScript

open Grammar

namespace Parse

variable {α β : Type} {z : Int} {L M : Language Token} {c d : Cursor} {ts us : List Token}
  {fuel fuel' short : Nat}

/-! ## Types -/

theorem follows_noteMarks {n n' : Note} (h : c.At ts) (hn : Enough z 7 ts fuel fuel') :
    Follows z L (noteMarks fuel .default n) (noteMarks fuel' .default n') c ts := by
  induction fuel generalizing fuel' c ts n n' L with
  | zero => exact absurd hn.own (by omega)
  | succ fuel ih =>
    refine .other_succ (noteMarks · .default n') hn (by decide) fun fuel' hn => ?_
    refine follows_kind h fun k hk => ?_
    split
    · next hmark =>
      refine .advance h (by simp [hk, hmark.1]) fun _ d us hts hd => ?_
      exact ih hd (hn.fewer (by decide) (by simp [hts]))
    · exact follows_pure h

/-- the rules of types -/
structure FollowsNotes (fuel : Nat) : Prop where
  within : ∀ {z : Int} {c : Cursor} {ts : List Token} {fuel' : Nat}, c.At ts → Enough z 5 ts fuel fuel' →
    Follows z (phrase IsNote) (noteWithin fuel .default) (noteWithin fuel' .default) c ts
  head : ∀ {z : Int} {c : Cursor} {ts : List Token} {fuel' : Nat}, c.At ts → Enough z 6 ts fuel fuel' →
    Follows z (phrase IsNote) (noteHead fuel) (noteHead fuel') c ts
  items : ∀ {z : Int} {c : Cursor} {ts : List Token} {fuel' : Nat}, c.At ts → Enough z 4 ts fuel fuel' →
    Follows z (phrase IsNotes) (noteItems fuel) (noteItems fuel') c ts

theorem takes_within (h : c.At ts) (hn : Enough z short ts fuel fuel') (hshort : short ≤ 5) :
    Ensures (noteWithin fuel .default) c (Takes ts fun n used _ => IsNote used n) := by
  have hown := hn.own
  intro n d hx
  obtain ⟨used, left, hts, hd, hnote, _⟩ := (derivesNotes fuel).within h (by omega) n d hx
  exact ⟨used, left, hts, hd, hnote⟩

theorem FollowsNotes.within_succ (ih : FollowsNotes fuel) (h : c.At ts) (hn : Enough z 5 ts (fuel + 1) fuel') :
    Follows z (phrase IsNote) (noteWithin (fuel + 1) .default) (noteWithin fuel' .default) c ts := by
  refine .other_succ (noteWithin · .default) hn (by decide) fun fuel' hn => ?_
  have hown := hn.own
  refine (ih.head h (hn.same (by decide))).bind ((derivesNotes fuel).head h (by omega)) id
    fun n _ d used left hts hhead hd => ?_
  have hused : 0 < used.length := hhead.elim (fun hm => hm.starts.length_pos) fun hn => hn.1.starts.length_pos
  exact follows_noteMarks hd (hn.fewer (by decide) (by rw [hts, List.length_append]; omega))

theorem FollowsNotes.head_succ (ih : FollowsNotes fuel) (h : c.At ts) (hn : Enough z 6 ts (fuel + 1) fuel') :
    Follows z (phrase IsNote) (noteHead (fuel + 1)) (noteHead fuel') c ts := by
  refine .other_succ noteHead hn (by decide) fun fuel' hn => ?_
  refine follows_kind h fun k hk => ?_
  cases k with
  | identifier => exact .advance h (by simp [hk]) fun _ d us _ hd => follows_pure hd
  | openBracket =>
    refine .mono (.first h hk (by decide) fun _ d us hts hd => ?_) prod_note_list_le
    have hn : Enough z 5 us fuel fuel' := hn.fewer (by decide) (by simp [hts])
    refine (ih.within hd hn).seq (takes_within hd hn (by decide)) mem_phrase (by simp) fun _ _ e used left _ _ he => ?_
    exact .expect he (by decide) (by simp) fun _ _ f _ _ hf => follows_pure hf
  | openParen =>
    refine .mono (.first h hk (by decide) fun _ d us hts hd => ?_) prod_note_paren_le
    have hn' : Enough z 4 us fuel fuel' := hn.fewer (by decide) (by simp [hts])
    have hown := hn'.own
    refine (ih.items hd hn').seq ((derivesNotes fuel).items hd (by omega)) mem_phrase (by simp)
      fun _ _ e used left hus _ he => ?_
    refine .expect he (by decide) (by simp) fun _ _ f vs hleft hf => .last (follows_kind hf fun k hk => ?_)
    split
    · next harrow =>
      refine .mono (.first hf (hk.trans harrow) (by decide) fun _ g ws hvs hg => ?_) prod_arrow_le
      have hn : Enough z 5 ws fuel fuel' := hn.fewer (by decide) (by
        simp only [hts, hus, hleft, hvs, List.length_cons, List.length_append]; omega)
      exact .last ((ih.within hg hn).before fun _ _ _ _ _ _ hj => follows_pure hj)
    · exact follows_pure hf
  | _ => exact follows_unexpected h completable_note

theorem FollowsNotes.items_succ (ih : FollowsNotes fuel) (h : c.At ts) (hn : Enough z 4 ts (fuel + 1) fuel') :
    Follows z (phrase IsNotes) (noteItems (fuel + 1)) (noteItems fuel') c ts := by
  refine .other_succ noteItems hn (by decide) fun fuel' hn => ?_
  refine follows_kind h fun k hk => ?_
  split
  · exact follows_pure h
  have hwithin : Enough z 5 ts fuel fuel' := hn.same (by decide)
  refine .mono ((ih.within h hwithin).seq (takes_within h hwithin (by decide)) mem_phrase (by simp)
    fun item _ d used left hts hitem hd => .last (follows_kind hd fun k hk => ?_)) prod_notes_le
  have hused := hitem.starts.length_pos
  split
  · next hcomma =>
    refine .mono (.first hd (hk.trans hcomma) (by decide) fun _ e us hleft he => .last ?_) prod_comma_le
    have hn : Enough z 4 us fuel fuel' := hn.fewer (by decide) (by
      simp only [hts, hleft, List.length_cons, List.length_append]; omega)
    exact (ih.items he hn).before fun _ _ _ _ _ _ hf => follows_pure hf
  · have hn : Enough z 4 left fuel fuel' := hn.fewer (by decide) (by rw [hts, List.length_append]; omega)
    exact ((ih.items hd hn).before fun _ _ _ _ _ _ hf => follows_pure hf).mono notes_le_moreNotes

theorem followsNotes (fuel : Nat) : FollowsNotes fuel := by
  induction fuel with
  | zero =>
    exact ⟨fun _ hn => absurd hn.own (by omega), fun _ hn => absurd hn.own (by omega),
      fun _ hn => absurd hn.own (by omega)⟩
  | succ fuel ih => exact ⟨ih.within_succ, ih.head_succ, ih.items_succ⟩

theorem follows_note (h : c.At ts) : Follows z (phrase IsNote) (note .default) (note .default) c ts :=
  .start h fun _ hn => (followsNotes _).within h (hn.longer (by decide))

theorem annotation_follows (h : c.At ts) : Follows z (phrase IsAnnotation) annotation annotation c ts := by
  refine follows_kind h fun k hk => ?_
  split
  · next hcolon =>
    refine .mono (.first h (hk.trans hcolon) (by decide) fun _ d us _ hd => .last ?_) prod_annotation_le
    exact (follows_note hd).before fun _ _ _ _ _ _ he => follows_pure he
  · exact follows_pure h

/-! ## Items between commas -/

theorem follows_separator {close : TokenKind} (h : c.At ts) (hL : Completable L []) :
    Follows z L (separator close) (separator close) c ts := by
  refine follows_kind h fun k hk => ?_
  split
  · next hcomma => exact .advance h (by simp [hk, hcomma]) fun _ d us _ hd => follows_pure hd
  · refine follows_kind h fun k hk => ?_
    split
    · exact follows_unexpected h hL
    · exact follows_pure h

theorem separator_takes {close : TokenKind} (h : c.At ts) : Ensures (separator close) c (Takes ts fun _ used left =>
    (∃ comma, comma.kind = .comma ∧ used = [comma]) ∨ headKind left = close ∧ used = []) := by
  intro _ d hx
  rcases takes_separator h _ d hx with ⟨comma, us, rfl, hcomma, hd⟩ | ⟨hclose, rfl⟩
  · exact ⟨[comma], us, rfl, hd, .inl ⟨comma, hcomma, rfl⟩⟩
  · exact ⟨[], ts, rfl, h, .inr ⟨h.kind ▸ hclose, rfl⟩⟩

theorem listStep_close {close : TokenKind} {item : Parse α} {rest : Parse (List α)} (h : c.current.kind = close) :
    listStep close item rest c = .ok [] c := by
  have hstep : listStep close item rest c = (if c.current.kind = close then (pure [] : Parse (List α)) else do
      let a ← item
      separator close
      let items ← rest
      return a :: items) c := rfl
  rw [hstep, if_pos h]
  rfl

theorem follows_listStep {IsItem : List Token → β → Prop} {view : α → β} {close : TokenKind} {item item' : Parse α}
    {rest rest' : Parse (List α)} (h : c.At ts) (hitem : Follows z (phrase IsItem) item item' c ts)
    (htakes : Ensures item c (Takes ts fun a used _ => IsItem used (view a)))
    (hpos : ∀ {us : List Token} {b : β}, IsItem us b → 0 < us.length)
    (hrest : ∀ {d : Cursor} {left : List Token}, left.length < ts.length → d.At left →
      Follows z (phrase (IsList IsItem)) rest rest' d left ∧ (d.current.kind = close → rest d = .ok [] d)) :
    Follows z (phrase (IsList IsItem)) (listStep close item rest) (listStep close item' rest') c ts := by
  refine follows_kind h fun k hk => ?_
  split
  · exact follows_pure h
  refine hitem.bind htakes (·.mono item_le_list) fun a b d used left hts ha hd => ?_
  have hlast : Completable ((phrase (IsList IsItem)).leftQuotient used) [] :=
    completable_leftQuotient (mem_phrase (.last ha))
  refine (follows_separator hd hlast).bind (separator_takes hd) id fun _ _ e more left' hleft hmore he => ?_
  have hshorter : left'.length < ts.length := by
    have hused := hpos ha
    simp only [hts, hleft, List.length_append]
    omega
  obtain ⟨hfollows, hclose⟩ := hrest hshorter he
  rcases hmore with ⟨comma, hcomma, rfl⟩ | ⟨hkind, rfl⟩
  · have hle : phrase (IsList IsItem) ≤ ((phrase (IsList IsItem)).leftQuotient used).leftQuotient [comma] := by
      rintro us ⟨items, hitems⟩
      exact mem_phrase (.more ha hcomma hitems)
    exact (hfollows.mono hle).before fun _ _ _ _ _ _ hf => follows_pure hf
  · refine (hfollows.of_passes (hclose ?_)).before fun _ _ _ _ _ _ hf => follows_pure hf
    rw [he.kind, hkind]

theorem follows_param (h : c.At ts) : Follows z (phrase IsParameter) param param c ts := by
  refine .mono (.expectDetailed h (by decide) (by simp) fun _ _ d us _ hd => ?_) prod_parameter_le
  refine .expect hd (by decide) (by simp) fun _ _ e vs _ he => .last ?_
  exact (follows_note he).before fun _ _ _ _ _ _ hf => follows_spanFrom fun _ _ => follows_pure hf

/-- a list whose items all follow one rule -/
theorem follows_list {IsItem : List Token → β → Prop} {view : α → β} {close : TokenKind} {item : Parse α}
    {list : Nat → Parse (List α)} (hsucc : ∀ n, list (n + 1) = listStep close item (list n))
    (hitem : ∀ {c : Cursor} {ts : List Token}, c.At ts → Follows z (phrase IsItem) item item c ts)
    (htakes : ∀ {c : Cursor} {ts : List Token}, c.At ts →
      Ensures item c (Takes ts fun a used _ => IsItem used (view a)))
    (hpos : ∀ {us : List Token} {b : β}, IsItem us b → 0 < us.length) (h : c.At ts) (hn : Enough z 7 ts fuel fuel') :
    Follows z (phrase (IsList IsItem)) (list fuel) (list fuel') c ts ∧
      (c.current.kind = close → list fuel c = .ok [] c) := by
  induction fuel generalizing fuel' c ts with
  | zero => exact absurd hn.own (by omega)
  | succ fuel ih =>
    refine ⟨.other_succ list hn (by decide) fun fuel' hn => ?_, fun hclose => ?_⟩
    · rw [hsucc, hsucc]
      exact follows_listStep h (hitem h) (htakes h) hpos fun hshorter hd => ih hd (hn.fewer (by decide) hshorter)
    · rw [hsucc]
      exact listStep_close hclose

theorem follows_params (h : c.At ts) (hn : Enough z 7 ts fuel fuel') :
    Follows z (phrase (IsList IsParameter)) (params fuel) (params fuel') c ts :=
  (follows_list params_succ follows_param takes_param (by rintro _ _ ⟨⟩; simp) h hn).1

theorem name_takes (h : c.At ts) : Ensures (do return (← expect .identifier).value) c
    (Takes ts fun name used _ => IsName used name) := by
  refine (takes_token (ensures_expect h (by decide))).bind fun t d hd => ?_
  obtain ⟨used, left, hts, hd, ht, rfl⟩ := hd
  exact .pure ⟨[t], left, hts, hd, .mk ht⟩

theorem follows_useNames (h : c.At ts) (hn : Enough z 7 ts fuel fuel') :
    Follows z (phrase (IsList IsName)) (useNames fuel) (useNames fuel') c ts := by
  refine (follows_list useNames_succ (fun h => ?_) name_takes (by rintro _ _ ⟨⟩; simp) h hn).1
  exact ((follows_expect h (by decide)).before fun _ _ _ _ _ _ hd => follows_pure hd).mono name_le

theorem follows_useFilter (h : c.At ts) : Follows z (phrase IsFilter) useFilter useFilter c ts := by
  refine follows_kind h fun k hk => ?_
  split
  · next hopening =>
    refine .mono (.first h (hk.trans hopening) (by decide) fun _ d us _ hd => .start hd fun _ hn => ?_) prod_filter_le
    refine (follows_useNames hd (hn.longer (by decide))).seq (takesList_useNames _ hd)
      (fun hnames => mem_phrase hnames.1) (by simp) fun _ _ e used left _ _ he => ?_
    exact .expect he (by decide) (by simp) fun _ _ f _ _ hf => follows_pure hf
  · exact follows_pure h

/-! ## Expressions and statements -/

theorem follows_primary (h : c.At ts) : Follows z (phrase IsPrimary) primary primary c ts := by
  have single {e e' : Expr} (hinside : c.current.kind ≠ .endOfText) : Follows z (phrase IsPrimary)
      (do let _ ← advance; return e) (do let _ ← advance; return e') c ts :=
    .advance h hinside fun _ d us _ hd => follows_pure hd
  refine follows_get h fun c' hkind hvalue => ?_
  dsimp only
  rw [hkind]
  cases hk : c.current.kind with
  | number =>
    have hinside : c.current.kind ≠ .endOfText := by simp [hk]
    dsimp only
    rw [hvalue hinside]
    cases int64? c.current.value with
    | some value => exact single hinside
    | none => exact follows_throw h rfl completable_primary
  | string => exact single (by simp [hk])
  | identifier => exact single (by simp [hk])
  | trueWord => exact single (by simp [hk])
  | falseWord => exact single (by simp [hk])
  | selfWord => exact single (by simp [hk])
  | _ => exact follows_unexpected h completable_primary

/-- the rules of expressions and statements. Each may have a few steps less than eight for each token and the end: the
more of them, the later it comes in a chain of rules that pass no token, as from a body by a statement and an expression
to an operand -/
structure FollowsRules (fuel : Nat) : Prop where
  expr : ∀ power {z : Int} {c : Cursor} {ts : List Token} {fuel' : Nat}, c.At ts → Enough z 5 ts fuel fuel' →
    Follows z (phrase (Binds power.floor)) (exprWithin fuel power) (exprWithin fuel' power) c ts
  operand : ∀ {z : Int} {c : Cursor} {ts : List Token} {fuel' : Nat}, c.At ts → Enough z 6 ts fuel fuel' →
    Follows z (phrase IsPrimary) (operand fuel) (operand fuel') c ts
  /-- the expression so far may stand in the place, and before the next token if that is taken -/
  tail : ∀ power {z : Int} {c : Cursor} {ts : List Token} {fuel' : Nat} {pre : List Token} {left : Expr} (left' : Expr),
    c.At ts → Enough z 7 ts fuel fuel' → Binds power.floor pre left.bare →
    (power.weaker (BindingPower.ofToken (headKind ts)) = true →
      Binds (BindingPower.ofToken (headKind ts)).rank pre left.bare) →
    Follows z (behind power.floor pre) (exprTail fuel power left) (exprTail fuel' power left') c ts
  items : ∀ close {z : Int} {c : Cursor} {ts : List Token} {fuel' : Nat}, c.At ts → Enough z 4 ts fuel fuel' →
    Follows z (phrase (IsList IsExpr)) (exprItems fuel close) (exprItems fuel' close) c ts
  literal : ∀ {z : Int} {c : Cursor} {ts : List Token} {fuel' : Nat}, c.At ts → Enough z 7 ts fuel fuel' →
    c.current.kind = .fnWord → Follows z (phrase IsPrimary) (functionLiteral fuel) (functionLiteral fuel') c ts
  declaration : ∀ {z : Int} {c : Cursor} {ts : List Token} {fuel' : Nat}, c.At ts → Enough z 7 ts fuel fuel' →
    Follows z (phrase IsDeclaration) (declaration fuel) (declaration fuel') c ts
  stmt : ∀ {z : Int} {c : Cursor} {ts : List Token} {fuel' : Nat}, c.At ts → Enough z 4 ts fuel fuel' →
    Follows z (phrase IsStmt) (stmtWithin fuel) (stmtWithin fuel') c ts
  block : ∀ {z : Int} {c : Cursor} {ts : List Token} {fuel' : Nat}, c.At ts → Enough z 7 ts fuel fuel' →
    Follows z (phrase IsBlock) (blockWithin fuel) (blockWithin fuel') c ts
  body : ∀ {z : Int} {c : Cursor} {ts : List Token} {fuel' : Nat}, c.At ts → Enough z 3 ts fuel fuel' →
    Follows z (phrase IsStmts) (blockBody fuel) (blockBody fuel') c ts

theorem FollowsRules.whole (ih : FollowsRules fuel) (h : c.At ts) (hn : Enough z 5 ts fuel fuel') :
    Follows z (phrase IsExpr) (exprWithin fuel .default) (exprWithin fuel' .default) c ts :=
  ih.expr .default h hn

theorem FollowsRules.expr_succ (ih : FollowsRules fuel) (power : BindingPower) (h : c.At ts)
    (hn : Enough z 5 ts (fuel + 1) fuel') :
    Follows z (phrase (Binds power.floor)) (exprWithin (fuel + 1) power) (exprWithin fuel' power) c ts := by
  refine .other_succ (exprWithin · power) hn (by decide) fun fuel' hn => ?_
  refine (ih.operand h (hn.same (by decide))).bind ((derives fuel).operand h) (·.mono (primary_le power))
    fun e e' d used left hts hprimary hd => ?_
  have hbinds : Binds 8 used e.bare := hprimary
  have hrank := rank_le (BindingPower.ofToken (headKind left))
  have hused := hprimary.starts.length_pos
  exact ih.tail power e' hd (hn.fewer (by decide) (by rw [hts, List.length_append]; omega))
    (hbinds.mono (floor_le power)) fun _ => hbinds.mono (by omega)

theorem FollowsRules.operand_succ (ih : FollowsRules fuel) (h : c.At ts) (hn : Enough z 6 ts (fuel + 1) fuel') :
    Follows z (phrase IsPrimary) (Parse.operand (fuel + 1)) (Parse.operand fuel') c ts := by
  refine .other_succ Parse.operand hn (by decide) fun fuel' hn => ?_
  refine follows_kind h fun k hk => ?_
  cases k with
  | fnWord => exact ih.literal h (hn.same (by decide)) hk
  | openBracket =>
    refine .mono (.first h hk (by decide) fun _ d us hts hd => ?_) prod_list_le
    refine (ih.items _ hd (hn.fewer (by decide) (by simp [hts]))).seq ((derives fuel).exprs _ hd)
      (fun hitems => mem_phrase (isExprs_iff.1 hitems)) (by simp) fun _ _ e used left _ _ he => ?_
    exact .expect he (by decide) (by simp) fun _ _ f _ _ hf => follows_spanFrom fun _ _ => follows_pure hf
  | openParen =>
    refine .mono (.first h hk (by decide) fun _ d us hts hd => ?_) prod_parentheses_le
    refine (ih.whole hd (hn.fewer (by decide) (by simp [hts]))).seq ((derives fuel).whole hd)
      (fun hexpr => mem_phrase hexpr.1) (by simp) fun _ _ e used left _ _ he => ?_
    exact .expect he (by decide) (by simp) fun _ _ f _ _ hf => follows_pure hf
  | _ => exact follows_primary h

/-- what stands behind an operator or an assignment, and the tail behind that -/
theorem FollowsRules.valued (ih : FollowsRules fuel) (power place : BindingPower) {pre : List Token}
    {build build' : Expr → Expr} (h : c.At us) (hn : ∀ {short : Nat}, Enough z short us fuel fuel')
    (hle : phrase (Binds place.floor) ≤ behind power.floor pre)
    (hbinds : ∀ {value used left}, Binds place.floor used value.bare →
      place.weaker (BindingPower.ofToken (headKind left)) = false →
      Binds power.floor (pre ++ used) (build value).bare ∧
        (power.weaker (BindingPower.ofToken (headKind left)) = true →
          Binds (BindingPower.ofToken (headKind left)).rank (pre ++ used) (build value).bare)) :
    Follows z (behind power.floor pre)
      (do
        let value ← exprWithin fuel place
        exprTail fuel power (build value))
      (do
        let value ← exprWithin fuel' place
        exprTail fuel' power (build' value)) c us := by
  refine (ih.expr place h hn).bind ((derives fuel).expr place h) (·.mono hle)
    fun value _ d used left hus hvalue hd => ?_
  obtain ⟨hplace, hnext⟩ := hbinds hvalue.1 hvalue.2
  rw [leftQuotient_behind]
  exact ih.tail power _ hd (hn.shorter (by simp [hus])) hplace hnext

/-- what stands between brackets behind an expression, and the tail behind that -/
theorem FollowsRules.bracketed (ih : FollowsRules fuel) (power : BindingPower) {pre : List Token} {close : TokenKind}
    {inner inner' : Parse α} {build build' : α → Span → Expr} {start start' : Position}
    (hn : Enough z 7 us fuel fuel') (hfloor : power.floor ≤ 7) (hclose : close ≠ .endOfText)
    (hinner : Follows z L inner inner' c us) (hle : [L, ofKind close].prod ≤ behind power.floor pre)
    (htakes : Ensures inner c (Takes us fun a used _ => used ∈ L ∧ ∀ (closing : Token) (span : Span),
      closing.kind = close → Binds 7 (pre ++ (used ++ [closing])) (build a span).bare)) :
    Follows z (behind power.floor pre)
      (do
        let a ← inner
        let _ ← expect close
        let span ← spanFrom start
        exprTail fuel power (build a span))
      (do
        let a ← inner'
        let _ ← expect close
        let span ← spanFrom start'
        exprTail fuel' power (build' a span)) c us := by
  refine hinner.bind htakes (fun hused => (hused.prod (by simp [hclose])).mono hle)
    fun a a' d used left hus ha hd => ?_
  refine (follows_expect hd hclose).bind (takes_token (ensures_expect hd hclose))
    (·.mono (le_leftQuotient_of_prod_le hle ha.1)) fun closing _ e _ rest hleft hclosing he => ?_
  obtain ⟨hclosing, rfl⟩ := hclosing
  refine follows_spanFrom fun span span' => ?_
  have hbinds := ha.2 closing span hclosing
  have hrank := rank_le (BindingPower.ofToken (headKind rest))
  rw [leftQuotient_behind, leftQuotient_behind, List.append_assoc]
  exact ih.tail power _ he (hn.shorter (by simp [hus, hleft]; omega)) (hbinds.mono hfloor) fun _ =>
    hbinds.mono hrank

theorem FollowsRules.tail_succ (ih : FollowsRules fuel) (power : BindingPower) {pre : List Token} {left : Expr}
    (left' : Expr) (h : c.At ts) (hn : Enough z 7 ts (fuel + 1) fuel') (hplace : Binds power.floor pre left.bare)
    (hnext : power.weaker (BindingPower.ofToken (headKind ts)) = true →
      Binds (BindingPower.ofToken (headKind ts)).rank pre left.bare) :
    Follows z (behind power.floor pre) (exprTail (fuel + 1) power left) (exprTail fuel' power left') c ts := by
  refine .other_succ (exprTail · power left') hn (by decide) fun fuel' hn => ?_
  refine follows_get h fun c' hkind _ => ?_
  dsimp only
  rw [hkind]
  split
  · next hpower =>
    rw [← h.kind] at hnext
    have hleft := hnext hpower
    have hfloor := floor_le_of_weaker hpower
    have hinside : c.current.kind ≠ .endOfText := by
      intro hend
      rw [hend] at hpower
      exact absurd (of_decide_eq_true hpower) (Nat.not_lt_zero _)
    refine .advance h hinside fun _ d us hts hd => ?_
    rw [leftQuotient_behind]
    have hn {short : Nat} : Enough z short us fuel fuel' := hn.fewer (by decide) (by simp [hts])
    split
    · next hmark =>
      -- nothing binds more weakly than an assignment, so that none stands in the place of a tighter power
      rw [hmark] at hleft hpower
      have hdefault : power = .default := by cases power <;> first | rfl | cases hpower
      subst hdefault
      refine ih.valued .default .default hd hn (assign_le_behind hleft hmark)
        fun hvalue hrest => ⟨?_, fun hweaker => ?_⟩
      · rw [List.append_assoc]
        exact .assign hleft hmark hvalue
      · simp [hrest] at hweaker
    · next hopening =>
      rw [hopening] at hleft hfloor
      refine ih.bracketed power hn hfloor (by decide)
        (ih.items .closeParen hd hn) (call_le_behind hleft hopening hfloor) ?_
      intro arguments e hx
      obtain ⟨used, rest, hus, he, harguments⟩ := (derives fuel).exprs _ hd arguments e hx
      refine ⟨used, rest, hus, he, mem_phrase (isExprs_iff.1 harguments), fun closing span hclosing => ?_⟩
      rw [List.append_assoc]
      exact .call hleft hopening harguments hclosing
    · next hopening =>
      rw [hopening] at hleft hfloor
      refine ih.bracketed power hn hfloor (by decide) (ih.whole hd hn)
        (subscript_le_behind hleft hopening hfloor) ?_
      intro index e hx
      obtain ⟨used, rest, hus, he, hindex, _⟩ := (derives fuel).whole hd index e hx
      refine ⟨used, rest, hus, he, mem_phrase hindex, fun closing span hclosing => ?_⟩
      rw [List.append_assoc]
      exact .subscript hleft hopening hindex hclosing
    · next hassign hparen hbracket =>
      obtain ⟨level, hop⟩ := exists_level (h.proper c.current (by simp [hts])) hpower hassign hparen hbracket
      obtain ⟨htightness, _⟩ := Level.ofToken_operator hop
      rw [htightness] at hleft hfloor ⊢
      refine ih.valued power level.power hd hn (operator_le_behind hleft hop hfloor)
        fun {right used _} hright hrest => ?_
      rw [level.floor_power] at hright
      have hbinary : Binds level.power.rank (pre ++ [c.current] ++ used)
          (Expr.binary c.current.value left right ⟨left.span.start, right.span.stop⟩).bare := by
        rw [List.append_assoc]
        exact isBinary_iff.1 (.apply (isBinary_iff.2 hleft) hop (isOperand_iff.2 hright))
      exact ⟨hbinary.mono hfloor, fun _ => hbinary.mono (rank_le_of_not_weaker hrest)⟩
  · exact follows_pure h

theorem FollowsRules.items_succ (ih : FollowsRules fuel) (close : TokenKind) (h : c.At ts)
    (hn : Enough z 4 ts (fuel + 1) fuel') :
    Follows z (phrase (IsList IsExpr)) (exprItems (fuel + 1) close) (exprItems fuel' close) c ts := by
  refine .other_succ (exprItems · close) hn (by decide) fun fuel' hn => ?_
  rw [exprItems_succ, exprItems_succ]
  refine follows_listStep h (ih.whole h (hn.same (by decide))) ((derives fuel).whole_takes h)
    (fun hexpr => hexpr.starts.length_pos) fun hshorter hd => ?_
  have hn : Enough z 4 _ fuel fuel' := hn.fewer (by decide) hshorter
  refine ⟨ih.items close hd hn, fun hclose => ?_⟩
  obtain ⟨n, rfl⟩ := hn.succ (by decide)
  rw [exprItems_succ]
  exact listStep_close hclose

theorem FollowsRules.literal_succ (ih : FollowsRules fuel) (h : c.At ts) (hn : Enough z 7 ts (fuel + 1) fuel')
    (hword : c.current.kind = .fnWord) :
    Follows z (phrase IsPrimary) (functionLiteral (fuel + 1)) (functionLiteral fuel') c ts := by
  refine .other_succ functionLiteral hn (by decide) fun fuel' hn => ?_
  refine .mono (.first h hword (by decide) fun _ d us hts hd => ?_) prod_function_le
  refine .freshId hd fun _ _ d hd => ?_
  refine .expect hd (by decide) (by simp) fun _ _ e vs hus he => .start he fun hz hparams => ?_
  refine (follows_params he (hparams.longer (by decide))).seq (takesList_params _ he)
    (fun hparams => mem_phrase (isList_map hparams.1)) (by simp) fun _ _ f used left hvs _ hf => ?_
  refine .expect hf (by decide) (by simp) fun _ _ g ws hleft hg => ?_
  refine (annotation_follows hg).seq (annotation_takes hg) mem_phrase (by simp) fun _ _ j note rest hws _ hj => .last ?_
  have hshorter : rest.length < ts.length := by
    simp only [hts, hus, hvs, hleft, hws, List.length_cons, List.length_append]
    omega
  exact (ih.block hj ((hn.less hz).fewer (by decide) hshorter)).before fun _ _ _ _ _ _ hk =>
    follows_spanFrom fun _ _ => follows_pure hk

theorem FollowsRules.declaration_succ (ih : FollowsRules fuel) (h : c.At ts) (hn : Enough z 7 ts (fuel + 1) fuel') :
    Follows z (phrase IsDeclaration) (Parse.declaration (fuel + 1)) (Parse.declaration fuel') c ts := by
  refine .other_succ Parse.declaration hn (by decide) fun fuel' hn => ?_
  refine .mono (.expect h (by decide) (by simp) fun _ _ d us hts hd => ?_) prod_declaration_le
  refine .expectDetailed hd (by decide) (by simp) fun _ _ e vs hus he => ?_
  refine (annotation_follows he).seq (annotation_takes he) mem_phrase (by simp) fun _ _ f note left hvs _ hf => ?_
  refine .expectDetailed hf (by decide) (by simp) fun _ _ g ws hleft hg => ?_
  have hshorter : ws.length < ts.length := by
    simp only [hts, hus, hvs, hleft, List.length_cons, List.length_append]
    omega
  refine (ih.whole hg (hn.fewer (by decide) hshorter)).seq ((derives fuel).whole_takes hg) mem_phrase (by simp)
    fun _ _ j used rest _ _ hj => ?_
  exact .expect hj (by decide) (by simp) fun _ _ _ _ _ hk => follows_spanFrom fun _ _ => follows_pure hk

theorem follows_useStmt (h : c.At ts) (hword : c.current.kind = .useWord) :
    Follows z (phrase IsStmt) useStmt useStmt c ts := by
  refine .mono (.first h hword (by decide) fun _ d us _ hd => ?_) prod_use_le
  refine .expectDetailed hd (by decide) (by simp) fun _ _ e vs _ he => ?_
  refine (follows_useFilter he).seq (takes_useFilter he) mem_phrase (by simp) fun _ _ f used left _ _ hf => ?_
  exact .expect hf (by decide) (by simp) fun _ _ _ _ _ hg => follows_spanFrom fun _ _ => follows_pure hg

theorem FollowsRules.stmt_succ (ih : FollowsRules fuel) (h : c.At ts) (hn : Enough z 4 ts (fuel + 1) fuel') :
    Follows z (phrase IsStmt) (stmtWithin (fuel + 1)) (stmtWithin fuel') c ts := by
  refine .other_succ stmtWithin hn (by decide) fun fuel' hn => ?_
  refine follows_kind h fun k hk => ?_
  split
  · exact ((ih.declaration h (hn.same (by decide))).before fun _ _ _ _ _ _ hd => follows_pure hd).mono declaration_le
  · refine .mono (.first h hk (by decide) fun _ d us hts hd => ?_) prod_cond_le
    refine (ih.whole hd (hn.fewer (by decide) (by simp [hts]))).seq ((derives fuel).whole_takes hd) mem_phrase (by simp)
      fun _ _ e used left hus _ he => .last ?_
    have hshorter : left.length < ts.length := by
      simp only [hts, hus, List.length_cons, List.length_append]
      omega
    exact (ih.block he (hn.fewer (by decide) hshorter)).before fun _ _ _ _ _ _ hf =>
      follows_spanFrom fun _ _ => follows_pure hf
  · refine .mono (.first h hk (by decide) fun _ d us hts hd => .last ?_) prod_giveBack_le
    refine follows_kind hd fun k hk => ?_
    split
    · next hsemicolon =>
      refine .mono (.first hd (hk.trans hsemicolon) (by decide) fun _ e vs _ he => ?_) semicolon_le_returned
      exact follows_spanFrom fun _ _ => follows_pure he
    · refine .mono ((ih.whole hd (hn.fewer (by decide) (by simp [hts]))).seq ((derives fuel).whole_takes hd) mem_phrase
        (by simp) fun _ _ e used left _ _ he => ?_) prod_returned_le
      exact .expect he (by decide) (by simp) fun _ _ _ _ _ hf => follows_spanFrom fun _ _ => follows_pure hf
  · refine .mono (.first h hk (by decide) fun _ d us hts hd => .last ?_) prod_pub_le
    refine follows_kind hd fun k hk => ?_
    split
    · exact follows_unexpectedDetailed hd completable_declaration
    · exact (ih.declaration hd (hn.fewer (by decide) (by simp [hts]))).before fun _ _ _ _ _ _ he =>
        follows_spanFrom fun _ _ => follows_pure he
  · exact follows_useStmt h hk
  · refine .mono ((ih.whole h (hn.same (by decide))).seq ((derives fuel).whole_takes h) mem_phrase (by simp)
      fun _ _ d used left _ _ hd => ?_) prod_eval_le
    exact .expect hd (by decide) (by simp) fun _ _ _ _ _ he => follows_spanFrom fun _ _ => follows_pure he

theorem FollowsRules.block_succ (ih : FollowsRules fuel) (h : c.At ts) (hn : Enough z 7 ts (fuel + 1) fuel') :
    Follows z (phrase IsBlock) (blockWithin (fuel + 1)) (blockWithin fuel') c ts := by
  refine .other_succ blockWithin hn (by decide) fun fuel' hn => ?_
  refine .mono (.expect h (by decide) (by simp) fun _ _ d us hts hd => ?_) prod_block_le
  refine (ih.body hd (hn.fewer (by decide) (by simp [hts]))).seq ((derives fuel).body hd) mem_phrase (by simp)
    fun _ _ e used left _ _ he => ?_
  exact .expect he (by decide) (by simp) fun _ _ _ _ _ hf => follows_spanFrom fun _ _ => follows_pure hf

theorem FollowsRules.body_succ (ih : FollowsRules fuel) (h : c.At ts) (hn : Enough z 3 ts (fuel + 1) fuel') :
    Follows z (phrase IsStmts) (blockBody (fuel + 1)) (blockBody fuel') c ts := by
  refine .other_succ blockBody hn (by decide) fun fuel' hn => ?_
  refine follows_kind h fun k hk => ?_
  split
  · exact follows_pure h
  · exact follows_unexpected h completable_stmts
  · refine .mono ((ih.stmt h (hn.same (by decide))).seq ((derives fuel).stmt h) mem_phrase (by simp)
      fun _ _ d used left hts hs hd => .last ?_) prod_stmts_le
    have hused := hs.starts.length_pos
    have hshorter : left.length < ts.length := by
      rw [hts, List.length_append]
      omega
    exact (ih.body hd (hn.fewer (by decide) hshorter)).before fun _ _ _ _ _ _ he => follows_pure he

theorem follows (fuel : Nat) : FollowsRules fuel := by
  induction fuel with
  | zero =>
    have none {z : Int} {ts : List Token} {short fuel' : Nat} (hshort : short ≤ 7) (hn : Enough z short ts 0 fuel') :
        False := by
      have := hn.own
      omega
    exact ⟨fun _ _ _ _ _ _ hn => (none (by decide) hn).elim, fun _ hn => (none (by decide) hn).elim,
      fun _ _ _ _ _ _ _ _ _ hn => (none (by decide) hn).elim, fun _ _ _ _ _ _ hn => (none (by decide) hn).elim,
      fun _ hn => (none (by decide) hn).elim, fun _ hn => (none (by decide) hn).elim,
      fun _ hn => (none (by decide) hn).elim, fun _ hn => (none (by decide) hn).elim,
      fun _ hn => (none (by decide) hn).elim⟩
  | succ fuel ih =>
    exact ⟨fun power => ih.expr_succ power, ih.operand_succ, fun power => ih.tail_succ power,
      fun close => ih.items_succ close, ih.literal_succ, ih.declaration_succ, ih.stmt_succ, ih.block_succ, ih.body_succ⟩

/-! ## Modules -/

theorem follows_stmt (h : c.At ts) : Follows z (phrase IsStmt) stmt stmt c ts :=
  .start h fun _ hn => (follows _).stmt h (hn.longer (by decide))

theorem follows_stmts (h : c.At ts) (hn : Enough z 0 ts fuel fuel') :
    Follows z (phrase IsStmts) (stmts fuel) (stmts fuel') c ts := by
  induction fuel generalizing fuel' c ts with
  | zero => exact absurd hn.own (by omega)
  | succ fuel ih =>
    refine .other_succ stmts hn (by decide) fun fuel' hn => ?_
    refine follows_kind h fun k hk => ?_
    split
    · exact follows_pure h
    · refine .mono ((follows_stmt h).seq (takes_stmt h) mem_phrase (by simp)
        fun _ _ d used left hts hs hd => .last ?_) prod_stmts_le
      have hused := hs.starts.length_pos
      have hshorter : left.length < ts.length := by
        rw [hts, List.length_append]
        omega
      exact (ih hd (hn.fewer (by decide) hshorter)).before fun _ _ _ _ _ _ he => follows_pure he

theorem follows_module (h : c.At ts) : Follows z (phrase IsStmts) module module c ts := by
  refine .start h fun _ hn => (follows_stmts h hn).before fun _ _ _ _ _ _ hd => ?_
  exact follows_spanFrom fun _ _ => follows_pure hd

end Parse

end TypedScript
