/-
What is read follows the grammar. Each rule of reading, from a cursor that stands at tokens, takes some of them, and
these stand for the bare tree of what is read.

An expression in a place of a power takes as much as it can: what is behind it does not bind more tightly than the
place. While a tail is read, the expression so far is on the level of whatever comes next. An operator is only taken
where it binds more tightly than the place, and its right operand leaves nothing that binds more tightly than the
operator.

Types are read with a count of steps that the question marks behind a type end quietly at, so that here the count has to
be enough for the tokens.

- `Parse.derives`: the rules of expressions and statements follow the grammar.
- `Grammar.isModule_of_parseTokens`: so does a module.
-/
import TypedScript.Proofs.Tree.Grammar.Powers

namespace TypedScript

open Grammar

namespace Parse

variable {α : Type} {c d : Cursor} {ts us : List Token} {fuel : Nat}

/-- some of the tokens are taken, as `Q` says, and the others are left -/
def Takes (ts : List Token) (Q : α → List Token → List Token → Prop) (a : α) (d : Cursor) : Prop :=
  ∃ used left, ts = used ++ left ∧ d.At left ∧ Q a used left

/-! ## Types -/

theorem takes_noteMarks {pre : List Token} {n : Note} (h : c.At ts) (hn : IsMarked pre n) (hfuel : ts.length ≤ fuel) :
    Ensures (noteMarks fuel .default n) c
      (Takes ts fun m used left => IsMarked (pre ++ used) m ∧ headKind left ≠ .question) := by
  induction fuel generalizing c ts pre n with
  | zero =>
    obtain rfl : ts = [] := List.length_eq_zero_iff.1 (by omega)
    exact .pure ⟨[], [], rfl, h, by simpa using hn, by simp⟩
  | succ fuel ih =>
    refine ensures_kind.bind fun k d hk => ?_
    obtain ⟨rfl, rfl⟩ := hk
    split
    · next hmark =>
      refine (ensures_advance h (by rw [hmark.1]; simp)).bind fun mark d hd => ?_
      obtain ⟨rfl, us, rfl, hd⟩ := hd
      intro m e hm
      have hn' := IsMarked.optional hn hmark.1
      obtain ⟨used, left, rfl, he, hmarked, hleft⟩ := ih hd hn' (by simpa using hfuel) m e hm
      exact ⟨c.current :: used, left, rfl, he, by simpa using hmarked, hleft⟩
    · next hmark =>
      refine .pure ⟨[], ts, rfl, h, by simpa using hn, ?_⟩
      rw [← h.kind]
      intro hquestion
      exact hmark ⟨hquestion, by decide⟩

/-- a type that no question mark follows is left as it is -/
theorem takes_noteMarks_nothing {n : Note} (h : c.At ts) (hkind : headKind ts ≠ .question) :
    Ensures (noteMarks fuel .default n) c fun m d => m = n ∧ d.At ts := by
  cases fuel with
  | zero => exact .pure ⟨rfl, h⟩
  | succ fuel =>
    refine ensures_kind.bind fun k d hk => ?_
    obtain ⟨rfl, rfl⟩ := hk
    rw [if_neg fun hmark => hkind (by rw [← h.kind]; exact hmark.1)]
    exact .pure ⟨rfl, h⟩

/-- the rules of types, with steps enough for the tokens -/
structure DerivesNotes (fuel : Nat) : Prop where
  within : ∀ {c : Cursor} {ts : List Token}, c.At ts → 3 * ts.length + 2 ≤ fuel →
    Ensures (noteWithin fuel .default) c (Takes ts fun n used left => IsNote used n ∧ headKind left ≠ .question)
  head : ∀ {c : Cursor} {ts : List Token}, c.At ts → 3 * ts.length + 1 ≤ fuel →
    Ensures (noteHead fuel) c
      (Takes ts fun n used left => IsMarked used n ∨ IsNote used n ∧ headKind left ≠ .question)
  items : ∀ {c : Cursor} {ts : List Token}, c.At ts → 3 * ts.length + 3 ≤ fuel →
    Ensures (noteItems fuel) c (Takes ts fun items used _ => IsNotes used items)

theorem DerivesNotes.within_succ (ih : DerivesNotes fuel) (h : c.At ts) (hfuel : 3 * ts.length + 2 ≤ fuel + 1) :
    Ensures (noteWithin (fuel + 1) .default) c
      (Takes ts fun n used left => IsNote used n ∧ headKind left ≠ .question) := by
  refine (ih.head h (by omega)).bind fun n d hd => ?_
  obtain ⟨used, left, rfl, hd, hmarked | ⟨hnote, hkind⟩⟩ := hd
  · intro m e hm
    simp only [List.length_append] at hfuel
    obtain ⟨marks, rest, rfl, he, hall, hrest⟩ := takes_noteMarks hd hmarked (by omega) m e hm
    exact ⟨used ++ marks, rest, by simp, he, .marked hall, hrest⟩
  · intro m e hm
    obtain ⟨rfl, he⟩ := takes_noteMarks_nothing hd hkind m e hm
    exact ⟨used, left, rfl, he, hnote, hkind⟩

theorem isMarked_named {t : Token} (h : t.kind = .identifier) : IsMarked [t] (.named t.value) := by
  unfold Note.named
  split
  · next hany => exact .any h hany
  split
  · next hvoid => exact .void h hvoid
  · next hany hvoid => exact .ident h hany hvoid

theorem DerivesNotes.head_succ (ih : DerivesNotes fuel) (h : c.At ts) (hfuel : 3 * ts.length + 1 ≤ fuel + 1) :
    Ensures (noteHead (fuel + 1)) c
      (Takes ts fun n used left => IsMarked used n ∨ IsNote used n ∧ headKind left ≠ .question) := by
  refine ensures_kind.bind fun k d hk => ?_
  obtain ⟨rfl, rfl⟩ := hk
  split
  · next hkind =>
    refine (ensures_advance h (by rw [hkind]; simp)).bind fun name d hd => ?_
    obtain ⟨rfl, us, rfl, hd⟩ := hd
    exact .pure ⟨[c.current], us, rfl, hd, .inl (isMarked_named hkind)⟩
  · next hkind =>
    refine (ensures_advance h (by rw [hkind]; simp)).bind fun opening d hd => ?_
    obtain ⟨rfl, us, rfl, hd⟩ := hd
    simp only [List.length_cons] at hfuel
    refine (ih.within hd (by omega)).bind fun element e he => ?_
    obtain ⟨used, left, rfl, he, helement, _⟩ := he
    refine (ensures_expect he (by simp)).bind fun closing f hf => ?_
    obtain ⟨hclosing, vs, rfl, hf⟩ := hf
    exact .pure ⟨c.current :: (used ++ [closing]), vs, by simp, hf, .inl (.list hkind helement hclosing)⟩
  · next hkind =>
    refine (ensures_advance h (by rw [hkind]; simp)).bind fun opening d hd => ?_
    obtain ⟨rfl, us, rfl, hd⟩ := hd
    simp only [List.length_cons] at hfuel
    refine (ih.items hd (by omega)).bind fun items e he => ?_
    obtain ⟨used, left, rfl, he, hitems⟩ := he
    refine (ensures_expect he (by simp)).bind fun closing f hf => ?_
    obtain ⟨hclosing, vs, rfl, hf⟩ := hf
    refine ensures_kind.bind fun k g hg => ?_
    obtain ⟨rfl, rfl⟩ := hg
    split
    · next harrow =>
      refine (ensures_advance hf (by rw [harrow]; simp)).bind fun arrow g hg => ?_
      obtain ⟨rfl, ws, rfl, hg⟩ := hg
      simp only [List.length_append, List.length_cons] at hfuel
      refine (ih.within hg (by omega)).bind fun result j hj => ?_
      obtain ⟨given, rest, rfl, hj, hresult, hrest⟩ := hj
      exact .pure ⟨c.current :: (used ++ closing :: f.current :: given), rest, by simp, hj,
        .inr ⟨.function hkind hitems hclosing harrow hresult, hrest⟩⟩
    · exact .pure ⟨c.current :: (used ++ [closing]), vs, by simp, hf, .inl (.tuple hkind hitems hclosing)⟩
  · exact ensures_unexpected

theorem DerivesNotes.items_succ (ih : DerivesNotes fuel) (h : c.At ts) (hfuel : 3 * ts.length + 3 ≤ fuel + 1) :
    Ensures (noteItems (fuel + 1)) c (Takes ts fun items used _ => IsNotes used items) := by
  refine ensures_kind.bind fun k d hk => ?_
  obtain ⟨rfl, rfl⟩ := hk
  split
  · exact .pure ⟨[], ts, rfl, h, .empty⟩
  refine (ih.within h (by omega)).bind fun item d hd => ?_
  obtain ⟨used, left, rfl, hd, hitem, _⟩ := hd
  have hused := hitem.starts.length_pos
  simp only [List.length_append] at hfuel
  refine ensures_kind.bind fun k e he => ?_
  obtain ⟨rfl, rfl⟩ := he
  split
  · next hcomma =>
    refine (ensures_advance hd (by rw [hcomma]; simp)).bind fun comma e he => ?_
    obtain ⟨rfl, us, rfl, he⟩ := he
    simp only [List.length_cons] at hfuel
    refine (ih.items he (by omega)).bind fun items f hf => ?_
    obtain ⟨more, rest, rfl, hf, hitems⟩ := hf
    exact .pure ⟨used ++ d.current :: more, rest, by simp, hf, .comma hitem hcomma hitems⟩
  · refine (ih.items hd (by omega)).bind fun items f hf => ?_
    obtain ⟨more, rest, rfl, hf, hitems⟩ := hf
    exact .pure ⟨used ++ more, rest, by simp, hf, .more hitem hitems⟩

theorem derivesNotes (fuel : Nat) : DerivesNotes fuel := by
  induction fuel with
  | zero => exact ⟨fun _ h => absurd h (by omega), fun _ h => absurd h (by omega), fun _ h => absurd h (by omega)⟩
  | succ fuel ih => exact ⟨ih.within_succ, ih.head_succ, ih.items_succ⟩

theorem takes_note (h : c.At ts) : Ensures (note .default) c (Takes ts fun n used _ => IsNote used n) := by
  refine ensures_get.bind fun a d hd => ?_
  obtain ⟨rfl, rfl⟩ := hd
  intro n d hn
  obtain ⟨used, left, rfl, hd, hnote, _⟩ := (derivesNotes _).within h (by rw [h.depth]; omega) n d hn
  exact ⟨used, left, rfl, hd, hnote⟩

theorem annotation_takes (h : c.At ts) : Ensures annotation c (Takes ts fun n used _ => IsAnnotation used n) := by
  refine ensures_kind.bind fun k d hk => ?_
  obtain ⟨rfl, rfl⟩ := hk
  split
  · next hcolon =>
    refine (ensures_advance h (by rw [hcolon]; simp)).bind fun colon d hd => ?_
    obtain ⟨rfl, us, rfl, hd⟩ := hd
    refine (takes_note hd).bind fun n e he => ?_
    obtain ⟨used, left, rfl, he, hnote⟩ := he
    exact .pure ⟨c.current :: used, left, rfl, he, .some hcolon hnote⟩
  · exact .pure ⟨[], ts, rfl, h, .none⟩

/-! ## Items between commas -/

/-- reading a list: where it can close at once it does, and what it takes is a list of items -/
def TakesList (IsItem : List Token → α → Prop) (close : TokenKind) (items : Parse (List α)) : Prop :=
  ∀ {c : Cursor} {ts : List Token}, c.At ts →
    Ensures items c (Takes ts fun as used _ => IsList IsItem used as ∧ (c.current.kind = close → as = [] ∧ used = []))

theorem takes_separator {close : TokenKind} (h : c.At ts) :
    Ensures (separator close) c fun _ d =>
      (∃ comma us, ts = comma :: us ∧ comma.kind = .comma ∧ d.At us) ∨ c.current.kind = close ∧ d = c := by
  refine ensures_kind.bind fun k d hk => ?_
  obtain ⟨rfl, rfl⟩ := hk
  split
  · next hcomma =>
    refine (ensures_advance h (by rw [hcomma]; simp)).bind fun comma d hd => ?_
    obtain ⟨rfl, us, rfl, hd⟩ := hd
    exact .pure (.inl ⟨c.current, us, rfl, hcomma, hd⟩)
  · refine ensures_kind.bind fun k d hk => ?_
    obtain ⟨rfl, rfl⟩ := hk
    split
    · exact ensures_unexpected
    · next hclose => exact .pure (.inr ⟨by simpa using hclose, rfl⟩)

theorem takesList_step {IsItem : List Token → α → Prop} {close : TokenKind} {item : Parse α} {rest : Parse (List α)}
    (hitem : ∀ {c : Cursor} {ts : List Token}, c.At ts → Ensures item c (Takes ts fun a used _ => IsItem used a))
    (hrest : TakesList IsItem close rest) : TakesList IsItem close (listStep close item rest) := by
  intro c ts h
  refine ensures_kind.bind fun k d hk => ?_
  obtain ⟨rfl, rfl⟩ := hk
  split
  · exact .pure ⟨[], ts, rfl, h, .empty, fun _ => ⟨rfl, rfl⟩⟩
  next hopen =>
  refine (hitem h).bind fun a d hd => ?_
  obtain ⟨used, left, rfl, hd, ha⟩ := hd
  refine (takes_separator hd).bind fun _ e he => ?_
  rcases he with ⟨comma, us, rfl, hcomma, he⟩ | ⟨hclose, rfl⟩
  · refine (hrest he).bind fun as f hf => ?_
    obtain ⟨more, left, rfl, hf, has, _⟩ := hf
    exact .pure ⟨used ++ comma :: more, left, by simp, hf, .more ha hcomma has, fun hclose => absurd hclose hopen⟩
  · refine (hrest hd).bind fun as f hf => ?_
    obtain ⟨more, left, rfl, hf, _, hnone⟩ := hf
    obtain ⟨rfl, rfl⟩ := hnone hclose
    exact .pure ⟨used, left, rfl, hf, .last ha, fun hclose => absurd hclose hopen⟩

theorem isList_map {β : Type} {IsItem : List Token → β → Prop} {f : α → β} {items : List α}
    (h : IsList (fun ts a => IsItem ts (f a)) ts items) : IsList IsItem ts (items.map f) := by
  induction h with
  | empty => exact .empty
  | last h => exact .last h
  | more h hcomma _ ih => exact .more h hcomma ih

theorem takes_param (h : c.At ts) : Ensures param c (Takes ts fun p used _ => IsParameter used p.bare) := by
  refine (ensures_expectDetailed h (by simp)).bind fun name d hd => ?_
  obtain ⟨hname, us, rfl, hd⟩ := hd
  refine (ensures_expect hd (by simp)).bind fun colon e he => ?_
  obtain ⟨hcolon, vs, rfl, he⟩ := he
  refine (takes_note he).bind fun n f hf => ?_
  obtain ⟨used, left, rfl, hf, hnote⟩ := hf
  refine ensures_spanFrom.bind fun span g hg => ?_
  subst hg
  exact .pure ⟨name :: colon :: used, left, rfl, hf, .mk hname hcolon hnote⟩

theorem takesList_params (fuel : Nat) : TakesList (fun ts p => IsParameter ts p.bare) .closeParen (params fuel) := by
  induction fuel with
  | zero => exact fun _ => ensures_unexpected
  | succ fuel ih =>
    rw [params_succ]
    exact takesList_step takes_param ih

theorem takesList_useNames (fuel : Nat) : TakesList IsName .closeParen (useNames fuel) := by
  induction fuel with
  | zero => exact fun _ => ensures_unexpected
  | succ fuel ih =>
    rw [useNames_succ]
    refine takesList_step (fun h => ?_) ih
    refine (ensures_expect h (by simp)).bind fun name d hd => ?_
    obtain ⟨hname, us, rfl, hd⟩ := hd
    exact .pure ⟨[name], us, rfl, hd, .mk hname⟩

theorem takes_useFilter (h : c.At ts) : Ensures useFilter c (Takes ts fun names used _ => IsFilter used names) := by
  refine ensures_kind.bind fun k d hk => ?_
  obtain ⟨rfl, rfl⟩ := hk
  split
  · next hopening =>
    refine (ensures_advance h (by rw [hopening]; simp)).bind fun opening d hd => ?_
    obtain ⟨rfl, us, rfl, hd⟩ := hd
    refine ensures_get.bind fun a e he => ?_
    obtain ⟨rfl, rfl⟩ := he
    refine (takesList_useNames _ hd).bind fun names e he => ?_
    obtain ⟨used, left, rfl, he, hnames, _⟩ := he
    refine (ensures_expect he (by simp)).bind fun closing f hf => ?_
    obtain ⟨hclosing, vs, rfl, hf⟩ := hf
    exact .pure ⟨c.current :: (used ++ [closing]), vs, by simp, hf, .some hopening hnames hclosing⟩
  · exact .pure ⟨[], ts, rfl, h, .none⟩

/-! ## Expressions and statements -/

theorem takes_primary (h : c.At ts) : Ensures primary c (Takes ts fun e used _ => IsPrimary used e.bare) := by
  have single {e : Expr} (hinside : c.current.kind ≠ .endOfText) (he : IsPrimary [c.current] e.bare) :
      Ensures (do let _ ← advance; return e) c (Takes ts fun e used _ => IsPrimary used e.bare) := by
    refine (ensures_advance h hinside).bind fun token d hd => ?_
    obtain ⟨rfl, us, rfl, hd⟩ := hd
    exact .pure ⟨[c.current], us, rfl, hd, he⟩
  refine ensures_get.bind fun a d hd => ?_
  obtain ⟨rfl, rfl⟩ := hd
  dsimp only
  split
  · next hkind =>
    have hinside : c.current.kind ≠ .endOfText := by simp [hkind]
    obtain ⟨us, rfl, _⟩ := h.cons hinside
    obtain ⟨hne, hall⟩ := (h.proper c.current List.mem_cons_self).number hkind
    split
    · next value hvalue =>
      rw [int64?_digits hne hall, Option.ite_none_right_eq_some] at hvalue
      obtain ⟨hfits, hvalue⟩ := hvalue
      cases hvalue
      exact single hinside (.number hkind hfits)
    · exact ensures_throw
  · next hkind => exact single (by simp [hkind]) (.text hkind)
  · next hkind => exact single (by simp [hkind]) (.ident hkind)
  · next hkind => exact single (by simp [hkind]) (.yes hkind)
  · next hkind => exact single (by simp [hkind]) (.no hkind)
  · next hkind => exact single (by simp [hkind]) (.self hkind)
  · exact ensures_unexpected

/-- the rules of expressions and statements, each with the steps given -/
structure Derives (fuel : Nat) : Prop where
  expr : ∀ power {c : Cursor} {ts : List Token}, c.At ts →
    Ensures (exprWithin fuel power) c (Takes ts fun e used left =>
      Binds power.floor used e.bare ∧ power.weaker (BindingPower.ofToken (headKind left)) = false)
  operand : ∀ {c : Cursor} {ts : List Token}, c.At ts →
    Ensures (operand fuel) c (Takes ts fun e used _ => IsPrimary used e.bare)
  /-- the expression so far may stand in the place, and before the next token if that is taken -/
  tail : ∀ power {c : Cursor} {ts pre : List Token} {left : Expr}, c.At ts → Binds power.floor pre left.bare →
    (power.weaker (BindingPower.ofToken (headKind ts)) = true →
      Binds (BindingPower.ofToken (headKind ts)).rank pre left.bare) →
    Ensures (exprTail fuel power left) c (Takes ts fun e used left =>
      Binds power.floor (pre ++ used) e.bare ∧ power.weaker (BindingPower.ofToken (headKind left)) = false)
  items : ∀ close, TakesList (fun ts e => IsExpr ts e.bare) close (exprItems fuel close)
  literal : ∀ {c : Cursor} {ts : List Token}, c.At ts → c.current.kind = .fnWord →
    Ensures (functionLiteral fuel) c (Takes ts fun e used _ => IsPrimary used e.bare)
  declaration : ∀ {c : Cursor} {ts : List Token}, c.At ts →
    Ensures (declaration fuel) c (Takes ts fun d used _ => IsDeclaration used d.bare)
  stmt : ∀ {c : Cursor} {ts : List Token}, c.At ts →
    Ensures (stmtWithin fuel) c (Takes ts fun s used _ => IsStmt used s.bare)
  block : ∀ {c : Cursor} {ts : List Token}, c.At ts →
    Ensures (blockWithin fuel) c (Takes ts fun b used _ => IsBlock used b.bare)
  body : ∀ {c : Cursor} {ts : List Token}, c.At ts →
    Ensures (blockBody fuel) c (Takes ts fun ss used _ => IsStmts used (Stmt.bareOf ss))

theorem Derives.whole (ih : Derives fuel) (h : c.At ts) :
    Ensures (exprWithin fuel .default) c (Takes ts fun e used left =>
      IsExpr used e.bare ∧ BindingPower.default.weaker (BindingPower.ofToken (headKind left)) = false) :=
  ih.expr .default h

theorem Derives.whole_takes (ih : Derives fuel) (h : c.At ts) :
    Ensures (exprWithin fuel .default) c (Takes ts fun e used _ => IsExpr used e.bare) := by
  intro e d he
  obtain ⟨used, left, hts, hd, hexpr, _⟩ := ih.whole h e d he
  exact ⟨used, left, hts, hd, hexpr⟩

theorem Derives.exprs (ih : Derives fuel) (close : TokenKind) (h : c.At ts) :
    Ensures (exprItems fuel close) c (Takes ts fun es used _ => IsExprs used (Expr.bareOf es)) := by
  intro es d hes
  obtain ⟨used, left, rfl, hd, hlist, _⟩ := ih.items close h es d hes
  refine ⟨used, left, rfl, hd, isExprs_iff.2 ?_⟩
  rw [Expr.bareOf_eq_map]
  exact isList_map hlist

theorem Derives.expr_succ (ih : Derives fuel) (power : BindingPower) (h : c.At ts) :
    Ensures (exprWithin (fuel + 1) power) c (Takes ts fun e used left =>
      Binds power.floor used e.bare ∧ power.weaker (BindingPower.ofToken (headKind left)) = false) := by
  refine (ih.operand h).bind fun e d hd => ?_
  obtain ⟨used, left, rfl, hd, hprimary⟩ := hd
  have hbinds : Binds 8 used e.bare := hprimary
  have hrank := rank_le (BindingPower.ofToken (headKind left))
  intro e' f he'
  obtain ⟨more, rest, rfl, hf, hall⟩ :=
    ih.tail power hd (hbinds.mono (floor_le power)) (fun _ => hbinds.mono (by omega)) e' f he'
  exact ⟨used ++ more, rest, by simp, hf, hall⟩

theorem Derives.operand_succ (ih : Derives fuel) (h : c.At ts) :
    Ensures (Parse.operand (fuel + 1)) c (Takes ts fun e used _ => IsPrimary used e.bare) := by
  refine ensures_kind.bind fun k d hk => ?_
  obtain ⟨rfl, rfl⟩ := hk
  split
  · next hkind => exact ih.literal h hkind
  · next hopening =>
    refine (ensures_advance h (by simp [hopening])).bind fun opening d hd => ?_
    obtain ⟨rfl, us, rfl, hd⟩ := hd
    refine (ih.exprs _ hd).bind fun items e he => ?_
    obtain ⟨used, left, rfl, he, hitems⟩ := he
    refine (ensures_expect he (by simp)).bind fun closing f hf => ?_
    obtain ⟨hclosing, vs, rfl, hf⟩ := hf
    refine ensures_spanFrom.bind fun span g hg => ?_
    subst hg
    exact .pure ⟨c.current :: (used ++ [closing]), vs, by simp, hf, .list hopening hitems hclosing⟩
  · next hopening =>
    refine (ensures_advance h (by simp [hopening])).bind fun opening d hd => ?_
    obtain ⟨rfl, us, rfl, hd⟩ := hd
    refine (ih.whole hd).bind fun expr e he => ?_
    obtain ⟨used, left, rfl, he, hexpr, _⟩ := he
    refine (ensures_expect he (by simp)).bind fun closing f hf => ?_
    obtain ⟨hclosing, vs, rfl, hf⟩ := hf
    exact .pure ⟨c.current :: (used ++ [closing]), vs, by simp, hf, .parentheses hopening hexpr hclosing⟩
  · exact takes_primary h

/-- a tail that goes on behind a longer expression -/
theorem Derives.longer (ih : Derives fuel) (power : BindingPower) {pre used : List Token} {e : Expr} (h : c.At us)
    (hplace : Binds power.floor (pre ++ used) e.bare)
    (hnext : power.weaker (BindingPower.ofToken (headKind us)) = true →
      Binds (BindingPower.ofToken (headKind us)).rank (pre ++ used) e.bare) :
    Ensures (exprTail fuel power e) c (Takes (used ++ us) fun e used left =>
      Binds power.floor (pre ++ used) e.bare ∧ power.weaker (BindingPower.ofToken (headKind left)) = false) := by
  intro e' d he'
  obtain ⟨more, left, rfl, hd, hall, hleft⟩ := ih.tail power h hplace hnext e' d he'
  exact ⟨used ++ more, left, by simp, hd, by simpa using hall, hleft⟩

theorem Derives.tail_succ (ih : Derives fuel) (power : BindingPower) {pre : List Token} {left : Expr} (h : c.At ts)
    (hplace : Binds power.floor pre left.bare)
    (hnext : power.weaker (BindingPower.ofToken (headKind ts)) = true →
      Binds (BindingPower.ofToken (headKind ts)).rank pre left.bare) :
    Ensures (exprTail (fuel + 1) power left) c (Takes ts fun e used left =>
      Binds power.floor (pre ++ used) e.bare ∧ power.weaker (BindingPower.ofToken (headKind left)) = false) := by
  refine ensures_get.bind fun a d hd => ?_
  obtain ⟨rfl, rfl⟩ := hd
  dsimp only
  split
  · next hpower =>
    rw [← h.kind] at hnext
    have hleft := hnext hpower
    have hfloor := floor_le_of_weaker hpower
    have hinside : c.current.kind ≠ .endOfText := by
      intro hend
      rw [hend] at hpower
      exact absurd (of_decide_eq_true hpower) (Nat.not_lt_zero _)
    refine (ensures_advance h hinside).bind fun token d hd => ?_
    obtain ⟨rfl, us, rfl, hd⟩ := hd
    split
    · next hmark =>
      -- nothing binds more weakly than an assignment, so that none stands in the place of a tighter power
      rw [hmark] at hleft hpower hfloor
      have hdefault : power = .default := by cases power <;> first | rfl | cases hpower
      subst hdefault
      refine (ih.whole hd).bind fun value e he => ?_
      obtain ⟨used, rest, rfl, he, hvalue, hrest⟩ := he
      have hassign : Binds 0 (pre ++ c.current :: used)
          (Expr.assign left value ⟨left.span.start, value.span.stop⟩).bare := .assign hleft hmark hvalue
      exact ih.longer .default he hassign fun hweaker => absurd hweaker (by simp [hrest])
    · next hopening =>
      rw [hopening] at hleft hfloor
      refine (ih.exprs _ hd).bind fun arguments e he => ?_
      obtain ⟨used, rest, rfl, he, harguments⟩ := he
      refine (ensures_expect he (by simp)).bind fun closing f hf => ?_
      obtain ⟨hclosing, vs, rfl, hf⟩ := hf
      refine ensures_spanFrom.bind fun span g hg => ?_
      subst hg
      have hcall : Binds 7 (pre ++ c.current :: (used ++ [closing])) (Expr.call left arguments span).bare :=
        .call hleft hopening harguments hclosing
      have hrank := rank_le (BindingPower.ofToken (headKind vs))
      have hlonger := ih.longer power hf (hcall.mono hfloor) fun _ => hcall.mono hrank
      simpa using hlonger
    · next hopening =>
      rw [hopening] at hleft hfloor
      refine (ih.whole hd).bind fun index e he => ?_
      obtain ⟨used, rest, rfl, he, hindex, _⟩ := he
      refine (ensures_expect he (by simp)).bind fun closing f hf => ?_
      obtain ⟨hclosing, vs, rfl, hf⟩ := hf
      refine ensures_spanFrom.bind fun span g hg => ?_
      subst hg
      have hsubscript : Binds 7 (pre ++ c.current :: (used ++ [closing])) (Expr.subscript left index span).bare :=
        .subscript hleft hopening hindex hclosing
      have hrank := rank_le (BindingPower.ofToken (headKind vs))
      have hlonger := ih.longer power hf (hsubscript.mono hfloor) fun _ => hsubscript.mono hrank
      simpa using hlonger
    · next hassign hparen hbracket =>
      obtain ⟨level, hop⟩ :=
        exists_level (h.proper c.current List.mem_cons_self) hpower hassign hparen hbracket
      obtain ⟨htightness, _⟩ := Level.ofToken_operator hop
      rw [htightness] at hleft hfloor ⊢
      refine (ih.expr _ hd).bind fun right e he => ?_
      obtain ⟨used, rest, rfl, he, hright, hrest⟩ := he
      rw [level.floor_power] at hright
      have hbinary : Binds level.power.rank (pre ++ c.current :: used)
          (Expr.binary c.current.value left right ⟨left.span.start, right.span.stop⟩).bare :=
        isBinary_iff.1 (.apply (isBinary_iff.2 hleft) hop (isOperand_iff.2 hright))
      exact ih.longer power he (hbinary.mono hfloor) fun _ => hbinary.mono (rank_le_of_not_weaker hrest)
  · next hpower =>
    refine .pure ⟨[], ts, rfl, h, by simpa using hplace, ?_⟩
    rw [← h.kind]
    simpa using hpower

theorem Derives.items_succ (ih : Derives fuel) (close : TokenKind) :
    TakesList (fun ts e => IsExpr ts e.bare) close (exprItems (fuel + 1) close) := by
  rw [exprItems_succ]
  exact takesList_step ih.whole_takes (ih.items close)

theorem Derives.literal_succ (ih : Derives fuel) (h : c.At ts) (hword : c.current.kind = .fnWord) :
    Ensures (functionLiteral (fuel + 1)) c (Takes ts fun e used _ => IsPrimary used e.bare) := by
  refine (ensures_advance h (by simp [hword])).bind fun word d hd => ?_
  obtain ⟨rfl, us, rfl, hd⟩ := hd
  refine (ensures_freshId hd).bind fun id d hd => ?_
  refine (ensures_expect hd (by simp)).bind fun opening e he => ?_
  obtain ⟨hopening, vs, rfl, he⟩ := he
  refine ensures_get.bind fun a f hf => ?_
  obtain ⟨rfl, rfl⟩ := hf
  refine (takesList_params _ he).bind fun parameters f hf => ?_
  obtain ⟨used, left, rfl, hf, hparams, _⟩ := hf
  refine (ensures_expect hf (by simp)).bind fun closing g hg => ?_
  obtain ⟨hclosing, ws, rfl, hg⟩ := hg
  refine (annotation_takes hg).bind fun result j hj => ?_
  obtain ⟨note, left, rfl, hj, hresult⟩ := hj
  refine (ih.block hj).bind fun body k hk => ?_
  obtain ⟨block, rest, rfl, hk, hbody⟩ := hk
  refine ensures_spanFrom.bind fun span l hl => ?_
  subst hl
  exact .pure ⟨c.current :: opening :: (used ++ closing :: (note ++ block)), rest, by simp, hk,
    .function hword hopening (isList_map hparams) hclosing hresult hbody⟩

theorem Derives.declaration_succ (ih : Derives fuel) (h : c.At ts) :
    Ensures (Parse.declaration (fuel + 1)) c (Takes ts fun d used _ => IsDeclaration used d.bare) := by
  refine (ensures_expect h (by simp)).bind fun word d hd => ?_
  obtain ⟨hword, us, rfl, hd⟩ := hd
  refine (ensures_expectDetailed hd (by simp)).bind fun name e he => ?_
  obtain ⟨hname, vs, rfl, he⟩ := he
  refine (annotation_takes he).bind fun type f hf => ?_
  obtain ⟨note, left, rfl, hf, hnote⟩ := hf
  refine (ensures_expectDetailed hf (by simp)).bind fun mark g hg => ?_
  obtain ⟨hmark, ws, rfl, hg⟩ := hg
  refine (ih.whole hg).bind fun value j hj => ?_
  obtain ⟨used, left, rfl, hj, hvalue, _⟩ := hj
  refine (ensures_expect hj (by simp)).bind fun semicolon k hk => ?_
  obtain ⟨hsemicolon, rest, rfl, hk⟩ := hk
  refine ensures_spanFrom.bind fun span l hl => ?_
  subst hl
  exact .pure ⟨word :: name :: (note ++ mark :: (used ++ [semicolon])), rest, by simp, hk,
    .mk hword hname hnote hmark hvalue hsemicolon⟩

theorem Derives.stmt_succ (ih : Derives fuel) (h : c.At ts) :
    Ensures (stmtWithin (fuel + 1)) c (Takes ts fun s used _ => IsStmt used s.bare) := by
  refine ensures_kind.bind fun k d hk => ?_
  obtain ⟨rfl, rfl⟩ := hk
  split
  · refine (ih.declaration h).bind fun declared d hd => ?_
    obtain ⟨used, left, rfl, hd, hdeclared⟩ := hd
    exact .pure ⟨used, left, rfl, hd, .declare hdeclared⟩
  · next hword =>
    refine (ensures_advance h (by simp [hword])).bind fun word d hd => ?_
    obtain ⟨rfl, us, rfl, hd⟩ := hd
    refine (ih.whole hd).bind fun condition e he => ?_
    obtain ⟨used, left, rfl, he, hcondition, _⟩ := he
    refine (ih.block he).bind fun body f hf => ?_
    obtain ⟨block, rest, rfl, hf, hbody⟩ := hf
    refine ensures_spanFrom.bind fun span g hg => ?_
    subst hg
    exact .pure ⟨c.current :: (used ++ block), rest, by simp, hf, .cond hword hcondition hbody⟩
  · next hword =>
    refine (ensures_advance h (by simp [hword])).bind fun word d hd => ?_
    obtain ⟨rfl, us, rfl, hd⟩ := hd
    refine ensures_kind.bind fun k e he => ?_
    obtain ⟨rfl, rfl⟩ := he
    split
    · next hsemicolon =>
      refine (ensures_advance hd (by simp [hsemicolon])).bind fun semicolon e he => ?_
      obtain ⟨rfl, vs, rfl, he⟩ := he
      refine ensures_spanFrom.bind fun span g hg => ?_
      subst hg
      exact .pure ⟨[c.current, d.current], vs, rfl, he, .giveNothing hword hsemicolon⟩
    · refine (ih.whole hd).bind fun value e he => ?_
      obtain ⟨used, left, rfl, he, hvalue, _⟩ := he
      refine (ensures_expect he (by simp)).bind fun semicolon f hf => ?_
      obtain ⟨hsemicolon, rest, rfl, hf⟩ := hf
      refine ensures_spanFrom.bind fun span g hg => ?_
      subst hg
      exact .pure ⟨c.current :: (used ++ [semicolon]), rest, by simp, hf, .giveBack hword hvalue hsemicolon⟩
  · next hword =>
    refine (ensures_advance h (by simp [hword])).bind fun word d hd => ?_
    obtain ⟨rfl, us, rfl, hd⟩ := hd
    refine ensures_kind.bind fun k e he => ?_
    obtain ⟨rfl, rfl⟩ := he
    split
    · exact ensures_unexpectedDetailed
    · refine (ih.declaration hd).bind fun declared e he => ?_
      obtain ⟨used, left, rfl, he, hdeclared⟩ := he
      refine ensures_spanFrom.bind fun span g hg => ?_
      subst hg
      exact .pure ⟨c.current :: used, left, rfl, he, .pub hword hdeclared⟩
  · next hword =>
    refine (ensures_advance h (by simp [hword])).bind fun word d hd => ?_
    obtain ⟨rfl, us, rfl, hd⟩ := hd
    refine (ensures_expectDetailed hd (by simp)).bind fun path e he => ?_
    obtain ⟨hpath, vs, rfl, he⟩ := he
    refine (takes_useFilter he).bind fun names f hf => ?_
    obtain ⟨used, left, rfl, hf, hnames⟩ := hf
    refine (ensures_expect hf (by simp)).bind fun semicolon g hg => ?_
    obtain ⟨hsemicolon, rest, rfl, hg⟩ := hg
    refine ensures_spanFrom.bind fun span j hj => ?_
    subst hj
    exact .pure ⟨c.current :: path :: (used ++ [semicolon]), rest, by simp, hg, .use hword hpath hnames hsemicolon⟩
  · refine (ih.whole h).bind fun expr d hd => ?_
    obtain ⟨used, left, rfl, hd, hexpr, _⟩ := hd
    refine (ensures_expect hd (by simp)).bind fun semicolon e he => ?_
    obtain ⟨hsemicolon, rest, rfl, he⟩ := he
    refine ensures_spanFrom.bind fun span f hf => ?_
    subst hf
    exact .pure ⟨used ++ [semicolon], rest, by simp, he, .eval hexpr hsemicolon⟩

theorem Derives.block_succ (ih : Derives fuel) (h : c.At ts) :
    Ensures (blockWithin (fuel + 1)) c (Takes ts fun b used _ => IsBlock used b.bare) := by
  refine (ensures_expect h (by simp)).bind fun opening d hd => ?_
  obtain ⟨hopening, us, rfl, hd⟩ := hd
  refine (ih.body hd).bind fun body e he => ?_
  obtain ⟨used, left, rfl, he, hbody⟩ := he
  refine (ensures_expect he (by simp)).bind fun closing f hf => ?_
  obtain ⟨hclosing, rest, rfl, hf⟩ := hf
  refine ensures_spanFrom.bind fun span g hg => ?_
  subst hg
  exact .pure ⟨opening :: (used ++ [closing]), rest, by simp, hf, .mk hopening hbody hclosing⟩

theorem Derives.body_succ (ih : Derives fuel) (h : c.At ts) :
    Ensures (blockBody (fuel + 1)) c (Takes ts fun ss used _ => IsStmts used (Stmt.bareOf ss)) := by
  refine ensures_kind.bind fun k d hk => ?_
  obtain ⟨rfl, rfl⟩ := hk
  split
  · exact .pure ⟨[], ts, rfl, h, .empty⟩
  · exact ensures_unexpected
  · refine (ih.stmt h).bind fun s d hd => ?_
    obtain ⟨used, left, rfl, hd, hs⟩ := hd
    refine (ih.body hd).bind fun ss e he => ?_
    obtain ⟨more, rest, rfl, he, hss⟩ := he
    exact .pure ⟨used ++ more, rest, by simp, he, .more hs hss⟩

theorem derives (fuel : Nat) : Derives fuel := by
  induction fuel with
  | zero =>
    exact ⟨fun _ _ _ _ => ensures_unexpected, fun _ => ensures_unexpected, fun _ _ _ _ _ _ _ _ => ensures_unexpected,
      fun _ _ _ _ => ensures_unexpected, fun _ _ => ensures_unexpected, fun _ => ensures_unexpected,
      fun _ => ensures_unexpected, fun _ => ensures_unexpected, fun _ => ensures_unexpected⟩
  | succ fuel ih =>
    exact ⟨fun power => ih.expr_succ power, ih.operand_succ, fun power => ih.tail_succ power, ih.items_succ,
      ih.literal_succ, ih.declaration_succ, ih.stmt_succ, ih.block_succ, ih.body_succ⟩

/-! ## Modules -/

theorem takes_stmt (h : c.At ts) : Ensures stmt c (Takes ts fun s used _ => IsStmt used s.bare) := by
  refine ensures_get.bind fun a d hd => ?_
  obtain ⟨rfl, rfl⟩ := hd
  exact (derives _).stmt h

theorem takes_stmts (fuel : Nat) (h : c.At ts) : Ensures (stmts fuel) c fun ss _ => IsStmts ts (Stmt.bareOf ss) := by
  induction fuel generalizing c ts with
  | zero => exact ensures_unexpected
  | succ fuel ih =>
    refine ensures_kind.bind fun k d hk => ?_
    obtain ⟨rfl, rfl⟩ := hk
    split
    · next hend =>
      cases ts with
      | nil => exact .pure .empty
      | cons t ts => exact absurd (h.current ▸ hend) (h.proper t List.mem_cons_self).inside
    · refine (takes_stmt h).bind fun s d hd => ?_
      obtain ⟨used, left, rfl, hd, hs⟩ := hd
      refine (ih hd).bind fun ss e hss => ?_
      exact .pure (.more hs hss)

theorem takes_module (h : c.At ts) : Ensures module c fun b _ => IsModule ts b.bare := by
  refine ensures_get.bind fun a d hd => ?_
  obtain ⟨rfl, rfl⟩ := hd
  refine (takes_stmts _ h).bind fun body d hbody => ?_
  refine ensures_spanFrom.bind fun span e _ => ?_
  exact .pure ⟨Stmt.bareOf body, rfl, hbody⟩

end Parse

/-- what is read from the tokens of a text is derived from them -/
theorem Grammar.isModule_of_parseTokens {source : String} {tokens : List Token} {ast : Block}
    (htokens : tokenize source = .ok tokens) (h : parseTokens tokens = .ok ast) :
    IsModule tokens.dropLast ast.bare := by
  obtain ⟨body, last, rfl, hlast, hbody⟩ := tokenize_proper htokens
  rw [List.dropLast_concat]
  obtain ⟨c, hmodule⟩ := parseTokens_eq_ok_iff.1 h
  exact Parse.takes_module (Cursor.at_ofTokens hlast hbody) ast c hmodule

end TypedScript
