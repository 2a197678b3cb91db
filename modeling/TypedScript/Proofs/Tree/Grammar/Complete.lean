/-
What the grammar derives is read. From a cursor that stands at the tokens of a tree and others behind them, each rule of
reading succeeds with that tree and leaves the cursor at the others, where these cannot go on with it.

A rule nests as deep as it has steps, and eight steps a token are enough: no rule calls more than a few others before it
passes a token. The rules are therefore read by induction on the steps, for all tokens that are few enough.

An expression grows at its right end, where the reader goes on with a tail, so that `Extends` speaks of the tail behind
an expression: to read the expression and the tail it is enough to read the tail.

- `Parse.reads`: the rules of expressions and statements read what the grammar derives.
- `Grammar.parseTokens_of_isModule`: a module that the grammar derives is read.
- `Grammar.parses_exactly`: the reader accepts what the grammar derives and nothing else, and gives the tree of it.
-/
import TypedScript.Proofs.Tree.Grammar.Sound

namespace TypedScript

open Grammar Cursor

namespace Parse

variable {α β : Type} {c : Cursor} {ts us used rest : List Token} {fuel : Nat}

/-- what is read stands for `x`, and the cursor is left at the rest -/
def Gives (f : α → β) (x : β) (rest : List Token) (a : α) (d : Cursor) : Prop := f a = x ∧ d.At rest

/-! ## Types -/

/-- the tokens do not go on with a type before them -/
def EndsNote (rest : List Token) : Prop := headKind rest ≠ .question ∧ headKind rest ≠ .arrow

theorem runs_noteMarks_nothing {n : Note} (h : c.At rest) (hrest : headKind rest ≠ .question) :
    Runs (noteMarks fuel .default n) c (Gives id n rest) := by
  cases fuel with
  | zero => exact .pure ⟨rfl, h⟩
  | succ fuel =>
    refine runs_kind.bind fun k d hk => ?_
    obtain ⟨rfl, rfl⟩ := hk
    rw [if_neg fun hmark => hrest (by rw [← h.kind]; exact hmark.1)]
    exact .pure ⟨rfl, h⟩

/-- the rules of types, with steps enough for the tokens of the type -/
structure ReadsNotes (fuel : Nat) : Prop where
  within : ∀ {c : Cursor} {used rest : List Token} {n : Note}, IsNote used n → c.At (used ++ rest) → EndsNote rest →
    3 * used.length + 2 ≤ fuel → Runs (noteWithin fuel .default) c (Gives id n rest)
  items : ∀ {c : Cursor} {used rest : List Token} {items : List Note}, IsNotes used items → c.At (used ++ rest) →
    headKind rest = .closeParen → 3 * used.length + 3 ≤ fuel → Runs (noteItems fuel) c (Gives id items rest)

/-- to read a type and the question marks behind it, it is enough to read these -/
def ExtendsNote (fuel : Nat) (used : List Token) (n : Note) : Prop :=
  ∀ ⦃c : Cursor⦄ ⦃rest : List Token⦄ ⦃Q : Note → Cursor → Prop⦄, c.At (used ++ rest) → headKind rest ≠ .arrow →
    3 * used.length + 2 ≤ fuel →
    (∀ {f : Nat} {d : Cursor}, fuel ≤ f + used.length → d.At rest → Runs (noteMarks f .default n) d Q) →
    Runs (noteWithin fuel .default) c Q

theorem extendsNote_of_head {n : Note} (hused : 0 < used.length)
    (hhead : ∀ {c : Cursor} {rest : List Token}, c.At (used ++ rest) → headKind rest ≠ .arrow →
      3 * used.length ≤ fuel → Runs (noteHead (fuel + 1)) c (Gives id n rest)) : ExtendsNote (fuel + 2) used n := by
  intro c rest Q h hrest hfuel hmarks
  refine (hhead h hrest (by omega)).bind fun n d hd => ?_
  obtain ⟨rfl, hd⟩ := hd
  exact hmarks (by omega) hd

theorem ExtendsNote.optional {n : Note} {mark : Token} (hn : ExtendsNote fuel used n) (hmark : mark.kind = .question) :
    ExtendsNote fuel (used ++ [mark]) (.optional n) := by
  intro c rest Q h hrest hfuel hmarks
  simp only [List.append_assoc, List.cons_append, List.nil_append] at h
  simp only [List.length_append, List.length_singleton] at hfuel hmarks
  refine hn h (by simp [hmark]) (by omega) fun {f d} hf hd => ?_
  cases f with
  | zero => omega
  | succ f =>
    refine runs_kind.bind fun k e he => ?_
    obtain ⟨rfl, rfl⟩ := he
    rw [if_pos ⟨hd.kind.trans hmark, rfl⟩]
    refine (runs_advance hd).bind fun _ e he => ?_
    exact hmarks (by omega) he.2

theorem runs_note_named {t : Token} (ht : t.kind = .identifier) (h : c.At (t :: rest)) :
    Runs (noteHead (fuel + 1)) c (Gives id (.named t.value) rest) := by
  refine runs_kind.bind fun k d hk => ?_
  obtain ⟨rfl, rfl⟩ := hk
  rw [h.kind, headKind_cons, ht]
  refine (runs_advance h).bind fun name d hd => ?_
  obtain ⟨rfl, hd⟩ := hd
  exact .pure ⟨rfl, hd⟩

theorem runs_note_list (ih : ReadsNotes fuel) {opening closing : Token} {element : Note}
    (hopening : opening.kind = .openBracket) (helement : IsNote us element) (hclosing : closing.kind = .closeBracket)
    (h : c.At (opening :: (us ++ closing :: rest))) (hfuel : 3 * us.length + 2 ≤ fuel) :
    Runs (noteHead (fuel + 1)) c (Gives id (.list element) rest) := by
  refine runs_kind.bind fun k d hk => ?_
  obtain ⟨rfl, rfl⟩ := hk
  rw [h.kind, headKind_cons, hopening]
  refine (runs_advance h).bind fun _ d hd => ?_
  refine (ih.within helement hd.2 (by simp [EndsNote, hclosing]) hfuel).bind fun n e he => ?_
  obtain ⟨rfl, he⟩ := he
  refine (runs_expect he hclosing).bind fun _ f hf => ?_
  exact .pure ⟨rfl, hf.2⟩

theorem runs_note_tuple (ih : ReadsNotes fuel) {opening closing : Token} {items : List Note}
    (hopening : opening.kind = .openParen) (hitems : IsNotes us items) (hclosing : closing.kind = .closeParen)
    (h : c.At (opening :: (us ++ closing :: rest))) (hrest : headKind rest ≠ .arrow)
    (hfuel : 3 * us.length + 3 ≤ fuel) : Runs (noteHead (fuel + 1)) c (Gives id (.tuple items) rest) := by
  refine runs_kind.bind fun k d hk => ?_
  obtain ⟨rfl, rfl⟩ := hk
  rw [h.kind, headKind_cons, hopening]
  refine (runs_advance h).bind fun _ d hd => ?_
  refine (ih.items hitems hd.2 hclosing hfuel).bind fun ns e he => ?_
  obtain ⟨rfl, he⟩ := he
  refine (runs_expect he hclosing).bind fun _ f hf => ?_
  refine runs_kind.bind fun k g hg => ?_
  obtain ⟨rfl, rfl⟩ := hg
  rw [if_neg (by rw [hf.2.kind]; exact hrest)]
  exact .pure ⟨rfl, hf.2⟩

theorem runs_note_function (ih : ReadsNotes fuel) {opening closing arrow : Token} {params : List Note} {result : Note}
    (hopening : opening.kind = .openParen) (hparams : IsNotes ts params) (hclosing : closing.kind = .closeParen)
    (harrow : arrow.kind = .arrow) (hresult : IsNote us result)
    (h : c.At (opening :: (ts ++ closing :: arrow :: (us ++ rest)))) (hrest : EndsNote rest)
    (hts : 3 * ts.length + 3 ≤ fuel) (hus : 3 * us.length + 2 ≤ fuel) :
    Runs (noteHead (fuel + 1)) c (Gives id (.function params result) rest) := by
  refine runs_kind.bind fun k d hk => ?_
  obtain ⟨rfl, rfl⟩ := hk
  rw [h.kind, headKind_cons, hopening]
  refine (runs_advance h).bind fun _ d hd => ?_
  refine (ih.items hparams hd.2 hclosing hts).bind fun ns e he => ?_
  obtain ⟨rfl, he⟩ := he
  refine (runs_expect he hclosing).bind fun _ f hf => ?_
  refine runs_kind.bind fun k g hg => ?_
  obtain ⟨rfl, rfl⟩ := hg
  rw [if_pos (by rw [hf.2.kind]; exact harrow)]
  refine (runs_advance hf.2).bind fun _ j hj => ?_
  refine (ih.within hresult hj.2 hrest hus).bind fun n k hk => ?_
  obtain ⟨rfl, hk⟩ := hk
  exact .pure ⟨rfl, hk⟩

theorem extendsNote_named {t : Token} {n : Note} (ht : t.kind = .identifier) (hn : Note.named t.value = n) :
    ExtendsNote (fuel + 2) [t] n :=
  extendsNote_of_head (by simp) fun h _ _ => hn ▸ runs_note_named ht h

theorem extendsNote (ih : ReadsNotes fuel) {used : List Token} {n : Note} :
    IsMarked used n → ExtendsNote (fuel + 2) used n
  | .any h hany => extendsNote_named h (by rw [hany]; rfl)
  | .void h hvoid => extendsNote_named h (by rw [hvoid]; rfl)
  | .ident h hany hvoid => extendsNote_named h (by simp [Note.named, hany, hvoid])
  | .list hopening h hclosing => by
    refine extendsNote_of_head (by simp) fun hc _ hle => ?_
    simp only [List.cons_append, List.append_assoc, List.nil_append] at hc
    simp only [List.length_append, List.length_cons, List.length_nil] at hle
    exact runs_note_list ih hopening h hclosing hc (by omega)
  | .tuple hopening h hclosing => by
    refine extendsNote_of_head (by simp) fun hc hrest hle => ?_
    simp only [List.cons_append, List.append_assoc, List.nil_append] at hc
    simp only [List.length_append, List.length_cons, List.length_nil] at hle
    exact runs_note_tuple ih hopening h hclosing hc hrest (by omega)
  | .optional h hmark => (extendsNote ih h).optional hmark

theorem ReadsNotes.within_succ (ih : ReadsNotes fuel) {n : Note} (hn : IsNote used n) (h : c.At (used ++ rest))
    (hrest : EndsNote rest) (hfuel : 3 * used.length + 2 ≤ fuel + 2) :
    Runs (noteWithin (fuel + 2) .default) c (Gives id n rest) := by
  cases hn with
  | marked hmarked => exact extendsNote ih hmarked h hrest.2 hfuel fun _ hd => runs_noteMarks_nothing hd hrest.1
  | function hopening hparams hclosing harrow hresult =>
    simp only [List.cons_append, List.append_assoc] at h
    simp only [List.length_append, List.length_cons] at hfuel
    refine (runs_note_function ih hopening hparams hclosing harrow hresult h hrest (by omega) (by omega)).bind
      fun n d hd => ?_
    obtain ⟨rfl, hd⟩ := hd
    exact runs_noteMarks_nothing hd hrest.1

/-- behind one item of a tuple type comes another one, a comma or the closing parenthesis, and so the item ends -/
theorem endsNote_of_mem {kinds : List TokenKind} (h : headKind rest ∈ kinds) (hquestion : .question ∉ kinds)
    (harrow : .arrow ∉ kinds) : EndsNote rest :=
  ⟨fun heq => hquestion (heq ▸ h), fun heq => harrow (heq ▸ h)⟩

theorem headKind_notes {items : List Note} (hitems : IsNotes used items) (hrest : headKind rest = .closeParen) :
    headKind (used ++ rest) ∈ .closeParen :: noteStarts := by
  have starts {ts us : List Token} (h : StartsWith noteStarts ts) :
      headKind (ts ++ us) ∈ .closeParen :: noteStarts := by
    obtain ⟨t, ws, rfl, ht⟩ := h
    exact List.mem_cons_of_mem _ ht
  cases hitems with
  | empty => exact List.mem_cons.2 (.inl hrest)
  | more hitem _ => exact starts hitem.starts.append
  | comma hitem _ _ => exact starts hitem.starts.append

theorem ReadsNotes.items_succ (ih : ReadsNotes fuel) {items : List Note} (hitems : IsNotes used items)
    (h : c.At (used ++ rest)) (hrest : headKind rest = .closeParen) (hfuel : 3 * used.length + 3 ≤ fuel + 1) :
    Runs (noteItems (fuel + 1)) c (Gives id items rest) := by
  have goes {ts us : List Token} {n : Note} (hn : IsNote ts n) (hc : c.At (ts ++ us)) :
      c.current.kind ≠ .closeParen := by
    intro hclose
    have hstarts := hc.starts hn.starts
    rw [hclose] at hstarts
    exact absurd hstarts (by decide)
  refine runs_kind.bind fun k d hk => ?_
  obtain ⟨rfl, rfl⟩ := hk
  cases hitems with
  | empty =>
    rw [if_pos (by rw [h.kind]; exact hrest)]
    exact .pure ⟨rfl, h⟩
  | more hitem hitems =>
    have hused := hitem.starts.length_pos
    simp only [List.append_assoc] at h
    simp only [List.length_append] at hfuel
    rw [if_neg (goes hitem h)]
    have hnext := headKind_notes hitems hrest
    refine (ih.within hitem h (endsNote_of_mem hnext (by decide) (by decide)) (by omega)).bind fun n d hd => ?_
    obtain ⟨rfl, hd⟩ := hd
    refine runs_kind.bind fun k e he => ?_
    obtain ⟨rfl, rfl⟩ := he
    have hcomma : d.current.kind ≠ .comma := by
      rw [hd.kind]
      intro hcomma
      rw [hcomma] at hnext
      exact absurd hnext (by decide)
    dsimp only
    rw [if_neg hcomma]
    refine (ih.items hitems hd hrest (by omega)).bind fun ns e he => ?_
    obtain ⟨rfl, he⟩ := he
    exact .pure ⟨rfl, he⟩
  | comma hitem hcomma hitems =>
    simp only [List.append_assoc, List.cons_append] at h
    simp only [List.length_append, List.length_cons] at hfuel
    rw [if_neg (goes hitem h)]
    refine (ih.within hitem h (by simp [EndsNote, hcomma]) (by omega)).bind fun n d hd => ?_
    obtain ⟨rfl, hd⟩ := hd
    refine runs_kind.bind fun k e he => ?_
    obtain ⟨rfl, rfl⟩ := he
    dsimp only
    rw [if_pos (hd.kind.trans hcomma)]
    refine (runs_advance hd).bind fun _ e he => ?_
    refine (ih.items hitems he.2 hrest (by omega)).bind fun ns f hf => ?_
    obtain ⟨rfl, hf⟩ := hf
    exact .pure ⟨rfl, hf⟩

theorem readsNotes (fuel : Nat) : ReadsNotes fuel := by
  induction fuel using Nat.strong_induction_on with
  | h fuel ih =>
    refine ⟨fun {c used rest n} hn h hrest hfuel => ?_, fun {c used rest items} hitems h hrest hfuel => ?_⟩
    · obtain ⟨g, rfl⟩ : ∃ g, fuel = g + 2 := ⟨fuel - 2, by omega⟩
      exact (ih g (by omega)).within_succ hn h hrest hfuel
    · obtain ⟨g, rfl⟩ : ∃ g, fuel = g + 1 := ⟨fuel - 1, by omega⟩
      exact (ih g (by omega)).items_succ hitems h hrest hfuel

theorem runs_note {n : Note} (hn : IsNote used n) (h : c.At (used ++ rest)) (hrest : EndsNote rest) :
    Runs (note .default) c (Gives id n rest) := by
  refine runs_get.bind fun a d hd => ?_
  obtain ⟨rfl, rfl⟩ := hd
  refine (readsNotes _).within hn h hrest ?_
  rw [h.depth, List.length_append]
  omega

theorem annotation_runs {n : Option Note} (hn : IsAnnotation used n) (h : c.At (used ++ rest)) (hrest : EndsNote rest)
    (hcolon : headKind rest ≠ .colon) : Runs annotation c (Gives id n rest) := by
  refine runs_kind.bind fun k d hk => ?_
  obtain ⟨rfl, rfl⟩ := hk
  cases hn with
  | none =>
    rw [if_neg (by rw [h.kind]; exact hcolon)]
    exact .pure ⟨rfl, h⟩
  | some hmark hn =>
    rw [if_pos (h.kind.trans hmark)]
    refine (runs_advance h).bind fun _ d hd => ?_
    refine (runs_note hn hd.2 hrest).bind fun n e he => ?_
    obtain ⟨rfl, he⟩ := he
    exact .pure ⟨rfl, he⟩

/-! ## Items between commas -/

theorem runs_separator_comma {close : TokenKind} {comma : Token} (h : c.At (comma :: rest))
    (hcomma : comma.kind = .comma) : Runs (separator close) c fun _ d => d.At rest := by
  refine runs_kind.bind fun k d hk => ?_
  obtain ⟨rfl, rfl⟩ := hk
  rw [if_pos (h.kind.trans hcomma)]
  exact (runs_advance h).bind fun _ d hd => .pure hd.2

theorem runs_separator_close {close : TokenKind} (h : c.At rest) (hrest : headKind rest = close)
    (hclose : close ≠ .comma) : Runs (separator close) c fun _ d => d.At rest := by
  refine runs_kind.bind fun k d hk => ?_
  obtain ⟨rfl, rfl⟩ := hk
  have hkind := h.kind.trans hrest
  rw [if_neg (by rw [hkind]; exact hclose)]
  refine runs_kind.bind fun k d hk => ?_
  obtain ⟨rfl, rfl⟩ := hk
  rw [if_neg (by rw [hkind]; simp)]
  exact .pure h

/-- a step of reading a list, from the reading of its items and of a shorter list -/
theorem runs_listStep {IsItem : List Token → β → Prop} {f : α → β} {close : TokenKind} {item : Parse α}
    {more : Parse (List α)} {items : List β} (hlist : IsList IsItem used items) (h : c.At (used ++ rest))
    (hrest : headKind rest = close) (hclose : close ≠ .comma)
    (hstarts : ∀ {ts : List Token} {b : β}, IsItem ts b → ∃ t us, ts = t :: us ∧ t.kind ≠ close)
    (hitem : ∀ {c : Cursor} {ts us : List Token} {b : β}, IsItem ts b → ts.length ≤ used.length → c.At (ts ++ us) →
      headKind us = .comma ∨ headKind us = close → Runs item c (Gives f b us))
    (hmore : ∀ {c : Cursor} {ts : List Token} {items : List β}, IsList IsItem ts items → ts.length < used.length →
      c.At (ts ++ rest) → Runs more c (Gives (List.map f) items rest)) :
    Runs (listStep close item more) c (Gives (List.map f) items rest) := by
  refine runs_kind.bind fun k d hk => ?_
  obtain ⟨rfl, rfl⟩ := hk
  cases hlist with
  | empty =>
    rw [if_pos (h.kind.trans hrest)]
    exact .pure ⟨rfl, h⟩
  | last hb =>
    obtain ⟨t, us, rfl, ht⟩ := hstarts hb
    rw [if_neg (by rw [h.kind]; exact ht)]
    refine (hitem hb (Nat.le_refl _) h (.inr hrest)).bind fun a d hd => ?_
    obtain ⟨rfl, hd⟩ := hd
    refine (runs_separator_close hd hrest hclose).bind fun _ e he => ?_
    refine (hmore .empty (by simp) he).bind fun as g hg => ?_
    obtain ⟨has, hg⟩ := hg
    exact .pure ⟨by simpa using has, hg⟩
  | more hb hcomma hlist =>
    obtain ⟨t, us, rfl, ht⟩ := hstarts hb
    rw [if_neg (by rw [h.kind]; exact ht)]
    simp only [List.append_assoc, List.cons_append] at h
    refine (hitem hb (by simp) h (.inl hcomma)).bind fun a d hd => ?_
    obtain ⟨rfl, hd⟩ := hd
    refine (runs_separator_comma hd hcomma).bind fun _ e he => ?_
    refine (hmore hlist (by simp; omega) he).bind fun as g hg => ?_
    obtain ⟨rfl, hg⟩ := hg
    exact .pure ⟨rfl, hg⟩

theorem runs_param {p : Parameter} (hp : IsParameter used p) (h : c.At (used ++ rest)) (hrest : EndsNote rest) :
    Runs param c (Gives Parameter.bare p rest) := by
  cases hp with
  | mk hname hcolon hn =>
    refine (runs_expectDetailed h hname).bind fun name d hd => ?_
    obtain ⟨rfl, hd⟩ := hd
    refine (runs_expect hd hcolon).bind fun _ e he => ?_
    refine (runs_note hn he.2 hrest).bind fun n f hf => ?_
    obtain ⟨rfl, hf⟩ := hf
    refine runs_spanFrom.bind fun span g hg => ?_
    subst hg
    exact .pure ⟨rfl, hf⟩

theorem runs_params {params : List Parameter} (hparams : IsList IsParameter used params) (h : c.At (used ++ rest))
    (hrest : headKind rest = .closeParen) (hfuel : used.length < fuel) :
    Runs (Parse.params fuel) c (Gives (List.map Parameter.bare) params rest) := by
  induction fuel generalizing c used params with
  | zero => omega
  | succ fuel ih =>
    rw [params_succ]
    refine runs_listStep hparams h hrest (by simp) ?_ ?_ fun hlist hlength hc => ih hlist hc (by omega)
    · intro ts p hp
      cases hp with
      | mk hname _ _ => exact ⟨_, _, rfl, by simp [hname]⟩
    · intro c ts us p hp _ hc hus
      refine runs_param hp hc ?_
      rcases hus with hus | hus <;> simp [EndsNote, hus]

theorem runs_useNames {names : List String} (hnames : IsList IsName used names) (h : c.At (used ++ rest))
    (hrest : headKind rest = .closeParen) (hfuel : used.length < fuel) :
    Runs (useNames fuel) c (Gives (List.map id) names rest) := by
  induction fuel generalizing c used names with
  | zero => omega
  | succ fuel ih =>
    rw [useNames_succ]
    refine runs_listStep hnames h hrest (by simp) ?_ ?_ fun hlist hlength hc => ih hlist hc (by omega)
    · intro ts name hname
      cases hname with
      | mk hname => exact ⟨_, _, rfl, by simp [hname]⟩
    · intro c ts us name hname _ hc _
      cases hname with
      | mk hname =>
        refine (runs_expect hc hname).bind fun token d hd => ?_
        obtain ⟨rfl, hd⟩ := hd
        exact .pure ⟨rfl, hd⟩

theorem runs_useFilter {names : Option (List String)} (hnames : IsFilter used names) (h : c.At (used ++ rest))
    (hrest : headKind rest = .semicolon) : Runs useFilter c (Gives id names rest) := by
  refine runs_kind.bind fun k d hk => ?_
  obtain ⟨rfl, rfl⟩ := hk
  cases hnames with
  | none =>
    rw [if_neg (by rw [h.kind]; simp [hrest])]
    exact .pure ⟨rfl, h⟩
  | some hopening hnames hclosing =>
    simp only [List.cons_append, List.append_assoc, List.nil_append] at h
    rw [if_pos (h.kind.trans hopening)]
    refine (runs_advance h).bind fun _ d hd => ?_
    refine runs_get.bind fun a e he => ?_
    obtain ⟨rfl, rfl⟩ := he
    refine (runs_useNames hnames hd.2 hclosing (by rw [hd.2.depth]; simp; omega)).bind fun names e he => ?_
    obtain ⟨rfl, he⟩ := he
    refine (runs_expect he hclosing).bind fun _ f hf => ?_
    exact .pure ⟨by simp, hf.2⟩

/-! ## Expressions -/

/-- the rules of expressions and statements, with steps enough for the tokens of the tree -/
structure Reads (fuel : Nat) : Prop where
  expr : ∀ power {c : Cursor} {used rest : List Token} {e : Expr}, Binds power.floor used e → c.At (used ++ rest) →
    power.weaker (BindingPower.ofToken (headKind rest)) = false → 8 * used.length + 2 ≤ fuel →
    Runs (exprWithin fuel power) c (Gives Expr.bare e rest)
  operand : ∀ {c : Cursor} {used rest : List Token} {e : Expr}, IsPrimary used e → c.At (used ++ rest) →
    8 * used.length + 1 ≤ fuel → Runs (operand fuel) c (Gives Expr.bare e rest)
  items : ∀ {close} {c : Cursor} {used rest : List Token} {es : List Expr}, close ∈ [.closeParen, .closeBracket] →
    IsExprs used es → c.At (used ++ rest) → headKind rest = close → 8 * used.length + 3 ≤ fuel →
    Runs (exprItems fuel close) c (Gives (List.map Expr.bare) es rest)
  literal : ∀ {c : Cursor} {used rest : List Token} {e : Expr}, IsPrimary used e → headKind used = .fnWord →
    c.At (used ++ rest) → 8 * used.length ≤ fuel → Runs (functionLiteral fuel) c (Gives Expr.bare e rest)
  declaration : ∀ {c : Cursor} {used rest : List Token} {d : Declaration}, IsDeclaration used d → c.At (used ++ rest) →
    8 * used.length ≤ fuel → Runs (declaration fuel) c (Gives Declaration.bare d rest)
  stmt : ∀ {c : Cursor} {used rest : List Token} {s : Stmt}, IsStmt used s → c.At (used ++ rest) →
    8 * used.length + 1 ≤ fuel → Runs (stmtWithin fuel) c (Gives Stmt.bare s rest)
  block : ∀ {c : Cursor} {used rest : List Token} {b : Block}, IsBlock used b → c.At (used ++ rest) →
    8 * used.length ≤ fuel → Runs (blockWithin fuel) c (Gives Block.bare b rest)
  body : ∀ {c : Cursor} {used rest : List Token} {ss : List Stmt}, IsStmts used ss → c.At (used ++ rest) →
    headKind rest = .closeCurly → 8 * used.length + 2 ≤ fuel → Runs (blockBody fuel) c (Gives Stmt.bareOf ss rest)

/-- to read an expression that binds as a power of a rank and a tail behind it, it is enough to read the tail -/
def Extends (fuel n : Nat) (used : List Token) (e : Expr) : Prop :=
  ∀ ⦃power : BindingPower⦄ ⦃c : Cursor⦄ ⦃rest : List Token⦄ ⦃Q : Expr → Cursor → Prop⦄, c.At (used ++ rest) →
    power.floor ≤ n → (BindingPower.ofToken (headKind rest)).rank ≤ n → 8 * used.length + 2 ≤ fuel →
    (∀ {f : Nat} {left : Expr} {d : Cursor}, f < fuel → fuel ≤ f + used.length → left.bare = e → d.At rest →
      Runs (exprTail f power left) d Q) →
    Runs (exprWithin fuel power) c Q

variable {e : Expr} {m n : Nat}

theorem Extends.mono (h : Extends fuel n used e) (hmn : m ≤ n) : Extends fuel m used e :=
  fun _ _ _ _ hc hfloor hrank => h hc (Nat.le_trans hfloor hmn) (Nat.le_trans hrank hmn)

theorem runs_exprTail_nothing {power : BindingPower} (h : c.At rest)
    (hrest : power.weaker (BindingPower.ofToken (headKind rest)) = false) (hfuel : 0 < fuel) :
    Runs (exprTail fuel power e) c (Gives Expr.bare e.bare rest) := by
  obtain ⟨fuel, rfl⟩ : ∃ f, fuel = f + 1 := ⟨fuel - 1, by omega⟩
  refine runs_get.bind fun a d hd => ?_
  obtain ⟨rfl, rfl⟩ := hd
  dsimp only
  rw [h.kind, if_neg (by simp [hrest])]
  exact .pure ⟨rfl, h⟩

/-- what a tail goes on with where the next token binds the expression before it -/
theorem runs_exprTail {power : BindingPower} {left : Expr} {t : Token} {Q : Expr → Cursor → Prop} (h : c.At (t :: ts))
    (hpower : power.weaker (BindingPower.ofToken t.kind) = true)
    (hassign : t.kind = .assignment → ∀ {d}, d.At ts → Runs (do
      let value ← exprWithin fuel .default
      exprTail fuel power (.assign left value ⟨left.span.start, value.span.stop⟩)) d Q)
    (hcall : t.kind = .openParen → ∀ {d}, d.At ts → Runs (do
      let arguments ← exprItems fuel .closeParen
      let _ ← expect .closeParen
      let span ← spanFrom left.span.start
      exprTail fuel power (.call left arguments span)) d Q)
    (hsubscript : t.kind = .openBracket → ∀ {d}, d.At ts → Runs (do
      let index ← exprWithin fuel .default
      let _ ← expect .closeBracket
      let span ← spanFrom left.span.start
      exprTail fuel power (.subscript left index span)) d Q)
    (hbinary : t.kind ≠ .assignment → t.kind ≠ .openParen → t.kind ≠ .openBracket → ∀ {d}, d.At ts → Runs (do
      let right ← exprWithin fuel (BindingPower.ofToken t.kind)
      exprTail fuel power (.binary t.value left right ⟨left.span.start, right.span.stop⟩)) d Q) :
    Runs (exprTail (fuel + 1) power left) c Q := by
  refine runs_get.bind fun a d hd => ?_
  obtain ⟨rfl, rfl⟩ := hd
  dsimp only
  rw [h.current, if_pos hpower]
  refine (runs_advance h).bind fun _ d hd => ?_
  split
  · next hkind => exact hassign hkind hd.2
  · next hkind => exact hcall hkind hd.2
  · next hkind => exact hsubscript hkind hd.2
  · next ha hp hb => exact hbinary ha hp hb hd.2

theorem Reads.whole (ih : Reads fuel) (he : IsExpr used e) (h : c.At (used ++ rest))
    (hrest : BindingPower.ofToken (headKind rest) = .default) (hfuel : 8 * used.length + 2 ≤ fuel) :
    Runs (exprWithin fuel .default) c (Gives Expr.bare e rest) :=
  ih.expr .default he h (by rw [hrest]; rfl) hfuel

theorem extends_primary (ih : ∀ f < fuel, Reads f) (he : IsPrimary used e) : Extends fuel 8 used e := by
  intro power c rest Q h _ _ hfuel htail
  have hused := he.starts.length_pos
  obtain ⟨fuel, rfl⟩ : ∃ f, fuel = f + 1 := ⟨fuel - 1, by omega⟩
  refine ((ih fuel (by omega)).operand he h (by omega)).bind fun left d hd => ?_
  exact htail (by omega) (by omega) hd.1 hd.2

theorem Extends.call {callee : Expr} {opening closing : Token} {arguments : List Expr}
    (hcallee : Extends fuel 7 ts callee) (ih : ∀ f < fuel, Reads f) (hopening : opening.kind = .openParen)
    (harguments : IsExprs us arguments) (hclosing : closing.kind = .closeParen) :
    Extends fuel 7 (ts ++ opening :: (us ++ [closing])) (.call callee arguments .null) := by
  intro power c rest Q h hfloor _ hfuel htail
  simp only [List.append_assoc, List.cons_append, List.nil_append] at h
  simp only [List.length_append, List.length_cons, List.length_nil] at hfuel htail
  have hpower : BindingPower.ofToken opening.kind = .call := by rw [hopening]; rfl
  refine hcallee h hfloor (by rw [headKind_cons, hpower]; decide) (by omega) fun {f left d} hlt hf hleft hd => ?_
  obtain ⟨f, rfl⟩ : ∃ g, f = g + 1 := ⟨f - 1, by omega⟩
  refine runs_exprTail hd (by rw [hpower]; exact weaker_of_floor_le hfloor (by decide)) (by simp [hopening])
    (fun _ {d} hd => ?_) (by simp [hopening]) (by simp [hopening])
  refine ((ih f (by omega)).items (by simp) harguments hd hclosing (by omega)).bind fun es g hg => ?_
  refine (runs_expect hg.2 hclosing).bind fun _ j hj => ?_
  refine runs_spanFrom.bind fun span k hk => ?_
  subst hk
  exact htail (by omega) (by omega) (by rw [Expr.bare, hleft, Expr.bareOf_eq_map, hg.1]) hj.2

theorem Extends.subscript {target index : Expr} {opening closing : Token}
    (htarget : Extends fuel 7 ts target) (ih : ∀ f < fuel, Reads f) (hopening : opening.kind = .openBracket)
    (hindex : IsExpr us index) (hclosing : closing.kind = .closeBracket) :
    Extends fuel 7 (ts ++ opening :: (us ++ [closing])) (.subscript target index .null) := by
  intro power c rest Q h hfloor _ hfuel htail
  simp only [List.append_assoc, List.cons_append, List.nil_append] at h
  simp only [List.length_append, List.length_cons, List.length_nil] at hfuel htail
  have hpower : BindingPower.ofToken opening.kind = .call := by rw [hopening]; rfl
  refine htarget h hfloor (by rw [headKind_cons, hpower]; decide) (by omega) fun {f left d} hlt hf hleft hd => ?_
  obtain ⟨f, rfl⟩ : ∃ g, f = g + 1 := ⟨f - 1, by omega⟩
  refine runs_exprTail hd (by rw [hpower]; exact weaker_of_floor_le hfloor (by decide)) (by simp [hopening])
    (by simp [hopening]) (fun _ {d} hd => ?_) (by simp [hopening])
  refine ((ih f (by omega)).whole hindex hd (by rw [headKind_cons, hclosing]; rfl) (by omega)).bind fun e g hg => ?_
  refine (runs_expect hg.2 hclosing).bind fun _ j hj => ?_
  refine runs_spanFrom.bind fun span k hk => ?_
  subst hk
  exact htail (by omega) (by omega) (by rw [Expr.bare, hleft, hg.1]) hj.2

theorem Extends.apply {level : Level} {left right : Expr} {op : Token}
    (hleft : Extends fuel level.power.rank ts left) (ih : ∀ f < fuel, Reads f)
    (hop : (op.kind, op.value) ∈ level.operators) (hright : IsOperand level us right) :
    Extends fuel level.power.rank (ts ++ op :: us) (.binary op.value left right .null) := by
  intro power c rest Q h hfloor hrank hfuel htail
  simp only [List.append_assoc, List.cons_append] at h
  simp only [List.length_append, List.length_cons] at hfuel htail
  obtain ⟨hpower, hassign, hparen, hbracket⟩ := Level.ofToken_operator hop
  refine hleft h hfloor (by rw [headKind_cons, hpower]) (by omega) fun {f e d} hlt hf he hd => ?_
  obtain ⟨f, rfl⟩ : ∃ g, f = g + 1 := ⟨f - 1, by omega⟩
  refine runs_exprTail hd (by rw [hpower]; exact weaker_of_floor_le hfloor level.rank_pos)
    (fun hkind => absurd hkind hassign) (fun hkind => absurd hkind hparen) (fun hkind => absurd hkind hbracket)
    fun _ _ _ {d} hd => ?_
  rw [isOperand_iff, ← level.floor_power] at hright
  rw [hpower]
  refine ((ih f (by omega)).expr level.power hright hd (decide_eq_false (by omega)) (by omega)).bind fun e' g hg => ?_
  exact htail (by omega) (by omega) (by rw [Expr.bare, he, hg.1]) hg.2

theorem Extends.assign {target value : Expr} {mark : Token} (htarget : Extends fuel 2 ts target)
    (ih : ∀ f < fuel, Reads f) (hmark : mark.kind = .assignment) (hvalue : IsExpr us value) :
    Extends fuel 0 (ts ++ mark :: us) (.assign target value .null) := by
  intro power c rest Q h hfloor hrank hfuel htail
  simp only [List.append_assoc, List.cons_append] at h
  simp only [List.length_append, List.length_cons] at hfuel htail
  have hpower : BindingPower.ofToken mark.kind = .assignment := by rw [hmark]; rfl
  refine htarget h (by omega) (by rw [headKind_cons, hpower]; decide) (by omega) fun {f left d} hlt hf hleft hd => ?_
  obtain ⟨f, rfl⟩ : ∃ g, f = g + 1 := ⟨f - 1, by omega⟩
  refine runs_exprTail hd (by rw [hpower]; exact weaker_of_floor_le (by omega) (by decide))
    (fun _ {d} hd => ?_) (by simp [hmark]) (by simp [hmark]) (fun hkind => absurd hmark hkind)
  refine ((ih f (by omega)).expr .default hvalue hd (decide_eq_false (by omega)) (by omega)).bind fun e g hg => ?_
  exact htail (by omega) (by omega) (by rw [Expr.bare, hleft, hg.1]) hg.2

theorem extends_applied (ih : ∀ f < fuel, Reads f) {used : List Token} {e : Expr} :
    IsApplied used e → Extends fuel 7 used e
  | .primary h => (extends_primary ih h).mono (by decide)
  | .call h hopening harguments hclosing => (extends_applied ih h).call ih hopening harguments hclosing
  | .subscript h hopening hindex hclosing => (extends_applied ih h).subscript ih hopening hindex hclosing

mutual

theorem extends_binary (ih : ∀ f < fuel, Reads f) {level : Level} {used : List Token} {e : Expr} :
    IsBinary level used e → Extends fuel level.power.rank used e
  | .operand h => (extends_operand ih h).mono (Nat.le_succ _)
  | .apply h hop hright => (extends_binary ih h).apply ih hop hright

theorem extends_operand (ih : ∀ f < fuel, Reads f) {level : Level} {used : List Token} {e : Expr} :
    IsOperand level used e → Extends fuel (level.power.rank + 1) used e
  | .tighter hnext h => by
    rw [← Level.rank_tighter hnext]
    exact extends_binary ih h
  | .applied hnext h => (extends_applied ih h).mono (by rw [Level.rank_tightest hnext])

end

theorem extends_expr (ih : ∀ f < fuel, Reads f) (he : IsExpr used e) : Extends fuel 0 used e := by
  cases he with
  | operators h => exact (extends_binary ih h).mono (Nat.zero_le _)
  | assign h hmark hvalue => exact (extends_binary ih h).assign ih hmark hvalue

theorem extends_binds (ih : ∀ f < fuel, Reads f) (he : Binds n used e) : Extends fuel (min n 8) used e := by
  rcases n with _ | _ | _ | _ | _ | _ | _ | _ | n
  · exact extends_expr ih he
  · exact (extends_binary ih he).mono (by decide)
  · exact extends_binary ih he
  · exact extends_binary ih he
  · exact extends_binary ih he
  · exact extends_binary ih he
  · exact extends_binary ih he
  · exact extends_applied ih he
  · exact (extends_primary ih he).mono (by omega)

theorem reads_expr (ih : ∀ f < fuel, Reads f) (power : BindingPower) (he : Binds power.floor used e)
    (h : c.At (used ++ rest)) (hrest : power.weaker (BindingPower.ofToken (headKind rest)) = false)
    (hfuel : 8 * used.length + 2 ≤ fuel) : Runs (exprWithin fuel power) c (Gives Expr.bare e rest) := by
  have hfloor := floor_le power
  have hrank := rank_le_floor_of_not_weaker hrest
  refine extends_binds ih he h (by omega) (by omega) hfuel fun _ hf hleft hd => ?_
  exact hleft ▸ runs_exprTail_nothing hd hrest (by omega)

/-- an expression of one token, once the token has been looked at -/
theorem runs_single {t : Token} (h : c.At (t :: rest)) :
    Runs (do let _ ← advance; return e) c (Gives Expr.bare e.bare rest) :=
  (runs_advance h).bind fun _ _ hd => .pure ⟨rfl, hd.2⟩

theorem runs_primary_number {t : Token} (h : c.At (t :: rest)) (hkind : t.kind = .number)
    (hfits : numeral t.value.toList < 2 ^ 63) :
    Runs primary c (Gives Expr.bare (.number (Int64.ofNat (numeral t.value.toList)) .null) rest) := by
  obtain ⟨hne, hall⟩ := (h.proper t List.mem_cons_self).number hkind
  refine runs_get.bind fun a d hd => ?_
  obtain ⟨rfl, rfl⟩ := hd
  dsimp only
  rw [h.current, hkind, int64?_digits hne hall, if_pos hfits]
  exact runs_single h

theorem Reads.operand_succ (ih : Reads fuel) (he : IsPrimary used e) (h : c.At (used ++ rest))
    (hfuel : 8 * used.length ≤ fuel) : Runs (Parse.operand (fuel + 1)) c (Gives Expr.bare e rest) := by
  refine runs_kind.bind fun k d hk => ?_
  obtain ⟨rfl, rfl⟩ := hk
  cases he with
  | number hkind hfits =>
    rw [At.current h, hkind]
    exact runs_primary_number h hkind hfits
  | text hkind | ident hkind | yes hkind | no hkind | self hkind =>
    rw [At.current h, hkind]
    refine runs_get.bind fun a d hd => ?_
    obtain ⟨rfl, rfl⟩ := hd
    dsimp only
    rw [At.current h, hkind]
    exact runs_single h
  | parentheses hopening hexpr hclosing =>
    simp only [List.cons_append, List.append_assoc, List.nil_append] at h
    simp only [List.length_append, List.length_cons, List.length_nil] at hfuel
    rw [h.current, hopening]
    refine (runs_advance h).bind fun _ d hd => ?_
    refine (ih.whole hexpr hd.2 (by rw [headKind_cons, hclosing]; rfl) (by omega)).bind fun e f hf => ?_
    refine (runs_expect hf.2 hclosing).bind fun _ g hg => ?_
    exact .pure ⟨hf.1, hg.2⟩
  | list hopening hitems hclosing =>
    simp only [List.cons_append, List.append_assoc, List.nil_append] at h
    simp only [List.length_append, List.length_cons, List.length_nil] at hfuel
    rw [h.current, hopening]
    refine (runs_advance h).bind fun bracket d hd => ?_
    refine (ih.items (by simp) hitems hd.2 hclosing (by omega)).bind fun items f hf => ?_
    refine (runs_expect hf.2 hclosing).bind fun _ g hg => ?_
    refine runs_spanFrom.bind fun span j hj => ?_
    subst hj
    exact .pure ⟨by rw [Expr.bare, Expr.bareOf_eq_map, hf.1], hg.2⟩
  | function hword hopening hparams hclosing hresult hbody =>
    have hliteral : IsPrimary _ _ := .function hword hopening hparams hclosing hresult hbody
    rw [At.current h, hword]
    exact ih.literal hliteral hword h hfuel

theorem Reads.items_succ (ih : Reads fuel) {close : TokenKind} {es : List Expr}
    (hclose : close ∈ [TokenKind.closeParen, .closeBracket]) (hitems : IsExprs used es) (h : c.At (used ++ rest))
    (hrest : headKind rest = close) (hfuel : 8 * used.length + 2 ≤ fuel) :
    Runs (exprItems (fuel + 1) close) c (Gives (List.map Expr.bare) es rest) := by
  have hcomma : close ≠ .comma := by
    rintro rfl
    exact absurd hclose (by decide)
  have hends : ∀ k ∈ [TokenKind.comma, .closeParen, .closeBracket], BindingPower.ofToken k = .default := by decide
  rw [exprItems_succ]
  refine runs_listStep (isExprs_iff.1 hitems) h hrest hcomma ?_ ?_ ?_
  · intro ts e he
    obtain ⟨t, us, rfl, ht⟩ := he.starts
    refine ⟨t, us, rfl, ?_⟩
    rintro rfl
    have hnone : ∀ k ∈ exprStarts, k ∉ [TokenKind.closeParen, .closeBracket] := by decide
    exact hnone _ ht hclose
  · intro c ts us e he hlength hc hus
    refine ih.whole he hc (hends _ ?_) (by omega)
    rcases hus with hus | hus
    · rw [hus]
      exact List.mem_cons_self
    · rw [hus]
      exact List.mem_cons_of_mem _ hclose
  · intro c ts items hlist hlength hc
    exact ih.items hclose (isExprs_iff.2 hlist) hc hrest (by omega)

theorem Reads.literal_succ (ih : Reads fuel) (he : IsPrimary used e) (hword : headKind used = .fnWord)
    (h : c.At (used ++ rest)) (hfuel : 8 * used.length ≤ fuel + 1) :
    Runs (functionLiteral (fuel + 1)) c (Gives Expr.bare e rest) := by
  cases he with
  | function _ hopening hparams hclosing hresult hbody =>
    simp only [List.cons_append, List.append_assoc] at h
    simp only [List.length_append, List.length_cons] at hfuel
    refine (runs_advance h).bind fun word d hd => ?_
    refine (runs_freshId hd.2).bind fun id f hf => ?_
    refine (runs_expect hf hopening).bind fun _ g hg => ?_
    refine runs_get.bind fun a j hj => ?_
    obtain ⟨rfl, rfl⟩ := hj
    refine (runs_params hparams hg.2 hclosing (by rw [hg.2.depth]; simp; omega)).bind fun parameters j hj => ?_
    refine (runs_expect hj.2 hclosing).bind fun _ k hk => ?_
    have hcurly := @IsBlock.headKind_append _ rest _ hbody
    refine (annotation_runs hresult hk.2 (by simp [EndsNote, hcurly]) (by simp [hcurly])).bind fun result l hl => ?_
    refine (ih.block hbody hl.2 (by omega)).bind fun body m hm => ?_
    refine runs_spanFrom.bind fun span n hn => ?_
    subst hn
    have hresult : result = _ := hl.1
    exact .pure ⟨by rw [Expr.bare, hj.1, hresult, hm.1], hm.2⟩
  | _ => simp_all

/-! ## Statements -/

theorem Reads.declaration_succ (ih : Reads fuel) {d : Declaration} (hd : IsDeclaration used d) (h : c.At (used ++ rest))
    (hfuel : 8 * used.length ≤ fuel + 1) :
    Runs (Parse.declaration (fuel + 1)) c (Gives Declaration.bare d rest) := by
  cases hd with
  | mk hword hname hnote hmark hvalue hsemicolon =>
    simp only [List.cons_append, List.append_assoc, List.nil_append] at h
    simp only [List.length_append, List.length_cons, List.length_nil] at hfuel
    refine (runs_expect h hword).bind fun word d hd => ?_
    refine (runs_expectDetailed hd.2 hname).bind fun name e he => ?_
    obtain ⟨rfl, he⟩ := he
    refine (annotation_runs hnote he (by simp [EndsNote, hmark]) (by simp [hmark])).bind fun type f hf => ?_
    refine (runs_expectDetailed hf.2 hmark).bind fun _ g hg => ?_
    refine (ih.whole hvalue hg.2 (by rw [headKind_cons, hsemicolon]; rfl) (by omega)).bind fun value j hj => ?_
    refine (runs_expect hj.2 hsemicolon).bind fun _ k hk => ?_
    refine runs_spanFrom.bind fun span l hl => ?_
    subst hl
    have htype : type = _ := hf.1
    exact .pure ⟨by rw [Declaration.bare, htype, hj.1], hk.2⟩

theorem Reads.stmt_succ (ih : Reads fuel) {s : Stmt} (hs : IsStmt used s) (h : c.At (used ++ rest))
    (hfuel : 8 * used.length ≤ fuel) : Runs (stmtWithin (fuel + 1)) c (Gives Stmt.bare s rest) := by
  refine runs_kind.bind fun k d hk => ?_
  obtain ⟨rfl, rfl⟩ := hk
  cases hs with
  | declare hdeclared =>
    have hlet : c.current.kind = .letWord := by
      cases hdeclared with
      | mk hword _ _ _ _ _ => rw [At.current h, hword]
    rw [hlet]
    refine (ih.declaration hdeclared h hfuel).bind fun declared d hd => ?_
    exact .pure ⟨by rw [Stmt.bare, hd.1], hd.2⟩
  | pub hword hdeclared =>
    simp only [List.cons_append] at h
    simp only [List.length_cons] at hfuel
    rw [h.current, hword]
    refine (runs_advance h).bind fun word d hd => ?_
    refine runs_kind.bind fun k e he => ?_
    obtain ⟨rfl, rfl⟩ := he
    have hlet : d.current.kind = .letWord := by
      cases hdeclared with
      | mk hword _ _ _ _ _ => rw [At.current hd.2, hword]
    rw [if_neg (by simp [hlet])]
    refine (ih.declaration hdeclared hd.2 (by omega)).bind fun declared e he => ?_
    refine runs_spanFrom.bind fun span f hf => ?_
    subst hf
    exact .pure ⟨by rw [Stmt.bare, he.1], he.2⟩
  | use hword hpath hnames hsemicolon =>
    simp only [List.cons_append, List.append_assoc, List.nil_append] at h
    rw [h.current, hword]
    refine (runs_advance h).bind fun word d hd => ?_
    refine (runs_expectDetailed hd.2 hpath).bind fun path e he => ?_
    obtain ⟨rfl, he⟩ := he
    refine (runs_useFilter hnames he hsemicolon).bind fun names f hf => ?_
    refine (runs_expect hf.2 hsemicolon).bind fun _ g hg => ?_
    refine runs_spanFrom.bind fun span j hj => ?_
    subst hj
    have hfilter : names = _ := hf.1
    exact .pure ⟨by rw [Stmt.bare, hfilter], hg.2⟩
  | cond hword hcondition hbody =>
    simp only [List.cons_append, List.append_assoc] at h
    simp only [List.length_append, List.length_cons] at hfuel
    rw [h.current, hword]
    refine (runs_advance h).bind fun word d hd => ?_
    have hcurly := @IsBlock.headKind_append _ rest _ hbody
    refine (ih.whole hcondition hd.2 (by rw [hcurly]; rfl) (by omega)).bind fun condition e he => ?_
    refine (ih.block hbody he.2 (by omega)).bind fun body f hf => ?_
    refine runs_spanFrom.bind fun span g hg => ?_
    subst hg
    exact .pure ⟨by rw [Stmt.bare, he.1, hf.1], hf.2⟩
  | giveNothing hword hsemicolon =>
    simp only [List.cons_append, List.nil_append] at h
    rw [h.current, hword]
    refine (runs_advance h).bind fun word d hd => ?_
    refine runs_kind.bind fun k e he => ?_
    obtain ⟨rfl, rfl⟩ := he
    rw [if_pos (hd.2.kind.trans hsemicolon)]
    refine (runs_advance hd.2).bind fun _ e he => ?_
    refine runs_spanFrom.bind fun span f hf => ?_
    subst hf
    exact .pure ⟨rfl, he.2⟩
  | giveBack hword hvalue hsemicolon =>
    simp only [List.cons_append, List.append_assoc, List.nil_append] at h
    simp only [List.length_append, List.length_cons, List.length_nil] at hfuel
    rw [h.current, hword]
    refine (runs_advance h).bind fun word d hd => ?_
    refine runs_kind.bind fun k e he => ?_
    obtain ⟨rfl, rfl⟩ := he
    have hopen : d.current.kind ≠ .semicolon := by
      intro hkind
      have hstarts := hd.2.starts hvalue.starts
      rw [hkind] at hstarts
      exact absurd hstarts (by decide)
    rw [if_neg hopen]
    refine (ih.whole hvalue hd.2 (by rw [headKind_cons, hsemicolon]; rfl) (by omega)).bind fun value e he => ?_
    refine (runs_expect he.2 hsemicolon).bind fun _ f hf => ?_
    refine runs_spanFrom.bind fun span g hg => ?_
    subst hg
    exact .pure ⟨by rw [Stmt.bare, he.1], hf.2⟩
  | eval hexpr hsemicolon =>
    simp only [List.append_assoc, List.cons_append, List.nil_append] at h
    simp only [List.length_append, List.length_cons, List.length_nil] at hfuel
    have hstarts := h.starts hexpr.starts
    have hwords : ∀ k ∈ [TokenKind.letWord, .ifWord, .returnWord, .pubWord, .useWord], k ∉ exprStarts := by decide
    split
    · next hkind => exact absurd hstarts (hkind ▸ hwords _ (by simp))
    · next hkind => exact absurd hstarts (hkind ▸ hwords _ (by simp))
    · next hkind => exact absurd hstarts (hkind ▸ hwords _ (by simp))
    · next hkind => exact absurd hstarts (hkind ▸ hwords _ (by simp))
    · next hkind => exact absurd hstarts (hkind ▸ hwords _ (by simp))
    · refine (ih.whole hexpr h (by rw [headKind_cons, hsemicolon]; rfl) (by omega)).bind fun e d hd => ?_
      refine (runs_expect hd.2 hsemicolon).bind fun _ f hf => ?_
      refine runs_spanFrom.bind fun span g hg => ?_
      subst hg
      exact .pure ⟨by rw [Stmt.bare, hd.1], hf.2⟩

theorem Reads.block_succ (ih : Reads fuel) {b : Block} (hb : IsBlock used b) (h : c.At (used ++ rest))
    (hfuel : 8 * used.length ≤ fuel + 1) : Runs (blockWithin (fuel + 1)) c (Gives Block.bare b rest) := by
  cases hb with
  | mk hopening hbody hclosing =>
    simp only [List.cons_append, List.append_assoc, List.nil_append] at h
    simp only [List.length_append, List.length_cons, List.length_nil] at hfuel
    refine (runs_expect h hopening).bind fun bracket d hd => ?_
    refine (ih.body hbody hd.2 hclosing (by omega)).bind fun body e he => ?_
    refine (runs_expect he.2 hclosing).bind fun _ f hf => ?_
    refine runs_spanFrom.bind fun span g hg => ?_
    subst hg
    exact .pure ⟨by rw [Block.bare, he.1], hf.2⟩

theorem Reads.body_succ (ih : Reads fuel) {ss : List Stmt} (hss : IsStmts used ss) (h : c.At (used ++ rest))
    (hrest : headKind rest = .closeCurly) (hfuel : 8 * used.length + 1 ≤ fuel) :
    Runs (blockBody (fuel + 1)) c (Gives Stmt.bareOf ss rest) := by
  refine runs_kind.bind fun k d hk => ?_
  obtain ⟨rfl, rfl⟩ := hk
  cases hss with
  | empty =>
    rw [h.kind, List.nil_append, hrest]
    exact .pure ⟨rfl, h⟩
  | more hs hss =>
    have hpos := hs.starts.length_pos
    simp only [List.append_assoc] at h
    simp only [List.length_append] at hfuel
    have hstarts := h.starts hs.starts
    have hends : ∀ k ∈ [TokenKind.closeCurly, .endOfText], k ∉ stmtStarts := by decide
    split
    · next hkind => exact absurd hstarts (hkind ▸ hends _ (by simp))
    · next hkind => exact absurd hstarts (hkind ▸ hends _ (by simp))
    · refine (ih.stmt hs h (by omega)).bind fun s d hd => ?_
      refine (ih.body hss hd.2 hrest (by omega)).bind fun more e he => ?_
      exact .pure ⟨by rw [Stmt.bareOf, hd.1, he.1], he.2⟩

theorem reads (fuel : Nat) : Reads fuel := by
  induction fuel using Nat.strong_induction_on with
  | h fuel ih =>
    cases fuel with
    | zero =>
      exact {
        expr := fun _ {_ _ _ _} _ _ _ h => absurd h (by omega)
        operand := fun _ _ h => absurd h (by omega)
        items := fun _ _ _ _ h => absurd h (by omega)
        literal := fun he _ _ h => absurd he.starts.length_pos (by omega)
        declaration := fun hd _ h => by cases hd; simp at h
        stmt := fun _ _ h => absurd h (by omega)
        block := fun hb _ h => by cases hb; simp at h
        body := fun _ _ _ h => absurd h (by omega) }
    | succ fuel =>
      have ih' := ih fuel (Nat.lt_succ_self fuel)
      exact {
        expr := fun power {_ _ _ _} he h hrest hfuel => reads_expr ih power he h hrest hfuel
        operand := fun he h hfuel => ih'.operand_succ he h (by omega)
        items := fun hclose hes h hrest hfuel => ih'.items_succ hclose hes h hrest (by omega)
        literal := ih'.literal_succ
        declaration := ih'.declaration_succ
        stmt := fun hs h hfuel => ih'.stmt_succ hs h (by omega)
        block := ih'.block_succ
        body := fun hss h hrest hfuel => ih'.body_succ hss h hrest (by omega) }

/-! ## Modules -/

theorem runs_stmt {s : Stmt} (hs : IsStmt used s) (h : c.At (used ++ rest)) : Runs stmt c (Gives Stmt.bare s rest) := by
  refine runs_get.bind fun a d hd => ?_
  obtain ⟨rfl, rfl⟩ := hd
  refine (reads _).stmt hs h ?_
  rw [h.depth, List.length_append]
  omega

theorem runs_stmts {ss : List Stmt} (hss : IsStmts ts ss) (h : c.At ts) (hfuel : ts.length < fuel) :
    Runs (stmts fuel) c fun a _ => Stmt.bareOf a = ss := by
  induction fuel generalizing c ts ss with
  | zero => omega
  | succ fuel ih =>
    refine runs_kind.bind fun k d hk => ?_
    obtain ⟨rfl, rfl⟩ := hk
    cases hss with
    | empty =>
      have hend : c.current.kind = .endOfText := h.kind
      rw [if_pos hend]
      exact .pure rfl
    | more hs hss =>
      have hpos := hs.starts.length_pos
      simp only [List.length_append] at hfuel
      have hgoes : c.current.kind ≠ .endOfText := by
        intro hend
        have hstarts := h.starts hs.starts
        rw [hend] at hstarts
        exact absurd hstarts (by decide)
      rw [if_neg hgoes]
      refine (runs_stmt hs h).bind fun s d hd => ?_
      refine (ih hss hd.2 (by omega)).bind fun more e he => ?_
      exact .pure (by rw [Stmt.bareOf, hd.1, he])

theorem runs_module {b : Block} (hb : IsModule ts b) (h : c.At ts) : Runs module c fun a _ => a.bare = b := by
  obtain ⟨ss, rfl, hss⟩ := hb
  refine runs_get.bind fun a d hd => ?_
  obtain ⟨rfl, rfl⟩ := hd
  refine (runs_stmts hss h (by rw [h.depth]; omega)).bind fun body d hbody => ?_
  refine runs_spanFrom.bind fun span e he => ?_
  exact .pure (by rw [Block.bare, hbody])

end Parse

/-- what is derived from the tokens of a text is read from them -/
theorem Grammar.parseTokens_of_isModule {source : String} {tokens : List Token} {tree : Block}
    (htokens : tokenize source = .ok tokens) (h : IsModule tokens.dropLast tree) :
    ∃ ast, parseTokens tokens = .ok ast ∧ ast.bare = tree := by
  obtain ⟨body, last, rfl, hlast, hbody⟩ := tokenize_proper htokens
  rw [List.dropLast_concat] at h
  obtain ⟨ast, c, hast, hbare⟩ := Parse.runs_module h (Cursor.at_ofTokens hlast hbody)
  exact ⟨ast, parseTokens_eq_ok_iff.2 ⟨c, hast⟩, hbare⟩

/-- The tokens of a text before its end are read as a tree if and only if they derive it, up to spans and the numbers of
function literals, and they derive one tree at most. -/
theorem Grammar.parses_exactly {source : String} {tokens : List Token} (htokens : tokenize source = .ok tokens) :
    ∃ body last, tokens = body ++ [last] ∧ last.kind = .endOfText ∧ (∀ t ∈ body, t.kind ≠ .endOfText) ∧
      (∀ tree, (∃ ast, parseTokens tokens = .ok ast ∧ ast.bare = tree) ↔ IsModule body tree) ∧
      ∀ tree tree', IsModule body tree → IsModule body tree' → tree = tree' := by
  obtain ⟨body, last, rfl, hlast, hbody⟩ := tokenize_proper htokens
  have hread (tree : Block) :
      (∃ ast, parseTokens (body ++ [last]) = .ok ast ∧ ast.bare = tree) ↔ IsModule body tree := by
    constructor
    · rintro ⟨ast, hast, rfl⟩
      simpa using isModule_of_parseTokens htokens hast
    · intro h
      exact parseTokens_of_isModule htokens (by simpa using h)
  refine ⟨body, last, rfl, hlast, fun t ht => (hbody t ht).inside, hread, fun tree tree' h h' => ?_⟩
  obtain ⟨ast, hast, rfl⟩ := (hread tree).2 h
  obtain ⟨ast', hast', rfl⟩ := (hread tree').2 h'
  rw [hast] at hast'
  cases hast'
  rfl

/-- a text with a type, a function literal, an assignment, operators of several levels and a chain of calls -/
def wellFormed : String :=
  "pub let f: (Int, [Str]?) => Int := fn(n: Int,): Int { x = y = n * (2 + 3) - a(1,)[0] < 4 || false; return n; };"

theorem wellFormed_isOk : (match tokenize wellFormed with
    | .ok tokens => (parseTokens tokens).isOk
    | .error _ => false) = true := by
  set_option maxRecDepth 100000 in decide +kernel

theorem Grammar.parses_exactly_wellFormed : ∃ tokens body last ast, tokenize wellFormed = .ok tokens ∧
    tokens = body ++ [last] ∧ parseTokens tokens = .ok ast ∧ IsModule body ast.bare := by
  have hok := wellFormed_isOk
  split at hok
  · next tokens htokens =>
    obtain ⟨body, last, hsplit, _, _, hread, _⟩ := parses_exactly htokens
    cases hast : parseTokens tokens with
    | error e => rw [hast] at hok; cases hok
    | ok ast => exact ⟨tokens, body, last, ast, htokens, hsplit, hast, (hread ast.bare).1 ⟨ast, hast, rfl⟩⟩
  · cases hok

end TypedScript
