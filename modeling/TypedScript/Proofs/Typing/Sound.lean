/-
The check of a clean module is a derivation. Whatever the check of an expression or a statement finds nothing wrong with
is accepted, with the type and the bound tree that the check gives, and the check leaves alone what does not concern it.

- `Check.sound_expr`, `Check.sound_stmt`: each expression and each statement takes a step, and is accepted if the module
  is clean after it.
- `Check.AcceptsExpr.run`, `Check.AcceptsExpr.bind`: what is accepted is what the check gives, and its bound tree is the
  one that the check finds.
-/
import TypedScript.Proofs.Tree.Nodes
import TypedScript.Proofs.Typing.Steps

namespace TypedScript

namespace Check

variable {K : Prop} {keyOf : String → Option String} {p : Place} {r r' : Record} {ids : List Nat}

/-- every import that was resolved leads to a module with a key -/
def Keyed (keyOf : String → Option String) (imports : Imports) : Prop :=
  ∀ path dependency, imports.find? path = some dependency → ∃ key, keyOf path = some key

/-! ## Values and declarations -/

theorem sound_value {e : Expr} (h : Sound K p ids (expr p e) r fun ty r' => ∃ b, AcceptsExpr keyOf p r e ty b r') :
    Sound K p ids (value p e) r fun ty r' => ∃ b, AcceptsExpr keyOf p r e ty b r' ∧ ty.isVoid = false := by
  refine h.bind_leaf fun ty r' _ _ => (sound_asValue e.span ty).mono fun ty' r'' _ hvalue hacc => ?_
  obtain ⟨rfl, rfl, hvoid⟩ := hvalue
  obtain ⟨b, hb⟩ := hacc
  exact ⟨b, hb, hvoid⟩

theorem sound_declare (name : String) (note : Option Note) (ty : Ty) (valueSpan span : Span) :
    Sound K p [] (declare p name note ty valueSpan span) r fun declared r' =>
      declared = some ((note.map Ty.ofNote).getD ty) ∧
        (note.isNone || ty.isError || ((note.map Ty.ofNote).getD ty).equals ty) = true ∧
        ∃ cell, newVariable p.scope name ((note.map Ty.ofNote).getD ty) span.start r = (some cell, r') := by
  unfold declare
  dsimp only
  split
  · refine (sound_report _ _ (Q := fun _ _ => False)).bind fun _ r' _ _ => ?_
    exact (sound_newVariable (Or.inl rfl) _ _ _).bind fun _ _ _ _ => .pure fun _ h => h.elim
  · next hfits =>
    refine (sound_newVariable (Or.inl rfl) _ _ _).bind fun cell r' _ _ => .pure fun h => ?_
    obtain ⟨c, rfl, hc⟩ := h
    refine ⟨rfl, ?_, c, hc⟩
    cases note <;> cases hty : ty.isError <;> simp_all

/-- a variable that was declared is what its name means in the scope -/
theorem declare_find {name : String} {note : Option Note} {value ty : Ty} {valueSpan span : Span}
    (h : declare p name note value valueSpan span r = (some ty, r')) :
    ∀ s, r'.arena.get? p.scope = some s → ∃ v, s.find? name = some v ∧ v.ty = ty := by
  have hnew {r : Record} {ty' : Ty}
      (h : ((newVariable p.scope name ty' span.start r).1.map fun _ => ty',
        (newVariable p.scope name ty' span.start r).2) = (some ty, r')) :
      ∀ s, r'.arena.get? p.scope = some s → ∃ v, s.find? name = some v ∧ v.ty = ty := by
    intro s hs
    obtain ⟨h1, h2⟩ := Prod.mk.inj h
    rw [← h2] at hs
    change (r.arena.newVariable p.scope name ty' span.start).1.map (fun _ => ty') = some ty at h1
    change (r.arena.newVariable p.scope name ty' span.start).2.get? p.scope = some s at hs
    cases hvar : r.arena.hasVariable p.scope name with
    | true => rw [Arena.newVariable_of_hasVariable hvar] at h1; cases h1
    | false =>
      rw [Arena.newVariable_of_not_hasVariable hvar] at h1 hs
      cases h1
      have hold := hs
      rw [Arena.get?_extend, if_pos rfl] at hold
      obtain ⟨s₀, hs₀, _⟩ := Option.map_eq_some_iff.1 hold
      obtain ⟨t, ht, hfind⟩ := Arena.find?_extend hvar hs₀ _
      rw [hs] at ht
      cases ht
      exact ⟨_, hfind, rfl⟩
  unfold declare at h
  dsimp only at h
  split at h
  · exact hnew h
  · exact hnew h

theorem declaration_find {d : Declaration} {ty : Ty} (h : declaration p d r = (some ty, r')) :
    ∀ s, r'.arena.get? p.scope = some s → ∃ v, s.find? d.name = some v ∧ v.ty = ty := by
  obtain ⟨name, note, initial, span⟩ := d
  unfold declaration at h
  exact declare_find (r := (value p initial r).2) h

theorem sound_declaration {name : String} {note : Option Note} {initial : Expr} {span : Span}
    (h : Sound K p ids (expr p initial) r fun ty r' => ∃ b, AcceptsExpr keyOf p r initial ty b r') :
    Sound K p ids (declaration p ⟨name, note, initial, span⟩) r fun declared r' =>
      ∃ ty cell b, declared = some ty ∧ AcceptsDeclaration keyOf p r ⟨name, note, initial, span⟩ ty cell b r' := by
  unfold declaration
  refine (sound_value h).bind_leaf fun ty r' _ _ => (sound_declare name note ty initial.span span).mono ?_
  intro declared r'' _ hdeclared hvalue
  obtain ⟨b, hb, hused⟩ := hvalue
  obtain ⟨rfl, hfits, cell, hcell⟩ := hdeclared
  exact ⟨_, cell, b, rfl, .mk span hb hused hfits hcell⟩

/-! ## Imports -/

theorem sound_use {path : String} {names : Option (List String)} {span : Span} (hkeyed : Keyed keyOf p.imports) :
    Sound K p [] (use p path names span) r fun _ r' => ∃ b, AcceptsStmt keyOf p r (.use path names span) b r' := by
  unfold use
  split
  · exact sound_report _ _
  next htop =>
  split
  · exact sound_report _ _
  next dependency hlinked =>
  obtain ⟨key, hkey⟩ := hkeyed path dependency hlinked
  have htop : p.atTop = true := by simpa using htop
  split
  · next names =>
    refine (sound_importedNames path dependency span names).bind fun found r' _ _ => ?_
    refine (sound_imports span found).mono fun _ r'' _ himports hfound => ?_
    obtain ⟨rfl, rfl, hexported⟩ := hfound
    obtain ⟨cells, himports⟩ := himports
    exact ⟨_, .use span htop hlinked hkey (fun asked h => by cases h; exact hexported) himports⟩
  · refine Sound.get_bind ((sound_imports span _).mono fun _ r' _ himports => ?_)
    obtain ⟨cells, himports⟩ := himports
    exact ⟨_, .use span htop hlinked hkey (fun asked h => nomatch h) himports⟩

/-! ## Function literals -/

/-- the scope of a literal is ready for its body -/
theorem Ready.openScope (hr : Ready p r) (id : Nat) (signature : Signature) :
    Ready { p with scope := r.arena.scopes.size } (past (Check.openScope p id signature) r) := by
  have hmoves : Arena.Moves p.scope p.global r.arena.scopes.size r.arena (r.arena.newLocal p.scope signature).2 :=
    Arena.moves_newLocal hr.wellFormed hr.scope (Nat.le_refl _) signature
  have hparent : (r.arena.newLocal p.scope signature).2.parent? r.arena.scopes.size = some p.scope := by
    refine Arena.parent?_eq_some_iff.2 ⟨.ofKind (.local p.scope signature), signature, ?_, rfl⟩
    unfold Arena.newLocal
    rw [Arena.get?_add, if_pos rfl]
  refine ⟨hmoves.wellFormed, ?_, ?_, hmoves.later.isGlobal_of hr.global⟩
  · change _ < (r.arena.add _).2.scopes.size
    rw [Arena.size_add]
    exact Nat.lt_succ_self _
  · change (r.arena.newLocal p.scope signature).2.root r.arena.scopes.size = p.global
    rw [Arena.root_of_parent? hmoves.wellFormed.ordered hparent,
      hmoves.later.root hmoves.wellFormed.ordered hr.scope, hr.root]

theorem sound_function {id : Nat} {params : List Parameter} {result : Note} {body : List Stmt} {span bodySpan : Span}
    (hbody : ∀ scope r, Sound K { p with scope } ids (stmts { p with scope } body) r fun _ r' =>
      ∃ bs, AcceptsStmts keyOf { p with scope } r body bs r') :
    Sound K p (id :: ids) (expr p (.function id params result ⟨body, bodySpan⟩ span)) r fun ty r' =>
      ∃ b, AcceptsExpr keyOf p r (.function id params result ⟨body, bodySpan⟩ span) ty b r' := by
  intro hr
  -- what is built when the scope is opened, when its parameters are declared and when its body is checked
  let signature : Signature := ⟨params.map fun param => .ofNote param.note, .ofNote result⟩
  let scope := r.arena.scopes.size
  let opened := past (openScope p id signature) r
  let declared := past (declareParams scope params) opened
  let final := past (stmts { p with scope } body) declared
  have hrun : expr p (.function id params result ⟨body, bodySpan⟩ span) r = (signature.ty, final) := by
    unfold expr block
    rfl
  have hopen : Arena.Moves p.scope p.global scope r.arena opened.arena :=
    Arena.moves_newLocal hr.wellFormed hr.scope (Nat.le_refl _) signature
  have hready : Ready { p with scope } opened := hr.openScope id signature
  obtain ⟨hparams, hfunctions, hcells⟩ :=
    sound_params (p := p) (Nat.le_refl scope) params hready.wellFormed hready.scope hready.root hready.global
  have hready' : Ready { p with scope } declared := hready.later hparams.wellFormed hparams.later
  obtain ⟨hstep, hinside⟩ := hbody scope declared hready'
  have hsize : scope ≤ declared.arena.scopes.size := Nat.le_of_lt hready'.scope
  have hmoves : Arena.Moves p.scope p.global scope r.arena final.arena :=
    (hopen.trans hparams).trans (hstep.moves.weaken hsize (Or.inr (Nat.le_refl _)))
  rw [hrun]
  refine ⟨⟨hmoves, fun id' hid' => ?_⟩, fun hk hc => ?_⟩
  · simp only [List.mem_cons, not_or] at hid'
    have hopened : opened.functions.find? id' = r.functions.find? id' := by
      change (r.functions.insert id scope).find? id' = _
      rw [Table.find?_insert, if_neg (Ne.symm hid'.1)]
    calc final.functions.find? id' = declared.functions.find? id' := hstep.functions id' hid'.2
      _ = opened.functions.find? id' := by rw [hfunctions]
      _ = r.functions.find? id' := hopened
  · obtain ⟨bs, hbs⟩ := hinside hk hc
    obtain ⟨cells, hcells⟩ := hcells (hready'.clean hstep.moves.wellFormed hstep.moves.later hc)
    exact ⟨_, .function span bodySpan rfl hcells hbs⟩

/-! ## Trees -/

theorem Sound.discard {α : Type} {x : Check α} {P : α → Record → Prop} (h : Sound K p ids x r P) :
    Sound K p ids (discard x) r fun _ r' => ∃ a, P a r' :=
  fun hr => ⟨(h hr).1, fun hk hc => ⟨_, (h hr).2 hk hc⟩⟩

/-- whether a place is inside a condition's body makes no difference to what is touched -/
theorem Sound.conditional {α : Type} {x : Check α} {P : α → Record → Prop}
    (h : Sound K { p with conditional := true } ids x r P) : Sound K p ids x r P := by
  intro hr
  obtain ⟨hs, hq⟩ := h ⟨hr.wellFormed, hr.scope, hr.root, hr.global⟩
  exact ⟨⟨hs.moves, hs.functions⟩, hq⟩

theorem known_left {x : Node} {xs ys : List Node} (h : K → ∀ y ∈ x :: (xs ++ ys), y.OperatorKnown) :
    K → ∀ y ∈ xs, y.OperatorKnown :=
  fun hk y hy => h hk y (List.mem_cons_of_mem x (List.mem_append_left ys hy))

theorem known_right {x : Node} {xs ys : List Node} (h : K → ∀ y ∈ x :: (xs ++ ys), y.OperatorKnown) :
    K → ∀ y ∈ ys, y.OperatorKnown :=
  fun hk y hy => h hk y (List.mem_cons_of_mem x (List.mem_append_right xs hy))

theorem known_tail {x : Node} {xs : List Node} (h : K → ∀ y ∈ x :: xs, y.OperatorKnown) :
    K → ∀ y ∈ xs, y.OperatorKnown :=
  fun hk y hy => h hk y (List.mem_cons_of_mem x hy)

mutual

theorem sound_expr {p : Place} (hkeyed : Keyed keyOf p.imports) (e : Expr) (r : Record)
    (hop : K → ∀ x ∈ e.nodes, x.OperatorKnown) :
    Sound K p (literalIds e.nodes) (expr p e) r fun ty r' => ∃ b, AcceptsExpr keyOf p r e ty b r' := by
  cases e with
  | number value span =>
    unfold expr
    exact .pure ⟨_, .number value span⟩
  | text value span =>
    unfold expr
    exact .pure ⟨_, .text value span⟩
  | truth value span =>
    unfold expr
    exact .pure ⟨_, .truth value span⟩
  | ident name span =>
    unfold expr
    refine (sound_ident name span).mono fun ty r' _ h => ?_
    obtain ⟨rfl, v, hv, rfl⟩ := h
    exact ⟨_, .ident span hv⟩
  | self span =>
    unfold expr
    refine (sound_selfReference span).mono fun ty r' _ h => ?_
    obtain ⟨rfl, signature, hs, rfl⟩ := h
    exact ⟨_, .self span hs⟩
  | list items span =>
    unfold expr
    cases items with
    | nil =>
      unfold list
      exact (sound_refuse _ _).widen fun _ h => nomatch h
    | cons first rest =>
      unfold list
      rw [Expr.nodes, Expr.nodesOf] at hop
      refine Sound.widen ((sound_value (sound_expr hkeyed first r (known_left hop))).bind fun element r' _ _ =>
        (sound_elements hkeyed element rest r' (known_right hop)).bind fun agree r'' _ _ =>
          .pure fun hrest hfirst => ?_) ?_
      · obtain ⟨rfl, tys, bs, htail, hagree⟩ := hrest
        obtain ⟨b, hhead, hused⟩ := hfirst
        have hlist := AcceptsExpr.list span hhead hused htail hagree
        cases herror : element.isError <;> rw [herror] at hlist <;> exact ⟨_, hlist⟩
      · simp [Expr.nodes, Expr.nodesOf, Node.literal?]
  | function id params result body span =>
    cases body with
    | mk body bodySpan =>
      rw [Expr.nodes, Block.nodes] at hop ⊢
      refine Sound.widen (sound_function fun scope r =>
        sound_stmts (p := { p with scope }) hkeyed body r (known_tail hop)) ?_
      simp [Node.literal?]
  | call callee arguments span =>
    unfold expr
    rw [Expr.nodes] at hop
    refine Sound.widen ((sound_values hkeyed arguments r (known_right hop)).bind fun tys r₁ _ _ =>
      (sound_value (sound_expr hkeyed callee r₁ (known_left hop))).bind fun ty r₂ _ _ =>
        ((quiet_call ty tys span).sound r₂).mono fun result r₃ _ hcall hcallee hgiven => ?_) ?_
    · obtain ⟨rfl, hfits⟩ := hcall
      obtain ⟨b, hb, hused⟩ := hcallee
      obtain ⟨bs, hbs⟩ := hgiven
      exact ⟨_, .call span hbs hb hused hfits⟩
    · simp [Expr.nodes, Node.literal?, or_comm]
  | assign target assigned span =>
    unfold expr
    rw [Expr.nodes] at hop
    refine Sound.widen ((sound_value (sound_expr hkeyed assigned r (known_right hop))).bind fun ty r₁ _ _ =>
      (sound_assign target ty assigned.span).mono fun _ r₂ _ hassign hvalue => ?_) ?_
    · obtain ⟨rfl, rfl, name, nameSpan, v, rfl, hv, hfits⟩ := hassign
      obtain ⟨b, hb, hused⟩ := hvalue
      exact ⟨_, .assign span nameSpan hb hused hv hfits⟩
    · simp only [Expr.nodes, literalIds_cons, literalIds_append, List.mem_append]
      exact fun id hid => Or.inr (Or.inr (by simpa using hid))
  | binary operator left right span =>
    unfold expr
    rw [Expr.nodes] at hop
    refine Sound.widen ((sound_value (sound_expr hkeyed left r (known_left hop))).bind fun lty r₁ _ _ =>
      (sound_value (sound_expr hkeyed right r₁ (known_right hop))).bind fun rty r₂ _ _ =>
        (sound_operator (fun hk => hop hk _ List.mem_cons_self) lty rty span).mono
          fun ty r₃ _ hbinary hright hleft => ?_) ?_
    · obtain ⟨rfl, hfits, op, hknown⟩ := hbinary
      obtain ⟨l, hl, husedLeft⟩ := hleft
      obtain ⟨b, hb, husedRight⟩ := hright
      exact ⟨_, .binary span hl husedLeft hb husedRight hknown hfits⟩
    · simp [Expr.nodes, Node.literal?]
  | subscript target index span =>
    unfold expr
    rw [Expr.nodes] at hop
    refine Sound.widen ((sound_value (sound_expr hkeyed target r (known_left hop))).bind fun tty r₁ _ _ =>
      (sound_value (sound_expr hkeyed index r₁ (known_right hop))).bind fun ity r₂ _ _ =>
        ((quiet_subscript tty ity index.span span).sound r₂).mono fun ty r₃ _ hsubscript hindex htarget => ?_) ?_
    · obtain ⟨rfl, hfits⟩ := hsubscript
      obtain ⟨t, ht, husedTarget⟩ := htarget
      obtain ⟨i, hi, husedIndex⟩ := hindex
      exact ⟨_, .subscript span ht husedTarget hi husedIndex hfits⟩
    · simp [Expr.nodes, Node.literal?]
termination_by structural e

theorem sound_values {p : Place} (hkeyed : Keyed keyOf p.imports) (es : List Expr) (r : Record)
    (hop : K → ∀ x ∈ Expr.nodesOf es, x.OperatorKnown) :
    Sound K p (literalIds (Expr.nodesOf es)) (values p es) r fun tys r' =>
    ∃ bs, AcceptsExprs keyOf p r es tys bs r' := by
  cases es with
  | nil =>
    unfold values
    exact .pure ⟨[], .nil⟩
  | cons e es =>
    unfold values
    rw [Expr.nodesOf] at hop ⊢
    refine Sound.widen ((sound_value (sound_expr hkeyed e r fun hk x hx => hop hk x (List.mem_append_left _ hx))).bind
      fun ty r₁ _ _ => (sound_values hkeyed es r₁ fun hk x hx => hop hk x (List.mem_append_right _ hx)).bind
        fun tys r₂ _ _ => .pure fun hrest hfirst => ?_) ?_
    · obtain ⟨bs, htail⟩ := hrest
      obtain ⟨b, hhead, hused⟩ := hfirst
      exact ⟨_, .cons hhead hused htail⟩
    · simp
termination_by structural es

theorem sound_elements {p : Place} (hkeyed : Keyed keyOf p.imports) (element : Ty) (es : List Expr) (r : Record)
    (hop : K → ∀ x ∈ Expr.nodesOf es, x.OperatorKnown) :
    Sound K p (literalIds (Expr.nodesOf es)) (elements p element es) r fun agree r' => agree = true ∧
      ∃ tys bs, AcceptsExprs keyOf p r es tys bs r' ∧
        ∀ t ∈ tys, (element.isError || t.1.isError || element.equals t.1) = true := by
  cases es with
  | nil =>
    unfold elements
    exact .pure ⟨rfl, [], [], .nil, fun _ h => nomatch h⟩
  | cons e es =>
    unfold elements
    rw [Expr.nodesOf] at hop ⊢
    have hop' : K → ∀ x ∈ Expr.nodesOf es, x.OperatorKnown := fun hk x hx => hop hk x (List.mem_append_right _ hx)
    rw [literalIds_append]
    refine (sound_value (sound_expr hkeyed e r fun hk x hx => hop hk x (List.mem_append_left _ hx))).bind
      fun ty r₁ _ _ => ?_
    split
    · next hagree =>
      refine (sound_elements hkeyed element es r₁ hop').mono fun agree r₂ _ hrest hfirst => ?_
      obtain ⟨rfl, tys, bs, htail, hall⟩ := hrest
      obtain ⟨b, hhead, hused⟩ := hfirst
      refine ⟨rfl, _, _, .cons hhead hused htail, fun t ht => ?_⟩
      rcases List.mem_cons.1 ht with rfl | ht
      · exact hagree
      · exact hall t ht
    · refine Sound.widen ((sound_report _ _ (Q := fun _ _ => False)).bind fun _ r₂ _ _ =>
        (sound_values hkeyed es r₂ hop').discard.bind fun _ _ _ _ => .pure fun _ h => h.elim) ?_
      simp
termination_by structural es

theorem sound_declared {p : Place} (hkeyed : Keyed keyOf p.imports) (d : Declaration) (r : Record)
    (hop : K → ∀ x ∈ d.nodes, x.OperatorKnown) :
    Sound K p (literalIds d.nodes) (declaration p d) r fun declared r' =>
      ∃ ty cell b, declared = some ty ∧ AcceptsDeclaration keyOf p r d ty cell b r' := by
  cases d with
  | mk name note initial span =>
    rw [Declaration.nodes] at hop ⊢
    exact sound_declaration (sound_expr hkeyed initial r hop)
termination_by structural d

theorem sound_stmt {p : Place} (hkeyed : Keyed keyOf p.imports) (s : Stmt) (r : Record)
    (hop : K → ∀ x ∈ s.nodes, x.OperatorKnown) :
    Sound K p (literalIds s.nodes) (stmt p s) r fun _ r' => ∃ b, AcceptsStmt keyOf p r s b r' := by
  cases s with
  | cond condition body span =>
    cases body with
    | mk body bodySpan =>
      unfold stmt block
      rw [Stmt.nodes, Block.nodes] at hop ⊢
      have hbody (r₁ : Record) := (sound_stmts (p := { p with conditional := true }) hkeyed body r₁
        (known_right hop)).conditional
      refine Sound.widen
        (show Sound K p (literalIds condition.nodes ++ literalIds (Stmt.nodesOf body)) _ r _ from ?_) ?_
      · refine (sound_value (sound_expr hkeyed condition r (known_left hop))).bind fun ty r₁ _ _ => ?_
        split
        · refine Sound.widen ((sound_report _ _ (Q := fun _ _ => False)).bind fun _ r₂ _ _ =>
            (hbody r₂).mono fun _ _ _ _ h => h.elim) ?_
          simp
        · next hfits =>
          refine (hbody r₁).mono fun _ r₂ _ hinside htest => ?_
          obtain ⟨b, hb, hused⟩ := htest
          obtain ⟨bs, hbs⟩ := hinside
          refine ⟨_, .cond span bodySpan hb hused ?_ hbs⟩
          cases hty : ty.isError <;> simp_all
      · simp [Node.literal?]
  | declare d =>
    unfold stmt
    rw [Stmt.nodes] at hop ⊢
    refine Sound.widen ((sound_declared hkeyed d r (known_tail hop)).discard.mono fun _ r₁ _ h => ?_) ?_
    · obtain ⟨_, ty, cell, b, _, hd⟩ := h
      exact ⟨_, .declare hd⟩
    · simp [Node.literal?]
  | giveBack value span =>
    cases value with
    | none =>
      unfold stmt
      refine Sound.widen (((quiet_giveBack none span).sound r).mono fun _ r₁ _ h => ?_) (by simp)
      obtain ⟨rfl, hfits⟩ := h
      exact ⟨_, .giveNothing span hfits⟩
    | some e =>
      unfold stmt
      rw [Stmt.nodes] at hop ⊢
      refine Sound.widen ((sound_value (sound_expr hkeyed e r (known_tail hop))).bind fun ty r₁ _ _ =>
        ((quiet_giveBack (some (ty, e.span)) span).sound r₁).mono fun _ r₂ _ h hvalue => ?_) ?_
      · obtain ⟨rfl, hfits⟩ := h
        obtain ⟨b, hb, hused⟩ := hvalue
        exact ⟨_, .giveBack span hb hused hfits⟩
      · simp [Node.literal?]
  | eval e span =>
    unfold stmt
    rw [Stmt.nodes] at hop ⊢
    refine Sound.widen ((sound_expr hkeyed e r (known_tail hop)).discard.mono fun _ r₁ _ h => ?_) ?_
    · obtain ⟨ty, b, hb⟩ := h
      exact ⟨_, .eval span hb⟩
    · simp [Node.literal?]
  | pub d span =>
    unfold stmt
    rw [Stmt.nodes] at hop ⊢
    split
    · refine Sound.widen ((sound_report _ _ (Q := fun _ _ => False)).bind fun _ r₁ _ _ =>
        (sound_declared hkeyed d r₁ (known_tail hop)).discard.mono fun _ _ _ _ h => h.elim) ?_
      simp [Node.literal?]
    · next htop =>
      have htop : p.atTop = true := by simpa using htop
      refine Sound.widen ((sound_declared hkeyed d r (known_tail hop)).bind_leaf fun declared r₁ hrun _ => ?_)
        (by simp [Node.literal?])
      split
      · next ty =>
        refine (sound_addExport (declaration_find hrun) span.start).discard.mono fun _ r₂ _ hadded hd => ?_
        obtain ⟨_, _, hadded⟩ := hadded
        obtain ⟨ty', cell, b, hty, hd⟩ := hd
        cases hty
        exact ⟨_, .pub span htop hd hadded⟩
      · exact .pure fun hd => nomatch hd.choose_spec.choose_spec.choose_spec.1
  | use path names span =>
    unfold stmt
    exact (sound_use hkeyed).widen fun _ h => nomatch h
termination_by structural s

theorem sound_stmts {p : Place} (hkeyed : Keyed keyOf p.imports) (ss : List Stmt) (r : Record)
    (hop : K → ∀ x ∈ Stmt.nodesOf ss, x.OperatorKnown) :
    Sound K p (literalIds (Stmt.nodesOf ss)) (stmts p ss) r fun _ r' => ∃ bs, AcceptsStmts keyOf p r ss bs r' := by
  cases ss with
  | nil =>
    unfold stmts
    exact .pure ⟨[], .nil⟩
  | cons s ss =>
    unfold stmts
    rw [Stmt.nodesOf] at hop ⊢
    rw [literalIds_append]
    refine (sound_stmt hkeyed s r fun hk x hx => hop hk x (List.mem_append_left _ hx)).bind fun _ r₁ _ _ =>
      (sound_stmts hkeyed ss r₁ fun hk x hx => hop hk x (List.mem_append_right _ hx)).mono fun _ r₂ _ hrest hfirst => ?_
    obtain ⟨bs, htail⟩ := hrest
    obtain ⟨b, hhead⟩ := hfirst
    exact ⟨_, .cons hhead htail⟩
termination_by structural ss

end

end Check

end TypedScript
