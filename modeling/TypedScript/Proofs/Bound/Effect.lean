/-
What is left behind where the check accepts. Of the scopes there were before, only the one that the accepted part stands
in changes: behind its variables come those that the bound tree declares, in the order of the tree. A function literal
gets a scope of its own, whose variables are its parameters and then those its body declares.

- `Check.AcceptsExpr.effect`, `Check.AcceptsStmts.effect`: what an accepted expression or statement leaves behind.
- `Check.literal_scope`: the scope of an accepted function literal.
-/
import TypedScript.Proofs.Tree.Nodes
import TypedScript.Proofs.Typing.Accepts
import TypedScript.Proofs.Typing.Arena.Moves

namespace TypedScript

namespace Check

variable {keyOf : String → Option String} {r r' r'' : Record} {scope : ScopeId} {cells cells' : List Cell}
  {ids ids' : List Nat}

/-- what is left behind by a part of a tree that stands in a scope, declares variables with the cells, and has the
literals with the numbers in it -/
structure Effect (scope : ScopeId) (cells : List Cell) (ids : List Nat) (r r' : Record) : Prop where
  later : r.arena.Later r'.arena
  frame : ∀ x < r.arena.scopes.size, x ≠ scope → r'.arena.get? x = r.arena.get? x
  declares : ∀ s, r.arena.get? scope = some s → ∃ t vs, r'.arena.get? scope = some t ∧ t.declared = s.declared ++ vs ∧
    vs.map Variable.cell = cells ∧ t.paramCount = s.paramCount
  functions : ∀ id, id ∉ ids → r'.functions.find? id = r.functions.find? id
  fresh : ∀ cell ∈ cells, r.arena.nextCell ≤ cell.id

theorem Effect.refl (scope : ScopeId) (r : Record) : Effect scope [] [] r r :=
  ⟨.refl _, fun _ _ _ => rfl, fun s hs => ⟨s, [], hs, (List.append_nil _).symm, rfl, rfl⟩, fun _ _ => rfl,
    fun _ h => nomatch h⟩

theorem Effect.trans (h : Effect scope cells ids r r') (h' : Effect scope cells' ids' r' r'') :
    Effect scope (cells ++ cells') (ids ++ ids') r r'' := by
  refine ⟨h.later.trans h'.later, fun x hx hne => ?_, fun s hs => ?_, fun id hid => ?_, fun cell hcell => ?_⟩
  · rw [h'.frame x (Nat.lt_of_lt_of_le hx h.later.size) hne, h.frame x hx hne]
  · obtain ⟨t, vs, ht, hd, hcells, hcount⟩ := h.declares s hs
    obtain ⟨u, ws, hu, hd', hcells', hcount'⟩ := h'.declares t ht
    refine ⟨u, vs ++ ws, hu, ?_, ?_, hcount'.trans hcount⟩
    · rw [hd', hd, List.append_assoc]
    · rw [List.map_append, hcells, hcells']
  · simp only [List.mem_append, not_or] at hid
    rw [h'.functions id hid.2, h.functions id hid.1]
  · rcases List.mem_append.1 hcell with hcell | hcell
    · exact h.fresh cell hcell
    · exact Nat.le_trans h.later.nextCell (h'.fresh cell hcell)

theorem Effect.widen (h : Effect scope cells ids r r') (hids : ∀ id ∈ ids, id ∈ ids') :
    Effect scope cells ids' r r' :=
  ⟨h.later, h.frame, h.declares, fun id hid => h.functions id fun h' => hid (hids id h'), h.fresh⟩

/-! ## Declared variables -/

theorem newVariable_eq {name : String} {ty : Ty} {position : Position} {cell : Cell}
    (h : newVariable scope name ty position r = (some cell, r')) :
    r.arena.hasVariable scope name = false ∧ cell = ⟨r.arena.nextCell, name⟩ ∧
      r' = { r with arena := r.arena.extend scope name ty } := by
  have hpair : ((r.arena.newVariable scope name ty position).1,
      ({ r with arena := (r.arena.newVariable scope name ty position).2 } : Record)) = (some cell, r') := h
  cases hvar : r.arena.hasVariable scope name with
  | true => rw [Arena.newVariable_of_hasVariable hvar] at hpair; cases hpair
  | false =>
    rw [Arena.newVariable_of_not_hasVariable hvar] at hpair
    cases hpair
    exact ⟨rfl, rfl, rfl⟩

theorem newVariable_effect {name : String} {ty : Ty} {position : Position} {cell : Cell}
    (h : newVariable scope name ty position r = (some cell, r')) : Effect scope [cell] [] r r' := by
  obtain ⟨-, rfl, rfl⟩ := newVariable_eq h
  refine ⟨Arena.later_extend _ _ _ _, fun x _ hne => ?_, fun s hs => ?_, fun _ _ => rfl, fun cell hcell => ?_⟩
  · rw [Arena.get?_extend, if_neg (Ne.symm hne)]
  · refine ⟨{ s with declared := s.declared ++ [⟨ty, ⟨r.arena.nextCell, name⟩⟩] }, [⟨ty, ⟨r.arena.nextCell, name⟩⟩],
      ?_, rfl, rfl, rfl⟩
    rw [Arena.get?_extend, if_pos rfl, hs]
    rfl
  · obtain rfl := List.mem_singleton.1 hcell
    exact Nat.le_refl _

theorem AcceptsImports.effect {p : Place} {span : Span} {names : List (String × Ty)} {cells : List (String × Cell)}
    (h : AcceptsImports p span r names cells r') : Effect p.global (cells.map Prod.snd) [] r r' := by
  induction h with
  | nil => exact .refl _ _
  | cons declared _ ih => exact (newVariable_effect declared).trans ih

theorem newParameter_eq {name : String} {ty : Ty} {position : Position} {cell : Cell}
    (h : newParameter scope name ty position r = (some cell, r')) :
    cell = ⟨r.arena.nextCell, name⟩ ∧ r' = { r with arena := (r.arena.extend scope name ty).update scope fun s =>
      { s with paramCount := s.paramCount + 1 } } := by
  have hpair : ((r.arena.newParameter scope name ty position).1,
      ({ r with arena := (r.arena.newParameter scope name ty position).2 } : Record)) = (some cell, r') := h
  rw [Arena.newParameter_eq] at hpair
  split at hpair
  · cases hpair
  · cases hpair
    exact ⟨rfl, rfl⟩

/-- what is left behind where all parameters of a scope are declared -/
theorem AcceptsParams.effect {params : List Parameter} (h : AcceptsParams scope r params cells r') :
    r.arena.Later r'.arena ∧ r'.arena.scopes.size = r.arena.scopes.size ∧ r'.functions = r.functions ∧
      (∀ x, x ≠ scope → r'.arena.get? x = r.arena.get? x) ∧
      ∀ s, r.arena.get? scope = some s → ∃ t vs, r'.arena.get? scope = some t ∧ t.declared = s.declared ++ vs ∧
        vs.map Variable.cell = cells ∧ t.paramCount = s.paramCount + cells.length := by
  induction h with
  | nil =>
    exact ⟨.refl _, rfl, rfl, fun _ _ => rfl, fun s hs => ⟨s, [], hs, (List.append_nil _).symm, rfl, rfl⟩⟩
  | @cons r r' r'' param params cell cells declared _ ih =>
    obtain ⟨rfl, rfl⟩ := newParameter_eq declared
    obtain ⟨hlater, hsize, hfunctions, hframe, hdeclares⟩ := ih
    have hlater' : r.arena.Later
        ((r.arena.extend scope param.name (.ofNote param.note)).update scope fun s =>
          { s with paramCount := s.paramCount + 1 }) :=
      (Arena.later_extend _ _ _ _).trans (Arena.later_update fun s _ => ⟨.refl _, List.prefix_refl _⟩)
    refine ⟨hlater'.trans hlater, ?_, hfunctions, fun x hx => ?_, fun s hs => ?_⟩
    · rw [hsize]
      simp [Arena.extend]
    · rw [hframe x hx, Arena.get?_update, if_neg (Ne.symm hx), Arena.get?_extend, if_neg (Ne.symm hx)]
    · let v : Variable := ⟨.ofNote param.note, ⟨r.arena.nextCell, param.name⟩⟩
      obtain ⟨t, vs, ht, hd, hcells, hcount⟩ :=
        hdeclares { s with declared := s.declared ++ [v], paramCount := s.paramCount + 1 } (by
          rw [Arena.get?_update, if_pos rfl, Arena.get?_extend, if_pos rfl, hs]
          rfl)
      refine ⟨t, v :: vs, ht, ?_, ?_, ?_⟩
      · rw [hd, List.append_assoc]
        rfl
      · rw [List.map_cons, hcells]
      · rw [hcount, List.length_cons]
        dsimp only
        omega

/-! ## Function literals -/

/-- a scope opened for a literal is a new one, with nothing in it -/
theorem openScope_eq {p : Place} {id : Nat} {signature : Signature}
    (h : openScope p id signature r = (scope, r')) :
    scope = r.arena.scopes.size ∧
      r' = ⟨(r.arena.add (.ofKind (.local p.scope signature))).2, r.functions.insert id r.arena.scopes.size⟩ := by
  have hpair : (r.arena.scopes.size,
      (⟨(r.arena.add (.ofKind (.local p.scope signature))).2, r.functions.insert id r.arena.scopes.size⟩ : Record)) =
      (scope, r') := h
  cases hpair
  exact ⟨rfl, rfl⟩

theorem opened_get? {p : Place} {id : Nat} {signature : Signature}
    (h : openScope p id signature r = (scope, r')) (x : ScopeId) :
    r'.arena.get? x = if x = scope then some (.ofKind (.local p.scope signature)) else r.arena.get? x := by
  obtain ⟨rfl, rfl⟩ := openScope_eq h
  exact Arena.get?_add _ _ x

/-- the scope of a literal has the parameters and then the variables of the body -/
theorem literal_scope {p : Place} {id : Nat} {signature : Signature} {opened declared : Record}
    {params : List Parameter} (hopen : openScope p id signature r = (scope, opened))
    (hparams : AcceptsParams scope opened params cells declared) (hbody : Effect scope cells' ids declared r') :
    ∃ t, r'.arena.get? scope = some t ∧ t.parameters.map Variable.cell = cells ∧
      t.locals.map Variable.cell = cells' := by
  obtain ⟨_, _, _, _, hdeclares⟩ := hparams.effect
  obtain ⟨t, vs, ht, hd, hcells, hcount⟩ := hdeclares _ ((opened_get? hopen scope).trans (if_pos rfl))
  obtain ⟨u, ws, hu, hd', hcells', hcount'⟩ := hbody.declares t ht
  have hlength : u.paramCount = vs.length := by
    rw [hcount', hcount, ← hcells, List.length_map]
    exact Nat.zero_add _
  have hall : u.declared = vs ++ ws := by
    rw [hd', hd]
    rfl
  refine ⟨u, hu, ?_, ?_⟩
  · rw [Scope.parameters, hall, hlength, List.take_left' rfl, hcells]
  · rw [Scope.locals, hall, hlength, List.drop_left' rfl, hcells']

theorem literal_effect {p : Place} {id : Nat} {signature : Signature} {opened declared : Record}
    {params : List Parameter} (hscope : p.scope < r.arena.scopes.size)
    (hopen : openScope p id signature r = (scope, opened))
    (hparams : AcceptsParams scope opened params cells declared) (hbody : Effect scope cells' ids declared r') :
    Effect p.scope [] (id :: ids) r r' := by
  obtain ⟨hlater, hsize, hfunctions, hframe, _⟩ := hparams.effect
  have hget := opened_get? hopen
  obtain ⟨rfl, rfl⟩ := openScope_eq hopen
  have old : ∀ x < r.arena.scopes.size, r'.arena.get? x = r.arena.get? x := by
    intro x hx
    have hne := Nat.ne_of_lt hx
    have hx' : x < declared.arena.scopes.size := by
      rw [hsize]
      simp only [Arena.size_add]
      omega
    rw [hbody.frame x hx' hne, hframe x hne, hget, if_neg hne]
  refine ⟨(Arena.later_add _ _).trans (hlater.trans hbody.later), fun x hx _ => old x hx, fun s hs => ?_,
    fun id' hid' => ?_, fun _ h => nomatch h⟩
  · exact ⟨s, [], by rw [old _ hscope, hs], (List.append_nil _).symm, rfl, rfl⟩
  · simp only [List.mem_cons, not_or] at hid'
    rw [hbody.functions id' hid'.2, hfunctions, Table.find?_insert, if_neg (Ne.symm hid'.1)]

/-! ## Trees -/

/-- an export that is not refused is put behind the others of its scope, a global one -/
theorem addExport_ok {name : String} {ty : Ty} {position : Position}
    (h : addExport scope name ty position r = (true, r')) :
    r.arena.isGlobal scope = true ∧ r' = { r with arena := r.arena.update scope fun s =>
      match s.kind with
      | .global exports diagnostics => { s with kind := .global (exports ++ [(name, ty)]) diagnostics }
      | .local _ _ => s } := by
  have hpair : ((r.arena.addExport scope name ty position).1,
      ({ r with arena := (r.arena.addExport scope name ty position).2 } : Record)) = (true, r') := h
  unfold Arena.addExport at hpair
  split at hpair
  · cases hpair
  split at hpair
  · cases hpair
  next hglobal =>
  cases hpair
  exact ⟨by simpa using hglobal, rfl⟩

/-- an export changes no variables -/
theorem addExport_effect {name : String} {ty : Ty} {position : Position}
    (h : addExport scope name ty position r = (true, r')) : Effect scope [] [] r r' := by
  obtain ⟨_, rfl⟩ := addExport_ok h
  refine ⟨Arena.later_update fun s _ => ?_, fun x _ hne => ?_, fun s hs => ?_, fun _ _ => rfl, fun _ h => nomatch h⟩
  · obtain ⟨kind, declared, count⟩ := s
    cases kind with
    | global exports found => exact ⟨.global (List.prefix_append _ _) (List.prefix_refl _), List.prefix_refl _⟩
    | «local» parent signature => exact .refl _
  · rw [Arena.get?_update, if_neg (Ne.symm hne)]
  · refine ⟨_, [], by rw [Arena.get?_update, if_pos rfl, hs]; rfl, ?_, rfl, ?_⟩
    · dsimp only
      rw [List.append_nil]
      split <;> rfl
    · dsimp only
      split <;> rfl

theorem addExport_size {name : String} {ty : Ty} {position : Position}
    (h : addExport scope name ty position r = (true, r')) : r'.arena.scopes.size = r.arena.scopes.size := by
  have hr' : r' = (addExport scope name ty position r).2 := by rw [h]
  rw [hr']
  change (r.arena.addExport scope name ty position).2.scopes.size = _
  unfold Arena.addExport
  split
  · simp [Arena.report]
  split
  · simp [Arena.report]
  · simp

theorem Place.scope_of_atTop {p : Place} (h : p.atTop = true) : p.scope = p.global := by
  simp only [Place.atTop, Bool.and_eq_true, decide_eq_true_eq] at h
  exact h.1

mutual

theorem AcceptsExpr.effect {p : Place} {e : Expr} {ty : Ty} {b : Bound.Expr} {r r' : Record}
    (h : AcceptsExpr keyOf p r e ty b r') (hscope : p.scope < r.arena.scopes.size) :
    Effect p.scope [] (literalIds e.nodes) r r' := by
  cases e with
  | number value span => cases h; exact (Effect.refl _ _).widen fun _ h => nomatch h
  | text value span => cases h; exact (Effect.refl _ _).widen fun _ h => nomatch h
  | truth value span => cases h; exact (Effect.refl _ _).widen fun _ h => nomatch h
  | ident name span => cases h; exact (Effect.refl _ _).widen fun _ h => nomatch h
  | self span => cases h; exact (Effect.refl _ _).widen fun _ h => nomatch h
  | list items span =>
    cases items with
    | nil => cases h
    | cons first rest =>
      cases h with
      | list _ head used tail agree =>
        have hhead := head.effect hscope
        refine (hhead.trans (tail.effect (Nat.lt_of_lt_of_le hscope hhead.later.size))).widen ?_
        simp [Expr.nodes, Expr.nodesOf, Node.literal?]
  | function id params result body span =>
    cases body with
    | mk body bodySpan =>
      cases h with
      | function _ _ opens parameters inside =>
        obtain ⟨_, hsize, _⟩ := parameters.effect
        have hopen := openScope_eq opens
        have hinside := inside.effect (by
          rw [hsize, hopen.1, hopen.2]
          simp)
        exact (literal_effect hscope opens parameters hinside).widen
          (by simp [Expr.nodes, Block.nodes, Node.literal?])
  | call callee arguments span =>
    cases h with
    | call _ given function used fits =>
      have hgiven := given.effect hscope
      refine (hgiven.trans (function.effect (Nat.lt_of_lt_of_le hscope hgiven.later.size))).widen ?_
      simp [Expr.nodes, Node.literal?, or_comm]
  | assign target assigned span =>
    cases h with
    | assign _ nameSpan accepted used found fits =>
      exact (accepted.effect hscope).widen (by simp [Expr.nodes, Node.literal?])
  | binary operator left right span =>
    cases h with
    | binary _ onLeft usedLeft onRight usedRight known fits =>
      have hleft := onLeft.effect hscope
      refine (hleft.trans (onRight.effect (Nat.lt_of_lt_of_le hscope hleft.later.size))).widen ?_
      simp [Expr.nodes, Node.literal?]
  | subscript target index span =>
    cases h with
    | subscript _ onTarget usedTarget onIndex usedIndex fits =>
      have htarget := onTarget.effect hscope
      refine (htarget.trans (onIndex.effect (Nat.lt_of_lt_of_le hscope htarget.later.size))).widen ?_
      simp [Expr.nodes, Node.literal?]
termination_by structural e

theorem AcceptsExprs.effect {p : Place} {es : List Expr} {tys : List (Ty × Span)} {bs : List Bound.Expr}
    {r r' : Record} (h : AcceptsExprs keyOf p r es tys bs r') (hscope : p.scope < r.arena.scopes.size) :
    Effect p.scope [] (literalIds (Expr.nodesOf es)) r r' := by
  cases es with
  | nil => cases h; exact .refl _ _
  | cons e es =>
    cases h with
    | cons head used tail =>
      have hhead := head.effect hscope
      refine (hhead.trans (tail.effect (Nat.lt_of_lt_of_le hscope hhead.later.size))).widen ?_
      simp [Expr.nodesOf]
termination_by structural es

theorem AcceptsDeclaration.effect {p : Place} {d : Declaration} {ty : Ty} {cell : Cell} {b : Bound.Expr}
    {r r' : Record} (h : AcceptsDeclaration keyOf p r d ty cell b r') (hscope : p.scope < r.arena.scopes.size) :
    Effect p.scope [cell] (literalIds d.nodes) r r' := by
  cases d with
  | mk name note initial span =>
    cases h with
    | mk _ accepted used fits declared =>
      refine ((accepted.effect hscope).trans (newVariable_effect declared)).widen ?_
      simp [Declaration.nodes]
termination_by structural d

theorem AcceptsStmt.effect {p : Place} {s : Stmt} {b : Bound.Stmt} {r r' : Record} (h : AcceptsStmt keyOf p r s b r')
    (hscope : p.scope < r.arena.scopes.size) : Effect p.scope b.declared (literalIds s.nodes) r r' := by
  cases s with
  | cond condition body span =>
    cases body with
    | mk body bodySpan =>
      cases h with
      | cond _ _ test used fits inside =>
        have htest := test.effect hscope
        rw [Bound.Stmt.declared]
        refine (htest.trans (inside.effect (Nat.lt_of_lt_of_le hscope htest.later.size))).widen ?_
        simp [Stmt.nodes, Block.nodes, Node.literal?]
  | declare d =>
    cases h with
    | declare declared =>
      rw [Bound.Stmt.declared]
      exact (declared.effect hscope).widen (by simp [Stmt.nodes, Node.literal?])
  | giveBack value span =>
    cases value with
    | none =>
      cases h
      rw [Bound.Stmt.declared]
      exact (Effect.refl _ _).widen fun _ h => nomatch h
    | some e =>
      cases h with
      | giveBack _ given used fits =>
        rw [Bound.Stmt.declared]
        exact (given.effect hscope).widen (by simp [Stmt.nodes, Node.literal?])
  | eval e span =>
    cases h with
    | eval _ evaluated =>
      rw [Bound.Stmt.declared]
      exact (evaluated.effect hscope).widen (by simp [Stmt.nodes, Node.literal?])
  | pub d span =>
    cases h with
    | pub _ top declared exported =>
      rw [Bound.Stmt.declared]
      exact ((declared.effect hscope).trans (addExport_effect exported)).widen (by simp [Stmt.nodes, Node.literal?])
  | use path names span =>
    cases h with
    | use _ top linked named found imports =>
      rw [Bound.Stmt.declared, Place.scope_of_atTop top]
      exact imports.effect.widen fun _ h => nomatch h
termination_by structural s

theorem AcceptsStmts.effect {p : Place} {ss : List Stmt} {bs : List Bound.Stmt} {r r' : Record}
    (h : AcceptsStmts keyOf p r ss bs r') (hscope : p.scope < r.arena.scopes.size) :
    Effect p.scope (Bound.Stmt.declaredIn bs) (literalIds (Stmt.nodesOf ss)) r r' := by
  cases ss with
  | nil => cases h; exact .refl _ _
  | cons s ss =>
    cases h with
    | cons head tail =>
      have hhead := head.effect hscope
      rw [Bound.Stmt.declaredIn]
      refine (hhead.trans (tail.effect (Nat.lt_of_lt_of_le hscope hhead.later.size))).widen ?_
      simp [Stmt.nodesOf]
termination_by structural ss

end

end Check

end TypedScript
