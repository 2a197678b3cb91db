/-
Exports of accepted trees. Only a declaration directly in the body of a module exports anything, so that each variable
that a module exports is sure to have been given a value when the body has run.

- `Check.AcceptsExpr.exports`, `Check.AcceptsStmts.exports`: expressions, and statements that stand deeper, export
  nothing.
- `Check.AcceptsStmts.exported`: what the body of a module exports.
-/
import TypedScript.Proofs.Bound.Effect
import TypedScript.Proofs.Bound.Typing

namespace TypedScript

namespace Check

variable {keyOf : String → Option String} {r r' : Record} {scope : ScopeId}

theorem newVariable_exports {name : String} {ty : Ty} {position : Position} {cell : Cell}
    (h : newVariable scope name ty position r = (some cell, r')) (x : ScopeId) :
    r'.arena.exports x = r.arena.exports x := by
  obtain ⟨_, _, rfl⟩ := newVariable_eq h
  exact Arena.exports_extend _ _ _ _ _

theorem AcceptsParams.exports {params : List Parameter} {cells : List Cell} (h : AcceptsParams scope r params cells r')
    (x : ScopeId) : r'.arena.exports x = r.arena.exports x := by
  induction h with
  | nil => rfl
  | cons declared _ ih =>
    obtain ⟨_, rfl⟩ := newParameter_eq declared
    have hcounted (s : Scope) : ({ s with paramCount := s.paramCount + 1 } : Scope).kind = s.kind := rfl
    rw [ih, Arena.exports_update hcounted, Arena.exports_extend]

/-- the scope of a literal is not the global one -/
theorem not_atTop_literal {p : Place} {id : Nat} {signature : Signature} {opened : Record}
    (hglobal : p.global < r.arena.scopes.size) (h : openScope p id signature r = (scope, opened)) :
    ({ p with scope } : Place).atTop = false := by
  obtain ⟨rfl, _⟩ := openScope_eq h
  unfold Place.atTop
  dsimp only
  rw [decide_eq_false (Nat.ne_of_gt hglobal)]
  rfl

theorem not_atTop_conditional (p : Place) : ({ p with conditional := true } : Place).atTop = false := by
  unfold Place.atTop
  exact Bool.and_false _

/-! ## Where nothing is exported -/

mutual

theorem AcceptsExpr.exports {p : Place} {e : Expr} {ty : Ty} {b : Bound.Expr} {r r' : Record}
    (h : AcceptsExpr keyOf p r e ty b r') (hscope : p.scope < r.arena.scopes.size)
    (hglobal : p.global < r.arena.scopes.size) (x : ScopeId) : r'.arena.exports x = r.arena.exports x := by
  cases e with
  | number value span => cases h; rfl
  | text value span => cases h; rfl
  | truth value span => cases h; rfl
  | ident name span => cases h; rfl
  | self span => cases h; rfl
  | list items span =>
    cases items with
    | nil => cases h
    | cons first rest =>
      cases h with
      | list _ head used tail agree =>
        have hsize := (head.effect hscope).later.size
        rw [tail.exports (Nat.lt_of_lt_of_le hscope hsize) (Nat.lt_of_lt_of_le hglobal hsize),
          head.exports hscope hglobal]
  | function id params result body span =>
    cases body with
    | mk body bodySpan =>
      cases h with
      | function _ _ opens parameters inside =>
        obtain ⟨_, hsize, _⟩ := parameters.effect
        have htop := not_atTop_literal hglobal opens
        obtain ⟨rfl, rfl⟩ := openScope_eq opens
        have hlt : r.arena.scopes.size < (r.arena.add (.ofKind (.local p.scope
            ⟨params.map fun param => .ofNote param.note, .ofNote result⟩))).2.scopes.size := by
          rw [Arena.size_add]
          exact Nat.lt_succ_self _
        rw [← hsize] at hlt
        rw [inside.exports hlt (Nat.lt_trans hglobal hlt) htop, parameters.exports]
        exact Arena.exports_newLocal _ _ _ _
  | call callee arguments span =>
    cases h with
    | call _ given function used fits =>
      have hsize := (given.effect hscope).later.size
      rw [function.exports (Nat.lt_of_lt_of_le hscope hsize) (Nat.lt_of_lt_of_le hglobal hsize),
        given.exports hscope hglobal]
  | assign target assigned span =>
    cases h with
    | assign _ nameSpan accepted used found fits => exact accepted.exports hscope hglobal x
  | binary operator left right span =>
    cases h with
    | binary _ onLeft usedLeft onRight usedRight known fits =>
      have hsize := (onLeft.effect hscope).later.size
      rw [onRight.exports (Nat.lt_of_lt_of_le hscope hsize) (Nat.lt_of_lt_of_le hglobal hsize),
        onLeft.exports hscope hglobal]
  | subscript target index span =>
    cases h with
    | subscript _ onTarget usedTarget onIndex usedIndex fits =>
      have hsize := (onTarget.effect hscope).later.size
      rw [onIndex.exports (Nat.lt_of_lt_of_le hscope hsize) (Nat.lt_of_lt_of_le hglobal hsize),
        onTarget.exports hscope hglobal]
termination_by structural e

theorem AcceptsExprs.exports {p : Place} {es : List Expr} {tys : List (Ty × Span)} {bs : List Bound.Expr}
    {r r' : Record} (h : AcceptsExprs keyOf p r es tys bs r') (hscope : p.scope < r.arena.scopes.size)
    (hglobal : p.global < r.arena.scopes.size) (x : ScopeId) : r'.arena.exports x = r.arena.exports x := by
  cases es with
  | nil => cases h; rfl
  | cons e es =>
    cases h with
    | cons head used tail =>
      have hsize := (head.effect hscope).later.size
      rw [tail.exports (Nat.lt_of_lt_of_le hscope hsize) (Nat.lt_of_lt_of_le hglobal hsize),
        head.exports hscope hglobal]
termination_by structural es

theorem AcceptsDeclaration.exports {p : Place} {d : Declaration} {ty : Ty} {cell : Cell} {b : Bound.Expr}
    {r r' : Record} (h : AcceptsDeclaration keyOf p r d ty cell b r') (hscope : p.scope < r.arena.scopes.size)
    (hglobal : p.global < r.arena.scopes.size) (x : ScopeId) : r'.arena.exports x = r.arena.exports x := by
  cases d with
  | mk name note initial span =>
    cases h with
    | mk _ accepted used fits declared => rw [newVariable_exports declared, accepted.exports hscope hglobal]
termination_by structural d

theorem AcceptsStmt.exports {p : Place} {s : Stmt} {b : Bound.Stmt} {r r' : Record} (h : AcceptsStmt keyOf p r s b r')
    (hscope : p.scope < r.arena.scopes.size) (hglobal : p.global < r.arena.scopes.size) (htop : p.atTop = false)
    (x : ScopeId) : r'.arena.exports x = r.arena.exports x := by
  cases s with
  | cond condition body span =>
    cases body with
    | mk body bodySpan =>
      cases h with
      | cond _ _ test used fits inside =>
        have hsize := (test.effect hscope).later.size
        rw [inside.exports (Nat.lt_of_lt_of_le hscope hsize) (Nat.lt_of_lt_of_le hglobal hsize)
          (not_atTop_conditional p), test.exports hscope hglobal]
  | declare d =>
    cases h with
    | declare declared => exact declared.exports hscope hglobal x
  | giveBack value span =>
    cases value with
    | none => cases h; rfl
    | some e =>
      cases h with
      | giveBack _ given used fits => exact given.exports hscope hglobal x
  | eval e span =>
    cases h with
    | eval _ evaluated => exact evaluated.exports hscope hglobal x
  | pub d span =>
    cases h with
    | pub _ top declared exported => rw [top] at htop; cases htop
  | use path names span =>
    cases h with
    | use _ top linked named found imports => rw [top] at htop; cases htop
termination_by structural s

theorem AcceptsStmts.exports {p : Place} {ss : List Stmt} {bs : List Bound.Stmt} {r r' : Record}
    (h : AcceptsStmts keyOf p r ss bs r') (hscope : p.scope < r.arena.scopes.size)
    (hglobal : p.global < r.arena.scopes.size) (htop : p.atTop = false) (x : ScopeId) :
    r'.arena.exports x = r.arena.exports x := by
  cases ss with
  | nil => cases h; rfl
  | cons s ss =>
    cases h with
    | cons head tail =>
      have hsize := (head.effect hscope).later.size
      rw [tail.exports (Nat.lt_of_lt_of_le hscope hsize) (Nat.lt_of_lt_of_le hglobal hsize) htop,
        head.exports hscope hglobal htop]
termination_by structural ss

end

/-! ## What a module exports -/

theorem AcceptsImports.exports {p : Place} {span : Span} {names : List (String × Ty)} {cells : List (String × Cell)}
    (h : AcceptsImports p span r names cells r') (x : ScopeId) : r'.arena.exports x = r.arena.exports x := by
  induction h with
  | nil => rfl
  | cons declared _ ih => rw [ih, newVariable_exports declared]

theorem addExport_exports {name : String} {ty : Ty} {position : Position}
    (h : addExport scope name ty position r = (true, r')) :
    r'.arena.exports scope = r.arena.exports scope ++ [(name, ty)] := by
  obtain ⟨hglobal, rfl⟩ := addExport_ok h
  obtain ⟨⟨kind, declared, count⟩, hs, hg⟩ := Arena.isGlobal_iff.1 hglobal
  unfold Arena.exports
  rw [Arena.get?_update, if_pos rfl, hs]
  cases kind with
  | global exports found => rfl
  | «local» parent signature => cases hg

/-- the name of a declaration means the variable that it declares -/
theorem AcceptsDeclaration.find {p : Place} {d : Declaration} {ty : Ty} {cell : Cell} {b : Bound.Expr}
    (h : AcceptsDeclaration keyOf p r d ty cell b r') (hscope : p.scope < r.arena.scopes.size) :
    ∃ s, r'.arena.get? p.scope = some s ∧ s.find? d.name = some ⟨ty, cell⟩ := by
  cases h with
  | @mk _ between _ _ _ _ _ _ _ _ _ accepted used fits declared =>
    obtain ⟨hvar, rfl, rfl⟩ := newVariable_eq declared
    obtain ⟨s, hs⟩ := Arena.get?_of_lt (Nat.lt_of_lt_of_le hscope (accepted.effect hscope).later.size)
    exact Arena.find?_extend hvar hs _

/-- the variable of an export has one of some cells -/
def Exported (r : Record) (scope : ScopeId) (cells : List Cell) (e : String × Ty) : Prop :=
  ∃ s v, r.arena.get? scope = some s ∧ s.find? e.1 = some v ∧ v.cell ∈ cells

theorem Exported.later {cells cells' : List Cell} {e : String × Ty} (h : Exported r scope cells e)
    (hlater : r.arena.Later r'.arena) (hcells : ∀ cell ∈ cells, cell ∈ cells') : Exported r' scope cells' e := by
  obtain ⟨s, v, hs, hv, hcell⟩ := h
  obtain ⟨t, ht, hst⟩ := hlater.scope scope s hs
  exact ⟨t, v, ht, hst.find? hv, hcells _ hcell⟩

theorem AcceptsStmt.exported {p : Place} {s : Stmt} {b : Bound.Stmt} (h : AcceptsStmt keyOf p r s b r')
    (hscope : p.scope < r.arena.scopes.size) (hglobal : p.global < r.arena.scopes.size) :
    ∀ e ∈ r'.arena.exports p.global, e ∈ r.arena.exports p.global ∨ Exported r' p.global b.assigned e := by
  cases h with
  | cond _ _ test used fits inside =>
    have hsize := (test.effect hscope).later.size
    have hinside := inside.exports (Nat.lt_of_lt_of_le hscope hsize) (Nat.lt_of_lt_of_le hglobal hsize)
      (not_atTop_conditional p) p.global
    intro e he
    rw [hinside, test.exports hscope hglobal] at he
    exact Or.inl he
  | declare declared => exact fun e he => Or.inl (declared.exports hscope hglobal p.global ▸ he)
  | giveNothing _ fits => exact fun e he => Or.inl he
  | giveBack _ given used fits => exact fun e he => Or.inl (given.exports hscope hglobal p.global ▸ he)
  | eval _ evaluated => exact fun e he => Or.inl (evaluated.exports hscope hglobal p.global ▸ he)
  | use _ top linked named found imports => exact fun e he => Or.inl (imports.exports p.global ▸ he)
  | pub _ top declared added =>
    have hexports := declared.exports hscope hglobal p.global
    have hadded := addExport_exports added
    rw [Place.scope_of_atTop top] at hadded
    intro e he
    rw [hadded, hexports] at he
    refine (List.mem_append.1 he).imp_right fun he => ?_
    obtain rfl := List.mem_singleton.1 he
    obtain ⟨s, hs, hfind⟩ := declared.find hscope
    rw [Place.scope_of_atTop top] at hs
    exact Exported.later ⟨s, _, hs, hfind, List.mem_singleton_self _⟩ (addExport_effect added).later fun _ h => h

/-- whatever a body adds to the exports of its module is a variable that it is sure to have given a value -/
theorem AcceptsStmts.exported {p : Place} {ss : List Stmt} {bs : List Bound.Stmt}
    (h : AcceptsStmts keyOf p r ss bs r') (hscope : p.scope < r.arena.scopes.size)
    (hglobal : p.global < r.arena.scopes.size) :
    ∀ e ∈ r'.arena.exports p.global,
      e ∈ r.arena.exports p.global ∨ Exported r' p.global (Bound.Stmt.assignedIn bs) e := by
  induction ss generalizing r bs with
  | nil =>
    cases h
    exact fun e he => Or.inl he
  | cons s ss ih =>
    cases h with
    | cons head tail =>
      have hsize := (head.effect hscope).later.size
      have hscope' := Nat.lt_of_lt_of_le hscope hsize
      have hlater := (tail.effect hscope').later
      intro e he
      rcases ih tail hscope' (Nat.lt_of_lt_of_le hglobal hsize) e he with he | he
      · refine (head.exported hscope hglobal e he).imp_right fun he => ?_
        exact he.later hlater fun cell hcell => List.mem_append_left _ hcell
      · exact Or.inr (he.later (.refl _) fun cell hcell => List.mem_append_right _ hcell)

end Check

end TypedScript
