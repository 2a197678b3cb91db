/-
What is accepted is what the check gives. A derivation determines the run of the check it is about, and its bound tree
is the one that the check finds on the way.

- `Check.AcceptsExpr.run`, `Check.AcceptsStmts.run`: the check of what is accepted has the type of the derivation and
  builds what the derivation says.
- `Check.AcceptsExpr.bind`, `Check.AcceptsStmts.bind`: the check finds the bound tree of the derivation.
-/
import TypedScript.Proofs.Typing.Accepts

namespace TypedScript

namespace Check

variable {α β : Type} {keyOf : String → Option String} {r r' r'' : Record}

/-! ## Runs -/

theorem bind_run {x : Check α} {f : α → Check β} {a : α} (h : x r = (a, r')) : (x >>= f) r = f a r' := by
  change f (x r).1 (x r).2 = f a r'
  rw [h]

theorem past_eq {x : Check α} {a : α} (h : x r = (a, r')) : past x r = r' := by
  rw [past, h]

theorem get_bind_run {f : Record → Check β} : (get >>= f) r = f r r := rfl

theorem value_run {p : Place} {e : Expr} {ty : Ty} (h : expr p e r = (ty, r')) (hused : ty.isVoid = false) :
    value p e r = (ty, r') := by
  unfold value
  rw [bind_run h, asValue, hused]
  rfl

theorem assign_run {p : Place} {name : String} {span valueSpan : Span} {ty : Ty} {v : Variable}
    (hv : r.arena.lookup? p.scope name = some v) (hfits : (ty.isError || v.ty.isError || v.ty.equals ty) = true) :
    assign p (.ident name span) ty valueSpan r = (.void, r) := by
  unfold assign
  dsimp only
  rw [get_bind_run, hv]
  have hno : (!ty.isError && !v.ty.isError && !v.ty.equals ty) = false := by
    cases hty : ty.isError <;> cases hvty : v.ty.isError <;> simp_all
  simp only [hno]
  rfl

theorem declare_run {p : Place} {name : String} {note : Option Note} {ty : Ty} {valueSpan span : Span} {cell : Cell}
    (hfits : (note.isNone || ty.isError || ((note.map Ty.ofNote).getD ty).equals ty) = true)
    (hcell : newVariable p.scope name ((note.map Ty.ofNote).getD ty) span.start r = (some cell, r')) :
    declare p name note ty valueSpan span r = (some ((note.map Ty.ofNote).getD ty), r') := by
  have hno : (note.isSome && !ty.isError && !((note.map Ty.ofNote).getD ty).equals ty) = false := by
    cases note <;> cases hty : ty.isError <;> simp_all
  unfold declare
  simp only [hno]
  exact (bind_run hcell).trans rfl

theorem AcceptsParams.run {scope : ScopeId} {params : List Parameter} {cells : List Cell}
    (h : AcceptsParams scope r params cells r') : declareParams scope params r = ((), r') := by
  induction h with
  | nil => rfl
  | cons declared _ ih => exact (bind_run declared).trans ih

theorem AcceptsImports.run {p : Place} {span : Span} {names : List (String × Ty)} {cells : List (String × Cell)}
    (h : AcceptsImports p span r names cells r') : declareImported p span names r = ((), r') := by
  induction h with
  | nil => rfl
  | cons declared _ ih => exact (bind_run declared).trans ih

theorem importedNames_run {p : Place} {path : String} {dependency : ScopeId} {span : Span} {names : List String}
    (h : ∀ name ∈ names, (r.arena.export? dependency name).isSome = true) :
    importedNames p path dependency span names r = ((importedNames p path dependency span names r).1, r) := by
  induction names with
  | nil => rfl
  | cons name names ih =>
    obtain ⟨ty, hty⟩ := Option.isSome_iff_exists.1 (h name List.mem_cons_self)
    have hrest := ih fun name' hname => h name' (List.mem_cons_of_mem name hname)
    have hrun : importedNames p path dependency span (name :: names) r =
        ((name, ty) :: (importedNames p path dependency span names r).1, r) := by
      rw [importedNames, get_bind_run, hty]
      exact (bind_run hrest).trans rfl
    rw [hrun]

theorem use_run {p : Place} {path : String} {names : Option (List String)} {dependency : ScopeId} {span : Span}
    {cells : List (String × Cell)} (htop : p.atTop = true) (hlinked : p.imports.find? path = some dependency)
    (hfound : ∀ asked, names = some asked → ∀ name ∈ asked, (r.arena.export? dependency name).isSome = true)
    (himports : AcceptsImports p span r (importedAs p path dependency span r names) cells r') :
    use p path names span r = ((), r') := by
  unfold use
  simp only [htop, hlinked, Bool.not_true, Bool.false_eq_true, if_false]
  cases names with
  | some asked => exact (bind_run (importedNames_run (hfound asked rfl))).trans himports.run
  | none => exact himports.run

mutual

theorem AcceptsExpr.run {p : Place} {e : Expr} {ty : Ty} {b : Bound.Expr} {r r' : Record}
    (h : AcceptsExpr keyOf p r e ty b r') : expr p e r = (ty, r') := by
  cases e with
  | number value span => cases h; rfl
  | text value span => cases h; rfl
  | truth value span => cases h; rfl
  | ident name span =>
    cases h with
    | ident _ found =>
      unfold expr ident
      rw [get_bind_run, found]
      rfl
  | self span =>
    cases h with
    | self _ around =>
      unfold expr selfReference
      rw [get_bind_run, around]
      rfl
  | list items span =>
    cases items with
    | nil => cases h
    | cons first rest =>
      cases h with
      | @list _ _ _ _ _ _ element _ _ _ _ head used tail agree =>
        unfold expr list
        refine (bind_run (value_run head.run used)).trans ((bind_run (tail.elements agree)).trans ?_)
        cases element.isError <;> rfl
  | function id params result body span =>
    cases body with
    | mk body bodySpan =>
      cases h with
      | function _ _ opens parameters inside =>
        unfold expr block
        exact (bind_run opens).trans ((bind_run parameters.run).trans ((bind_run inside.run).trans rfl))
  | call callee arguments span =>
    cases h with
    | call _ given function used fits =>
      unfold expr
      exact (bind_run given.run).trans ((bind_run (value_run function.run used)).trans fits)
  | assign target assigned span =>
    cases h with
    | assign _ nameSpan accepted used found fits =>
      unfold expr
      exact (bind_run (value_run accepted.run used)).trans (assign_run found fits)
  | binary operator left right span =>
    cases h with
    | binary _ onLeft usedLeft onRight usedRight known fits =>
      unfold expr
      exact (bind_run (value_run onLeft.run usedLeft)).trans ((bind_run (value_run onRight.run usedRight)).trans fits)
  | subscript target index span =>
    cases h with
    | subscript _ onTarget usedTarget onIndex usedIndex fits =>
      unfold expr
      exact (bind_run (value_run onTarget.run usedTarget)).trans
        ((bind_run (value_run onIndex.run usedIndex)).trans fits)
termination_by structural e

theorem AcceptsExprs.run {p : Place} {es : List Expr} {tys : List (Ty × Span)} {bs : List Bound.Expr} {r r' : Record}
    (h : AcceptsExprs keyOf p r es tys bs r') : values p es r = (tys, r') := by
  cases es with
  | nil => cases h; rfl
  | cons e es =>
    cases h with
    | cons head used tail =>
      unfold values
      exact (bind_run (value_run head.run used)).trans ((bind_run tail.run).trans rfl)
termination_by structural es

theorem AcceptsExprs.elements {p : Place} {element : Ty} {es : List Expr} {tys : List (Ty × Span)}
    {bs : List Bound.Expr} {r r' : Record} (h : AcceptsExprs keyOf p r es tys bs r')
    (hagree : ∀ t ∈ tys, (element.isError || t.1.isError || element.equals t.1) = true) :
    elements p element es r = (true, r') := by
  cases es with
  | nil => cases h; rfl
  | cons e es =>
    cases h with
    | cons head used tail =>
      unfold Check.elements
      refine (bind_run (value_run head.run used)).trans ?_
      rw [if_pos (hagree _ List.mem_cons_self)]
      exact tail.elements fun t ht => hagree t (List.mem_cons_of_mem _ ht)
termination_by structural es

theorem AcceptsDeclaration.run {p : Place} {d : Declaration} {ty : Ty} {cell : Cell} {b : Bound.Expr} {r r' : Record}
    (h : AcceptsDeclaration keyOf p r d ty cell b r') : declaration p d r = (some ty, r') := by
  cases d with
  | mk name note initial span =>
    cases h with
    | mk _ accepted used fits declared =>
      unfold declaration
      exact (bind_run (value_run accepted.run used)).trans (declare_run fits declared)
termination_by structural d

theorem AcceptsStmt.run {p : Place} {s : Stmt} {b : Bound.Stmt} {r r' : Record} (h : AcceptsStmt keyOf p r s b r') :
    stmt p s r = ((), r') := by
  cases s with
  | cond condition body span =>
    cases body with
    | mk body bodySpan =>
      cases h with
      | @cond _ _ _ _ _ _ ty _ _ _ _ test used fits inside =>
        unfold stmt block
        refine (bind_run (value_run test.run used)).trans ?_
        have hno : (!ty.isError && !Ty.bool.equals ty) = false := by
          cases hty : ty.isError <;> simp_all
        simp only [hno]
        exact inside.run
  | declare d =>
    cases h with
    | declare declared =>
      unfold stmt
      exact congrArg (fun x => ((), x.2)) declared.run
  | giveBack value span =>
    cases value with
    | none =>
      cases h with
      | giveNothing _ fits => exact fits
    | some e =>
      cases h with
      | giveBack _ given used fits =>
        unfold stmt
        exact (bind_run (value_run given.run used)).trans fits
  | eval e span =>
    cases h with
    | eval _ evaluated =>
      unfold stmt
      exact congrArg (fun x => ((), x.2)) evaluated.run
  | pub d span =>
    cases h with
    | pub _ top declared exported =>
      unfold stmt
      simp only [top, Bool.not_true, Bool.false_eq_true, if_false]
      refine (bind_run declared.run).trans ?_
      exact congrArg (fun x : Bool × Record => ((), x.2)) exported
  | use path names span =>
    cases h with
    | use _ top linked named found imports =>
      unfold stmt
      exact use_run top linked found imports
termination_by structural s

theorem AcceptsStmts.run {p : Place} {ss : List Stmt} {bs : List Bound.Stmt} {r r' : Record}
    (h : AcceptsStmts keyOf p r ss bs r') : stmts p ss r = ((), r') := by
  cases ss with
  | nil => cases h; rfl
  | cons s ss =>
    cases h with
    | cons head tail =>
      unfold stmts
      exact (bind_run head.run).trans tail.run
termination_by structural ss

end

/-! ## Bound trees -/

theorem AcceptsParams.bind {scope : ScopeId} {params : List Parameter} {cells : List Cell}
    (h : AcceptsParams scope r params cells r') : bindParams scope r params = some cells := by
  induction h with
  | nil => rfl
  | cons declared _ ih => simp only [bindParams, declared, past_eq declared, ih, Option.bind_eq_bind, Option.bind_some,
      Option.pure_def]

theorem AcceptsImports.bind {p : Place} {span : Span} {names : List (String × Ty)} {cells : List (String × Cell)}
    (h : AcceptsImports p span r names cells r') : bindImports p span r names = some cells := by
  induction h with
  | nil => rfl
  | cons declared _ ih => simp only [bindImports, declared, past_eq declared, ih, Option.bind_eq_bind, Option.bind_some,
      Option.pure_def]

mutual

theorem AcceptsExpr.bind {p : Place} {e : Expr} {ty : Ty} {b : Bound.Expr} {r r' : Record}
    (h : AcceptsExpr keyOf p r e ty b r') : bindExpr keyOf p r e = some b := by
  cases e with
  | number value span => cases h; rfl
  | text value span => cases h; rfl
  | truth value span => cases h; rfl
  | ident name span =>
    cases h with
    | ident _ found => simp only [bindExpr, found, Option.map_some]
  | self span => cases h; rfl
  | list items span =>
    cases items with
    | nil => cases h
    | cons first rest =>
      cases h with
      | list _ head used tail agree =>
        simp only [bindExpr, bindExprs, head.bind, past_eq (value_run head.run used), tail.bind, Option.bind_eq_bind,
          Option.bind_some, Option.pure_def, Option.map_some]
  | function id params result body span =>
    cases body with
    | mk body bodySpan =>
      cases h with
      | function _ _ opens parameters inside =>
        simp only [bindExpr, bindBlock, opens, past_eq opens, parameters.bind, past_eq parameters.run, inside.bind,
          Option.bind_eq_bind, Option.bind_some, Option.pure_def]
  | call callee arguments span =>
    cases h with
    | call _ given function used fits =>
      simp only [bindExpr, given.bind, past_eq given.run, function.bind, Option.bind_eq_bind, Option.bind_some,
        Option.pure_def]
  | assign target assigned span =>
    cases h with
    | assign _ nameSpan accepted used found fits =>
      simp only [bindExpr, accepted.bind, past_eq (value_run accepted.run used), bindTarget, found, Option.map_some,
        Option.bind_eq_bind, Option.bind_some, Option.pure_def]
  | binary operator left right span =>
    cases h with
    | binary _ onLeft usedLeft onRight usedRight known fits =>
      simp only [bindExpr, onLeft.bind, past_eq (value_run onLeft.run usedLeft), onRight.bind, known,
        Option.bind_eq_bind, Option.bind_some, Option.pure_def]
  | subscript target index span =>
    cases h with
    | subscript _ onTarget usedTarget onIndex usedIndex fits =>
      simp only [bindExpr, onTarget.bind, past_eq (value_run onTarget.run usedTarget), onIndex.bind,
        Option.bind_eq_bind, Option.bind_some, Option.pure_def]
termination_by structural e

theorem AcceptsExprs.bind {p : Place} {es : List Expr} {tys : List (Ty × Span)} {bs : List Bound.Expr} {r r' : Record}
    (h : AcceptsExprs keyOf p r es tys bs r') : bindExprs keyOf p r es = some bs := by
  cases es with
  | nil => cases h; rfl
  | cons e es =>
    cases h with
    | cons head used tail =>
      simp only [bindExprs, head.bind, past_eq (value_run head.run used), tail.bind, Option.bind_eq_bind,
        Option.bind_some, Option.pure_def]
termination_by structural es

theorem AcceptsDeclaration.bind {p : Place} {d : Declaration} {ty : Ty} {cell : Cell} {b : Bound.Expr} {r r' : Record}
    (h : AcceptsDeclaration keyOf p r d ty cell b r') : bindDeclaration keyOf p r d = some (.declare cell b) := by
  cases d with
  | mk name note initial span =>
    cases h with
    | mk _ accepted used fits declared =>
      have hvalue := value_run accepted.run used
      simp only [bindDeclaration, accepted.bind, past_eq hvalue, hvalue, declared,
        Option.bind_eq_bind, Option.bind_some, Option.pure_def]
termination_by structural d

theorem AcceptsStmt.bind {p : Place} {s : Stmt} {b : Bound.Stmt} {r r' : Record} (h : AcceptsStmt keyOf p r s b r') :
    bindStmt keyOf p r s = some b := by
  cases s with
  | cond condition body span =>
    cases body with
    | mk body bodySpan =>
      cases h with
      | cond _ _ test used fits inside =>
        simp only [bindStmt, bindBlock, test.bind, past_eq (value_run test.run used), inside.bind, Option.bind_eq_bind,
          Option.bind_some, Option.pure_def]
  | declare d =>
    cases h with
    | declare declared => simp only [bindStmt, declared.bind]
  | giveBack value span =>
    cases value with
    | none => cases h; rfl
    | some e =>
      cases h with
      | giveBack _ given used fits => simp only [bindStmt, given.bind, Option.map_some]
  | eval e span =>
    cases h with
    | eval _ evaluated => simp only [bindStmt, evaluated.bind, Option.map_some]
  | pub d span =>
    cases h with
    | pub _ top declared exported => simp only [bindStmt, declared.bind]
  | use path names span =>
    cases h with
    | use _ top linked named found imports =>
      simp only [bindStmt, linked, named, imports.bind, Option.bind_eq_bind, Option.bind_some, Option.pure_def]
termination_by structural s

theorem AcceptsStmts.bind {p : Place} {ss : List Stmt} {bs : List Bound.Stmt} {r r' : Record}
    (h : AcceptsStmts keyOf p r ss bs r') : bindStmts keyOf p r ss = some bs := by
  cases ss with
  | nil => cases h; rfl
  | cons s ss =>
    cases h with
    | cons head tail =>
      simp only [bindStmts, head.bind, past_eq head.run, tail.bind, Option.bind_eq_bind, Option.bind_some,
        Option.pure_def]
termination_by structural ss

end

end Check

end TypedScript
