/-
Where function literals stand. In a checked module every function literal has a scope, and the scope around that scope
is the one of the body that the literal stands in; `self` stands only inside of a function. `Expr.Stands` and its
companions say so of a tree whose own scope is given.

- `Check.AcceptsStmts.stands`: what the check accepts stands so, when all is checked.
-/
import TypedScript.Proofs.Bound.Agreement

namespace TypedScript

open Compile (Job)

mutual

/-- each literal in an expression that stands in a scope has a scope of its own inside of that scope -/
def Expr.Stands (job : Job) (scope : ScopeId) : Expr → Prop
  | .number _ _ => True
  | .text _ _ => True
  | .truth _ _ => True
  | .ident _ _ => True
  | .self _ => (job.program.arena.parent? scope).isSome = true
  | .list items _ => Expr.StandOf job scope items
  | .function id _ _ body _ => ∃ inner, job.module.scopes.functions.find? id = some inner ∧
      job.program.arena.parent? inner = some scope ∧ body.Stands job inner
  | .call callee arguments _ => Expr.StandOf job scope arguments ∧ callee.Stands job scope
  | .assign _ value _ => value.Stands job scope
  | .binary _ left right _ => left.Stands job scope ∧ right.Stands job scope
  | .subscript target index _ => target.Stands job scope ∧ index.Stands job scope

def Expr.StandOf (job : Job) (scope : ScopeId) : List Expr → Prop
  | [] => True
  | e :: es => e.Stands job scope ∧ Expr.StandOf job scope es

def Declaration.Stands (job : Job) (scope : ScopeId) : Declaration → Prop
  | ⟨_, _, value, _⟩ => value.Stands job scope

def Stmt.Stands (job : Job) (scope : ScopeId) : Stmt → Prop
  | .cond condition body _ => condition.Stands job scope ∧ body.Stands job scope
  | .declare d => d.Stands job scope
  | .giveBack none _ => True
  | .giveBack (some e) _ => e.Stands job scope
  | .eval e _ => e.Stands job scope
  | .pub d _ => d.Stands job scope
  | .use _ _ _ => True

def Stmt.StandIn (job : Job) (scope : ScopeId) : List Stmt → Prop
  | [] => True
  | s :: ss => s.Stands job scope ∧ Stmt.StandIn job scope ss

def Block.Stands (job : Job) (scope : ScopeId) : Block → Prop
  | ⟨body, _⟩ => Stmt.StandIn job scope body

end

/-- a scope with a signature is that of a function, so that there is a scope around it -/
theorem Arena.parent?_isSome {a : Arena} {x : ScopeId} {signature : Signature} (h : a.signature? x = some signature) :
    (a.parent? x).isSome = true := by
  unfold Arena.signature? at h
  unfold Arena.parent?
  split at h
  · rfl
  · cases h

theorem Compile.found_of_functionScope {job : Job} {id : Nat} {scope : ScopeId}
    (h : functionScope job id = pure scope) :
    job.module.scopes.functions.find? id = some scope := by
  unfold functionScope at h
  cases hfound : job.module.scopes.functions.find? id with
  | none => rw [hfound] at h; exact nomatch congrArg (fun x => x.run default) h
  | some found =>
    rw [hfound] at h
    have hrun := congrArg (fun x => x.run default) h
    exact congrArg some (congrArg Prod.fst (Except.ok.inj hrun))

namespace Check

variable {keyOf : String → Option String} {job : Job} {p : Place} {r r' r'' : Record} {cells cells' : List Cell}
  {ids ids' : List Nat} {Q R : Prop}

/-- what is so when all is checked, if a part of a tree was checked at a place -/
def Settles (job : Job) (p : Place) (cells : List Cell) (ids : List Nat) (r r' : Record) (Q : Prop) : Prop :=
  Here p r → Effect p.scope cells ids r r' ∧ (Final job p r' ids → ids.Nodup → Q)

namespace Settles

theorem refl (job : Job) (p : Place) (r : Record) (h : Q) : Settles job p [] [] r r Q :=
  fun _ => ⟨.refl _ _, fun _ _ => h⟩

/-- two parts that follow one another -/
theorem and (h : Settles job p cells ids r r' Q) (h' : Settles job p cells' ids' r' r'' R) :
    Settles job p (cells ++ cells') (ids ++ ids') r r'' (Q ∧ R) := by
  intro hr
  obtain ⟨he, hQ⟩ := h hr
  obtain ⟨he', hR⟩ := h' (hr.later he.later)
  refine ⟨he.trans he', fun hfinal hnodup => ?_⟩
  obtain ⟨hnodup₁, hnodup₂, hdisjoint⟩ := List.nodup_append.1 hnodup
  have hbefore : Final job p r' ids :=
    hfinal.before he' (hr.later he.later).scope fun id hid hid' => hdisjoint id hid id hid' rfl
  exact ⟨hQ hbefore hnodup₁, hR (hfinal.mono fun id hid => List.mem_append_right _ hid) hnodup₂⟩

theorem widen (h : Settles job p cells ids r r' Q) (hids : ∀ id ∈ ids, id ∈ ids') (hnodup : ids'.Nodup → ids.Nodup) :
    Settles job p cells ids' r r' Q := by
  intro hr
  obtain ⟨he, hQ⟩ := h hr
  exact ⟨he.widen hids, fun hfinal hn => hQ (hfinal.mono hids) (hnodup hn)⟩

/-- a part with nothing to say of it -/
theorem of_effect (he : Effect p.scope cells ids r r') (h : Q) : Settles job p cells ids r r' Q :=
  fun _ => ⟨he, fun _ _ => h⟩

/-- a part, and behind it one with no literals of which there is nothing to say -/
theorem behind (h : Settles job p cells ids r r' Q) (he : Effect p.scope cells' [] r' r'') :
    Settles job p (cells ++ cells') ids r r'' Q := by
  intro hr
  have hnothing : Settles job p cells' [] r' r'' True := of_effect he trivial
  obtain ⟨he', hboth⟩ := h.and hnothing hr
  rw [List.append_nil] at he' hboth
  exact ⟨he', fun hfinal hnodup => (hboth hfinal hnodup).1⟩

/-- whether the place is inside a condition's body makes no difference -/
theorem conditional (h : Settles job { p with conditional := true } cells ids r r' Q) :
    Settles job p cells ids r r' Q := by
  intro hr
  obtain ⟨he, hQ⟩ := h ⟨hr.scope, hr.module⟩
  exact ⟨he, fun hfinal => hQ ⟨hfinal.ordered, hfinal.later, hfinal.closed, hfinal.functions⟩⟩

/-- a literal has its scope in the scope that it stands in -/
theorem literal {id : Nat} {params : List Parameter} {result : Note} {body : List Stmt} {span bodySpan : Span}
    {scope : ScopeId} {opened declared : Record}
    (hopen : openScope p id ⟨params.map fun param => .ofNote param.note, .ofNote result⟩ r = (scope, opened))
    (hparams : AcceptsParams scope opened params cells declared)
    (hbody : Settles job { p with scope } cells' ids declared r' (Stmt.StandIn job scope body)) :
    Settles job p [] (id :: ids) r r' ((Expr.function id params result ⟨body, bodySpan⟩ span).Stands job p.scope) := by
  intro hr
  have hopened := opened_params hopen hparams
  obtain ⟨he, hstands⟩ := hbody (hopened.here hr)
  refine ⟨literal_effect hr.scope hopen hparams he, fun hfinal hnodup => ?_⟩
  obtain ⟨hid, hnodup⟩ := List.nodup_cons.1 hnodup
  obtain ⟨hscope, _, _, hinside⟩ := literal_final hr hopen hparams he hid hfinal
  refine ⟨scope, Compile.found_of_functionScope hscope, ?_, hstands hinside hnodup⟩
  exact ((he.later.trans hfinal.later).parent? hopened.lt).trans hopened.parent

end Settles

/-! ## Trees -/

mutual

theorem AcceptsExpr.stands {p : Place} {e : Expr} {ty : Ty} {b : Bound.Expr} {r r' : Record}
    (h : AcceptsExpr keyOf p r e ty b r') : Settles job p [] (literalIds e.nodes) r r' (e.Stands job p.scope) := by
  cases e with
  | number value span => cases h; exact .refl _ _ _ trivial
  | text value span => cases h; exact .refl _ _ _ trivial
  | truth value span => cases h; exact .refl _ _ _ trivial
  | ident name span => cases h; exact .refl _ _ _ trivial
  | self span =>
    cases h with
    | self _ around =>
      refine fun hr => ⟨.refl _ _, fun hfinal _ => ?_⟩
      rw [Expr.Stands, hfinal.later.parent? hr.scope]
      exact Arena.parent?_isSome around
  | list items span =>
    cases items with
    | nil => cases h
    | cons first rest =>
      cases h with
      | list _ head used tail agree =>
        rw [Expr.nodes, Expr.nodesOf, literalIds_cons, literalIds_append]
        exact head.stands.and tail.stands
  | function id params result body span =>
    cases body with
    | mk body bodySpan =>
      cases h with
      | function _ _ opens parameters inside =>
        rw [Expr.nodes, Block.nodes, literalIds_cons]
        exact .literal opens parameters inside.stands
  | call callee arguments span =>
    cases h with
    | call _ given function used fits =>
      rw [Expr.nodes, literalIds_cons, literalIds_append]
      refine (given.stands.and function.stands).widen ?_ ?_
      · exact fun id hid => List.mem_append_right _ ((List.perm_append_comm).mem_iff.1 hid)
      · exact fun hnodup => (List.perm_append_comm).nodup_iff.1 hnodup
  | assign target assigned span =>
    cases h with
    | assign _ nameSpan accepted used found fits =>
      exact accepted.stands.widen (by simp [Expr.nodes, Node.literal?]) (by simp [Expr.nodes, Node.literal?])
  | binary operator left right span =>
    cases h with
    | binary _ onLeft usedLeft onRight usedRight known fits =>
      rw [Expr.nodes, literalIds_cons, literalIds_append]
      exact onLeft.stands.and onRight.stands
  | subscript target index span =>
    cases h with
    | subscript _ onTarget usedTarget onIndex usedIndex fits =>
      rw [Expr.nodes, literalIds_cons, literalIds_append]
      exact onTarget.stands.and onIndex.stands
termination_by structural e

theorem AcceptsExprs.stands {p : Place} {es : List Expr} {tys : List (Ty × Span)} {bs : List Bound.Expr}
    {r r' : Record} (h : AcceptsExprs keyOf p r es tys bs r') :
    Settles job p [] (literalIds (Expr.nodesOf es)) r r' (Expr.StandOf job p.scope es) := by
  cases es with
  | nil => cases h; exact .refl _ _ _ trivial
  | cons e es =>
    cases h with
    | cons head used tail =>
      rw [Expr.nodesOf, literalIds_append]
      exact head.stands.and tail.stands
termination_by structural es

theorem AcceptsDeclaration.stands {p : Place} {d : Declaration} {ty : Ty} {cell : Cell} {b : Bound.Expr}
    {r r' : Record} (h : AcceptsDeclaration keyOf p r d ty cell b r') :
    Settles job p [cell] (literalIds d.nodes) r r' (d.Stands job p.scope) := by
  cases d with
  | mk name note initial span =>
    cases h with
    | mk _ accepted used fits declared => exact accepted.stands.behind (newVariable_effect declared)
termination_by structural d

theorem AcceptsStmt.stands {p : Place} {s : Stmt} {b : Bound.Stmt} {r r' : Record} (h : AcceptsStmt keyOf p r s b r') :
    Settles job p b.declared (literalIds s.nodes) r r' (s.Stands job p.scope) := by
  cases s with
  | cond condition body span =>
    cases body with
    | mk body bodySpan =>
      cases h with
      | cond _ _ test used fits inside =>
        rw [Stmt.nodes, Block.nodes, literalIds_cons, literalIds_append]
        exact test.stands.and (Settles.conditional inside.stands)
  | declare d =>
    cases h with
    | declare declared =>
      rw [Stmt.nodes, literalIds_cons]
      exact declared.stands
  | giveBack value span =>
    cases value with
    | none => cases h; exact .refl _ _ _ trivial
    | some e =>
      cases h with
      | giveBack _ given used fits =>
        rw [Stmt.nodes, literalIds_cons]
        exact given.stands
  | eval e span =>
    cases h with
    | eval _ evaluated =>
      rw [Stmt.nodes, literalIds_cons]
      exact evaluated.stands
  | pub d span =>
    cases h with
    | pub _ top declared exported =>
      rw [Stmt.nodes, literalIds_cons]
      exact declared.stands.behind (addExport_effect exported)
  | use path names span =>
    cases h with
    | use _ top linked named found imports =>
      refine .of_effect ?_ trivial
      rw [Place.scope_of_atTop top]
      exact imports.effect
termination_by structural s

theorem AcceptsStmts.stands {p : Place} {ss : List Stmt} {bs : List Bound.Stmt} {r r' : Record}
    (h : AcceptsStmts keyOf p r ss bs r') :
    Settles job p (Bound.Stmt.declaredIn bs) (literalIds (Stmt.nodesOf ss)) r r' (Stmt.StandIn job p.scope ss) := by
  cases ss with
  | nil => cases h; exact .refl _ _ _ trivial
  | cons s ss =>
    cases h with
    | cons head tail =>
      rw [Stmt.nodesOf, literalIds_append]
      exact head.stands.and tail.stands
termination_by structural ss

end

end Check

end TypedScript
