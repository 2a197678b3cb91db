/-
Typed trees. A bound tree follows the rules of typed trees if it fits its types, if what it uses is sure to have a
value, and if its literals that are to give something end with what they give back. The first two are known of what the
check accepts (`Check.AcceptsStmts.fit`, `Check.AcceptsStmts.covered`); the check does not ask for the last.

- `Bound.FitStmts.typed`: a tree is typed if it fits and is covered.
- `Check.AcceptsStmts.ends`: the literals in what the check accepts end as those of the tree that it was given.
-/
import TypedScript.Proofs.Bound.Covered
import TypedScript.Proofs.Bound.Fitted

namespace TypedScript

namespace Node

/-- a function literal that gives something ends with a value given back -/
def returns : Node → Bool
  | expr (.function _ _ .void _ _) => true
  | expr (.function _ _ _ body _) =>
    match body.body.getLast? with
    | some (.giveBack _ _) => true
    | _ => false
  | _ => true

theorem returns_function {id : Nat} {params : List Parameter} {result : Note} {body : Block} {span : Span}
    (h : (expr (.function id params result body span)).returns = true) :
    result = .void ∨ ∃ value span, body.body.getLast? = some (.giveBack value span) := by
  unfold returns at h
  split at h
  · next heq =>
    cases heq
    exact Or.inl rfl
  · next heq =>
    cases heq
    split at h
    · next value last hlast => exact Or.inr ⟨value, last, hlast⟩
    · cases h
  · next hother => exact absurd rfl (hother _ _ _ _ _)

/-- what is asked of a tree that is to be typed -/
structure Strict (x : Node) : Prop where
  plain : x.Plain
  returns : x.returns = true

instance (x : Node) : Decidable x.Strict :=
  decidable_of_iff (x.Plain ∧ x.returns = true) ⟨fun h => ⟨h.1, h.2⟩, fun h => ⟨h.plain, h.returns⟩⟩

end Node

/-! ## Typed trees -/

namespace Bound

section

variable {types : Nat → Option Ty} {P : Ty → Prop}

mutual

theorem FitExpr.typed {around : Option Signature} {ready : List Cell} {e : Expr} {ty : Ty}
    (h : FitExpr types P around e ty) (hcovered : e.Covered ready) (hends : ∀ f ∈ e.literals, f.Ends) :
    TypedExpr types around ready e ty := by
  cases e with
  | number value => cases h; exact .number value
  | text value => cases h; exact .text value
  | truth value => cases h; exact .truth value
  | read cell =>
    cases h with
    | read type => exact .read hcovered type
  | self => cases h; exact .self _
  | list items =>
    cases h with
    | list given fits => exact .list (given.typed hcovered hends) fits
  | function f =>
    cases h with
    | function inside =>
      obtain ⟨hhere, hinside⟩ := List.forall_mem_cons.1 hends
      exact .function (inside.typed hcovered hhere hinside)
  | call callee arguments =>
    cases h with
    | call given function fits =>
      obtain ⟨hends, hends'⟩ := List.forall_mem_append.1 hends
      exact .call (given.typed hcovered.1 hends) (function.typed hcovered.2 hends') fits
  | assign cell value =>
    cases h with
    | assign accepted type kind fits => exact .assign (accepted.typed hcovered.1 hends) hcovered.2 type fits
  | binary op left right =>
    cases h with
    | binary onLeft onRight fits =>
      obtain ⟨hends, hends'⟩ := List.forall_mem_append.1 hends
      exact .binary (onLeft.typed hcovered.1 hends) (onRight.typed hcovered.2 hends') fits
  | subscript target index =>
    cases h with
    | subscript onTarget onIndex fits =>
      obtain ⟨hends, hends'⟩ := List.forall_mem_append.1 hends
      exact .subscript (onTarget.typed hcovered.1 hends) (onIndex.typed hcovered.2 hends') fits
termination_by structural e

theorem FitExprs.typed {around : Option Signature} {ready : List Cell} {es : List Expr} {tys : List Ty}
    (h : FitExprs types P around es tys) (hcovered : Expr.CoveredOf ready es)
    (hends : ∀ f ∈ Expr.literalsOf es, f.Ends) : TypedExprs types around ready es tys := by
  cases es with
  | nil => cases h; exact .nil
  | cons e es =>
    cases h with
    | cons head tail =>
      obtain ⟨hends, hends'⟩ := List.forall_mem_append.1 hends
      exact .cons (head.typed hcovered.1 hends) (tail.typed hcovered.2 hends')
termination_by structural es

theorem FitFunction.typed {ready : List Cell} {f : Function} (h : FitFunction types P f)
    (hcovered : f.Covered ready) (hhere : f.Ends) (hends : ∀ g ∈ f.literals, g.Ends) :
    TypedFunction types ready f := by
  cases f with
  | mk number signature params locals body =>
    cases h with
    | mk parameters fits =>
      obtain ⟨hnew, hapart, hown, hcovered⟩ := hcovered
      exact .mk parameters hapart hnew hhere (fits.typed hcovered hown hends)
termination_by structural f

theorem FitStmt.typed {exports : String → String → Option Ty} {around : Option Signature}
    {locals ready : List Cell} {s : Stmt} (h : FitStmt types P exports around s)
    (hcovered : s.Covered ready) (hlocals : ∀ cell ∈ s.declared, cell ∈ locals)
    (hends : ∀ f ∈ s.literals, f.Ends) : TypedStmt types exports around locals ready s := by
  cases s with
  | cond condition body =>
    cases h with
    | cond test fits inside =>
      obtain ⟨hends, hends'⟩ := List.forall_mem_append.1 hends
      exact .cond (test.typed hcovered.1 hends) fits (inside.typed hcovered.2 hlocals hends')
  | declare cell value =>
    cases h with
    | declare accepted type fits =>
      exact .declare (accepted.typed hcovered hends) (hlocals cell (List.mem_singleton_self _)) type fits
  | giveBack value =>
    cases value with
    | none =>
      cases h with
      | giveNothing fits => exact .giveNothing fits
    | some e =>
      cases h with
      | giveBack given fits => exact .giveBack (given.typed hcovered hends) fits
  | eval e =>
    cases h with
    | eval evaluated => exact .eval (evaluated.typed hcovered hends)
  | use module names =>
    cases h with
    | use imports => exact .use fun n hn => ⟨hlocals _ (List.mem_map_of_mem hn), imports n hn⟩
termination_by structural s

theorem FitStmts.typed {exports : String → String → Option Ty} {around : Option Signature}
    {locals ready : List Cell} {ss : List Stmt} (h : FitStmts types P exports around ss)
    (hcovered : Stmt.CoveredIn ready ss) (hlocals : ∀ cell ∈ Stmt.declaredIn ss, cell ∈ locals)
    (hends : ∀ f ∈ Stmt.literalsIn ss, f.Ends) : TypedStmts types exports around locals ready ss := by
  cases ss with
  | nil => cases h; exact .nil
  | cons s ss =>
    cases h with
    | cons head tail =>
      obtain ⟨hends, hends'⟩ := List.forall_mem_append.1 hends
      obtain ⟨hlocals, hlocals'⟩ := List.forall_mem_append.1 hlocals
      exact .cons (head.typed hcovered.1 hlocals hends) (tail.typed hcovered.2 hlocals' hends')
termination_by structural ss

end

end

end Bound

/-! ## What the check accepts -/

namespace Check

variable {keyOf : String → Option String}

theorem AcceptsStmts.getLast? {ss : List Stmt} {bs : List Bound.Stmt} (h : AcceptsStmts keyOf p r ss bs r')
    {value : Option Expr} {span : Span} (hlast : ss.getLast? = some (.giveBack value span)) :
    ∃ b, bs.getLast? = some (.giveBack b) := by
  induction ss generalizing r bs with
  | nil => cases hlast
  | cons s ss ih =>
    cases h with
    | cons head tail =>
      cases ss with
      | nil =>
        cases tail
        obtain rfl : s = .giveBack value span := by simpa using hlast
        cases head with
        | giveNothing _ fits => exact ⟨none, rfl⟩
        | giveBack _ given used fits => exact ⟨some _, rfl⟩
      | cons s' ss =>
        obtain ⟨b, hb⟩ := ih tail (by simpa using hlast)
        refine ⟨b, ?_⟩
        cases tail with
        | cons head' tail' => simpa using hb

section

mutual

/-- the literals in what the check accepts end with what they give back -/
theorem AcceptsExpr.ends {p : Place} {e : Expr} {ty : Ty} {b : Bound.Expr} {r r' : Record}
    (h : AcceptsExpr keyOf p r e ty b r') (hreturns : ∀ x ∈ e.nodes, x.returns = true) : ∀ f ∈ b.literals, f.Ends := by
  cases e with
  | list items span =>
    cases items with
    | nil => cases h
    | cons first rest =>
      cases h with
      | list _ head used tail agree =>
        exact List.forall_mem_append.2 ⟨head.ends (Node.forall_left hreturns), tail.ends (Node.forall_right hreturns)⟩
  | function id params result body span =>
    cases body with
    | mk body bodySpan =>
      cases h with
      | function _ _ opens parameters inside =>
        refine List.forall_mem_cons.2 ⟨?_, inside.ends (Node.forall_tail hreturns)⟩
        rcases Node.returns_function (hreturns _ List.mem_cons_self) with rfl | ⟨value, valueSpan, hlast⟩
        · exact Or.inl rfl
        · exact Or.inr (inside.getLast? hlast)
  | call callee arguments span =>
    cases h with
    | call _ given function used fits =>
      exact List.forall_mem_append.2 ⟨given.ends (Node.forall_right hreturns),
        function.ends (Node.forall_left hreturns)⟩
  | assign target assigned span =>
    cases h with
    | assign _ nameSpan accepted used found fits => exact accepted.ends (Node.forall_right hreturns)
  | binary operator left right span =>
    cases h with
    | binary _ onLeft usedLeft onRight usedRight known fits =>
      exact List.forall_mem_append.2 ⟨onLeft.ends (Node.forall_left hreturns),
        onRight.ends (Node.forall_right hreturns)⟩
  | subscript target index span =>
    cases h with
    | subscript _ onTarget usedTarget onIndex usedIndex fits =>
      exact List.forall_mem_append.2
        ⟨onTarget.ends (Node.forall_left hreturns), onIndex.ends (Node.forall_right hreturns)⟩
  | _ => cases h; exact fun _ hf => nomatch hf
termination_by structural e

theorem AcceptsExprs.ends {p : Place} {es : List Expr} {tys : List (Ty × Span)} {bs : List Bound.Expr} {r r' : Record}
    (h : AcceptsExprs keyOf p r es tys bs r') (hreturns : ∀ x ∈ Expr.nodesOf es, x.returns = true) :
    ∀ f ∈ Bound.Expr.literalsOf bs, f.Ends := by
  cases es with
  | nil => cases h; exact fun _ hf => nomatch hf
  | cons e es =>
    cases h with
    | cons head used tail =>
      rw [Expr.nodesOf] at hreturns
      obtain ⟨hreturns, hreturns'⟩ := List.forall_mem_append.1 hreturns
      exact List.forall_mem_append.2 ⟨head.ends hreturns, tail.ends hreturns'⟩
termination_by structural es

theorem AcceptsDeclaration.ends {p : Place} {d : Declaration} {ty : Ty} {cell : Cell} {b : Bound.Expr} {r r' : Record}
    (h : AcceptsDeclaration keyOf p r d ty cell b r') (hreturns : ∀ x ∈ d.nodes, x.returns = true) :
    ∀ f ∈ b.literals, f.Ends := by
  cases d with
  | mk name note initial span =>
    cases h with
    | mk _ accepted used fits declared => exact accepted.ends hreturns
termination_by structural d

theorem AcceptsStmt.ends {p : Place} {s : Stmt} {b : Bound.Stmt} {r r' : Record} (h : AcceptsStmt keyOf p r s b r')
    (hreturns : ∀ x ∈ s.nodes, x.returns = true) : ∀ f ∈ b.literals, f.Ends := by
  cases s with
  | cond condition body span =>
    cases body with
    | mk body bodySpan =>
      cases h with
      | cond _ _ test used fits inside =>
        exact List.forall_mem_append.2 ⟨test.ends (Node.forall_left hreturns), inside.ends (Node.forall_right hreturns)⟩
  | declare d =>
    cases h with
    | declare declared => exact declared.ends (Node.forall_tail hreturns)
  | giveBack value span =>
    cases value with
    | none => cases h; exact fun _ hf => nomatch hf
    | some e =>
      cases h with
      | giveBack _ given used fits => exact given.ends (Node.forall_tail hreturns)
  | eval e span =>
    cases h with
    | eval _ evaluated => exact evaluated.ends (Node.forall_tail hreturns)
  | pub d span =>
    cases h with
    | pub _ top declared exported => exact declared.ends (Node.forall_tail hreturns)
  | use path names span => cases h; exact fun _ hf => nomatch hf
termination_by structural s

theorem AcceptsStmts.ends {p : Place} {ss : List Stmt} {bs : List Bound.Stmt} {r r' : Record}
    (h : AcceptsStmts keyOf p r ss bs r') (hreturns : ∀ x ∈ Stmt.nodesOf ss, x.returns = true) :
    ∀ f ∈ Bound.Stmt.literalsIn bs, f.Ends := by
  cases ss with
  | nil => cases h; exact fun _ hf => nomatch hf
  | cons s ss =>
    cases h with
    | cons head tail =>
      rw [Stmt.nodesOf] at hreturns
      obtain ⟨hreturns, hreturns'⟩ := List.forall_mem_append.1 hreturns
      exact List.forall_mem_append.2 ⟨head.ends hreturns, tail.ends hreturns'⟩
termination_by structural ss

end

end

end Check

end TypedScript
