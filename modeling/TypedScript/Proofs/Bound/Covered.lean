/-
Definite assignment. A tree is covered by some variables, which are sure to have a value where it stands, if each
variable that it reads or assigns to is one of them or is sure to have got a value in the tree before. A function
literal is covered by those that cover it where it stands, as well as by its parameters; its own variables are others
than these. Types have no part in this.

- `Check.AcceptsStmts.covered`: what the check accepts is covered, if it is confined.
-/
import TypedScript.Proofs.Bound.Seen
import TypedScript.Proofs.Bound.Typing

namespace TypedScript

namespace Bound

mutual

/-- an expression is covered by variables that are `ready` -/
def Expr.Covered (ready : List Cell) : Expr → Prop
  | .number _ => True
  | .text _ => True
  | .truth _ => True
  | .read cell => cell ∈ ready
  | .self => True
  | .list items => Expr.CoveredOf ready items
  | .function f => f.Covered ready
  | .call callee arguments => Expr.CoveredOf ready arguments ∧ callee.Covered ready
  | .assign cell value => value.Covered ready ∧ cell ∈ ready
  | .binary _ left right => left.Covered ready ∧ right.Covered ready
  | .subscript target index => target.Covered ready ∧ index.Covered ready

def Expr.CoveredOf (ready : List Cell) : List Expr → Prop
  | [] => True
  | e :: es => e.Covered ready ∧ Expr.CoveredOf ready es

def Stmt.Covered (ready : List Cell) : Stmt → Prop
  | .cond condition body => condition.Covered ready ∧ Stmt.CoveredIn ready body
  | .declare _ value => value.Covered ready
  | .giveBack none => True
  | .giveBack (some e) => e.Covered ready
  | .eval e => e.Covered ready
  | .use _ _ => True

def Stmt.CoveredIn (ready : List Cell) : List Stmt → Prop
  | [] => True
  | s :: ss => s.Covered ready ∧ Stmt.CoveredIn (s.assigned ++ ready) ss

def Function.Covered (ready : List Cell) : Function → Prop
  | ⟨_, _, params, locals, body⟩ =>
    (∀ cell ∈ params, ∀ other ∈ ready, other.id ≠ cell.id) ∧
      (∀ cell ∈ locals, ∀ other ∈ params ++ ready, other.id ≠ cell.id) ∧
      (∀ cell ∈ Stmt.declaredIn body, cell ∈ locals) ∧ Stmt.CoveredIn (params ++ ready) body

end

end Bound

namespace Check

variable {keyOf : String → Option String} {p : Place} {r r' : Record} {scope : ScopeId}
  {cells ready uses : List Cell} {ids : List Nat}

/-- a literal is covered if its body is -/
theorem literal_covered {id number : Nat} {signature : Signature} {params : List Parameter} {opened declared : Record}
    {bs : List Bound.Stmt} (hsees : Sees p r ready uses) (hopen : openScope p id signature r = (scope, opened))
    (hparams : AcceptsParams scope opened params cells declared)
    (hbody : Effect scope (Bound.Stmt.declaredIn bs) ids declared r')
    (hcovered : Bound.Stmt.CoveredIn (cells ++ ready) bs) :
    Bound.Function.Covered ready ⟨number, signature, cells, Bound.Stmt.declaredIn bs, bs⟩ := by
  have hold := (hsees.literal hopen hparams).old
  refine ⟨fun cell hcell other hother => ?_, fun cell hcell other hother => ?_, fun _ h => h, hcovered⟩
  · have hnew := hparams.fresh cell hcell
    obtain ⟨_, rfl⟩ := openScope_eq hopen
    exact Nat.ne_of_lt (Nat.lt_of_lt_of_le (hsees.old other hother) hnew)
  · exact Nat.ne_of_lt (Nat.lt_of_lt_of_le (hold other hother) (hbody.fresh cell hcell))

/-! ## Trees -/

section

open TypedScript.Bound

mutual

theorem AcceptsExpr.covered {p : Place} {e : Expr} {ty : Ty} {b : Bound.Expr} {r r' : Record} {ready : List Cell}
    (h : AcceptsExpr keyOf p r e ty b r') (hkeyed : Keyed keyOf p.imports) (hconfined : b.confined = true)
    (hsees : Sees p r ready b.uses) : b.Covered ready := by
  have hscope := hsees.place.scope
  cases e with
  | number value span => cases h; exact trivial
  | text value span => cases h; exact trivial
  | truth value span => cases h; exact trivial
  | ident name span =>
    cases h with
    | ident _ found => exact hsees.visible name _ found (List.mem_singleton_self _)
  | self span => cases h; exact trivial
  | list items span =>
    cases items with
    | nil => cases h
    | cons first rest =>
      cases h with
      | list _ head used tail agree =>
        have he := head.effect hscope
        obtain ⟨hcHead, hcTail⟩ := Bool.and_eq_true_iff.1 hconfined
        have hsees' := hsees.pastExpr he (head.ready hkeyed hsees.place)
        exact ⟨head.covered hkeyed hcHead (hsees.narrow fun _ h => List.mem_append_left _ h),
          tail.covered hkeyed hcTail (hsees'.narrow fun _ h => List.mem_append_right _ h)⟩
  | function id params result body span =>
    cases body with
    | mk body bodySpan =>
      cases h with
      | function _ _ opens parameters inside =>
        have hplace := hsees.place.literal opens parameters
        have hbody := inside.effect hplace.scope
        have hcovered := inside.covered hkeyed hconfined (hsees.literal opens parameters)
        exact literal_covered hsees opens parameters hbody hcovered
  | call callee arguments span =>
    cases h with
    | call _ given function used fits =>
      have he := given.effect hscope
      obtain ⟨hcGiven, hcFunction⟩ := Bool.and_eq_true_iff.1 hconfined
      have hsees' := hsees.pastExpr he (given.ready hkeyed hsees.place)
      exact ⟨given.covered hkeyed hcGiven (hsees.narrow fun _ h => List.mem_append_left _ h),
        function.covered hkeyed hcFunction (hsees'.narrow fun _ h => List.mem_append_right _ h)⟩
  | assign target assigned span =>
    cases h with
    | assign _ nameSpan accepted used found fits =>
      have hsees' := hsees.pastExpr (accepted.effect hscope) (accepted.ready hkeyed hsees.place)
      exact ⟨accepted.covered hkeyed hconfined (hsees.narrow fun _ h => List.mem_append_left _ h),
        hsees'.visible _ _ found (List.mem_append_right _ (List.mem_singleton_self _))⟩
  | binary operator left right span =>
    cases h with
    | binary _ onLeft usedLeft onRight usedRight known fits =>
      have he := onLeft.effect hscope
      obtain ⟨hcLeft, hcRight⟩ := Bool.and_eq_true_iff.1 hconfined
      have hsees' := hsees.pastExpr he (onLeft.ready hkeyed hsees.place)
      exact ⟨onLeft.covered hkeyed hcLeft (hsees.narrow fun _ h => List.mem_append_left _ h),
        onRight.covered hkeyed hcRight (hsees'.narrow fun _ h => List.mem_append_right _ h)⟩
  | subscript target index span =>
    cases h with
    | subscript _ onTarget usedTarget onIndex usedIndex fits =>
      have he := onTarget.effect hscope
      obtain ⟨hcTarget, hcIndex⟩ := Bool.and_eq_true_iff.1 hconfined
      have hsees' := hsees.pastExpr he (onTarget.ready hkeyed hsees.place)
      exact ⟨onTarget.covered hkeyed hcTarget (hsees.narrow fun _ h => List.mem_append_left _ h),
        onIndex.covered hkeyed hcIndex (hsees'.narrow fun _ h => List.mem_append_right _ h)⟩
termination_by structural e

theorem AcceptsExprs.covered {p : Place} {es : List Expr} {tys : List (Ty × Span)}
    {bs : List Bound.Expr} {r r' : Record}
    {ready : List Cell} (h : AcceptsExprs keyOf p r es tys bs r') (hkeyed : Keyed keyOf p.imports)
    (hconfined : Bound.Expr.confinedOf bs = true) (hsees : Sees p r ready (Bound.Expr.usesOf bs)) :
    Bound.Expr.CoveredOf ready bs := by
  cases es with
  | nil => cases h; exact trivial
  | cons e es =>
    cases h with
    | cons head used tail =>
      have hscope := hsees.place.scope
      have he := head.effect hscope
      obtain ⟨hcHead, hcTail⟩ := Bool.and_eq_true_iff.1 hconfined
      have hsees' := hsees.pastExpr he (head.ready hkeyed hsees.place)
      exact ⟨head.covered hkeyed hcHead (hsees.narrow fun _ h => List.mem_append_left _ h),
        tail.covered hkeyed hcTail (hsees'.narrow fun _ h => List.mem_append_right _ h)⟩
termination_by structural es

theorem AcceptsDeclaration.covered {p : Place} {d : Declaration} {ty : Ty} {cell : Cell}
    {b : Bound.Expr} {r r' : Record}
    {ready : List Cell} (h : AcceptsDeclaration keyOf p r d ty cell b r') (hkeyed : Keyed keyOf p.imports)
    (hconfined : b.confined = true) (hsees : Sees p r ready b.uses) : b.Covered ready := by
  cases d with
  | mk name note initial span =>
    cases h with
    | mk _ accepted used fits declared => exact accepted.covered hkeyed hconfined hsees
termination_by structural d

theorem AcceptsStmt.covered {p : Place} {s : Stmt} {b : Bound.Stmt} {r r' : Record} {ready : List Cell}
    (h : AcceptsStmt keyOf p r s b r') (hkeyed : Keyed keyOf p.imports) (hconfined : b.confined = true)
    (hsees : Sees p r ready b.uses) : b.Covered ready := by
  have hscope := hsees.place.scope
  cases s with
  | cond condition body span =>
    cases body with
    | mk body bodySpan =>
      cases h with
      | cond _ _ test used fits inside =>
        have he := test.effect hscope
        obtain ⟨hcTest, hcInside⟩ := Bool.and_eq_true_iff.1 hconfined
        have hsees' := hsees.pastExpr he (test.ready hkeyed hsees.place)
        have htest := test.covered hkeyed hcTest (hsees.narrow fun _ h => List.mem_append_left _ h)
        have hinside := inside.covered hkeyed hcInside (hsees'.narrow fun _ h => List.mem_append_right _ h).conditional
        exact ⟨htest, hinside⟩
  | declare d =>
    cases h with
    | declare declared => exact declared.covered hkeyed hconfined hsees
  | giveBack value span =>
    cases value with
    | none =>
      cases h with
      | giveNothing _ fits => exact trivial
    | some e =>
      cases h with
      | giveBack _ given used fits => exact given.covered hkeyed hconfined hsees
  | eval e span =>
    cases h with
    | eval _ evaluated => exact evaluated.covered hkeyed hconfined hsees
  | pub d span =>
    cases h with
    | pub _ top declared exported => exact declared.covered hkeyed hconfined hsees
  | use path names span => cases h; exact trivial
termination_by structural s

theorem AcceptsStmts.covered {p : Place} {ss : List Stmt} {bs : List Bound.Stmt} {r r' : Record}
    {ready : List Cell} (h : AcceptsStmts keyOf p r ss bs r') (hkeyed : Keyed keyOf p.imports)
    (hconfined : Bound.Stmt.confinedIn bs = true) (hsees : Sees p r ready (Bound.Stmt.usesIn bs)) :
    Bound.Stmt.CoveredIn ready bs := by
  cases ss with
  | nil => cases h; exact trivial
  | cons s ss =>
    cases h with
    | @cons _ _ between _ _ _ b bs head tail =>
      have hscope := hsees.place.scope
      have he := head.effect hscope
      obtain ⟨hc, hbranch⟩ := Bool.and_eq_true_iff.1 hconfined
      obtain ⟨hcHead, hcTail⟩ := Bool.and_eq_true_iff.1 hc
      have hhead := head.covered hkeyed hcHead (hsees.narrow fun _ h => List.mem_append_left _ h)
      have hsees' := (hsees.narrow fun _ h => List.mem_append_right _ h).past he (head.ready hkeyed hsees.place)
        (fun _ h => Bound.Stmt.assigned_declared h) (Bound.Stmt.assigned_of_confined hbranch)
      have htail := tail.covered hkeyed hcTail hsees'
      exact ⟨hhead, htail⟩
termination_by structural ss

end

end

end Check

end TypedScript
