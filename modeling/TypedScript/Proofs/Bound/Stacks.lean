/-
Types of operands. The code of a tree that fits its types can be noted, place by place, with the types of the operands
there, the topmost first: each instruction finds operands as it asks for them, and a `return` finds a value of the type
that the function is declared to give. The end of a body is another matter: a function that is declared to give
something and comes to its end gives nothing all the same, so that in such a function nothing is said from the end of
the body on.

- `Bound.FitExpr.noted`, `Bound.FitStmts.noted`: the code of expressions and statements.
- `Bound.FitFunction.operands`, `Bound.FitStmts.operands`: the templates of function literals and of modules.
-/
import TypedScript.Proofs.Bound.Annotated
import TypedScript.Proofs.Bound.Fitting

namespace TypedScript

/-- what is known of types in a program: those of the cells by their numbers and those of the exports
of modules, which templates are those of function literals with a signature and which those of modules,
and which functions the host has -/
structure Types where
  cells : Nat → Option Ty
  exports : String → String → Option Ty
  body : Option Signature → Template → Prop
  known : Builtin → Prop

/-- a function with a signature may be made from a template -/
def Types.made (T : Types) (signature : Signature) (t : Template) : Prop := T.body (some signature) t

/-! ## Instructions -/

/-- what an instruction makes of operands, in the body of a function with a signature -/
inductive Instruction.Turns (T : Types) (around : Option Signature) : Instruction → List Ty → List Ty → Prop
  | none {tys : List Ty} : Turns T around (.push .none) tys (.void :: tys)
  | int {value : Int64} {tys : List Ty} : Turns T around (.push (.int value)) tys (.int :: tys)
  | str {value : String} {tys : List Ty} : Turns T around (.push (.str value)) tys (.str :: tys)
  | bool {value : Bool} {tys : List Ty} : Turns T around (.push (.bool value)) tys (.bool :: tys)
  | function {signature : Signature} {t : Template} {tys : List Ty} (made : T.made signature t) :
      Turns T around (.push (.function t)) tys (signature.ty :: tys)
  | pop {ty : Ty} {tys : List Ty} : Turns T around .pop (ty :: tys) tys
  | reserve {cell : Cell} {tys : List Ty} : Turns T around (.reserve cell) tys tys
  | load {cell : Cell} {ty : Ty} {tys : List Ty} (type : T.cells cell.id = some ty) :
      Turns T around (.load cell) tys (ty :: tys)
  | store {cell : Cell} {ty wanted : Ty} {tys : List Ty} (type : T.cells cell.id = some wanted)
      (fits : wanted.Fits ty) :
      Turns T around (.store cell) (ty :: tys) tys
  | loadSelf {signature : Signature} {tys : List Ty} (here : around = some signature) :
      Turns T around .loadSelf tys (signature.ty :: tys)
  | test {target : Nat} {ty : Ty} {tys : List Ty} : Turns T around (.jumpIfFalse target) (ty :: tys) tys
  | dispatch {given : List Ty} {ty result : Ty} {tys : List Ty}
      (fits : ty = .error ∨ ∃ params, ty = .function params result ∧ List.Forall₂ Ty.Fits params given) :
      Turns T around (.dispatch given.length) (ty :: (given.reverse ++ tys)) (result :: tys)
  | makeList {items : List Ty} {ty : Ty} {tys : List Ty}
      (fits : .error ∈ items ∨ ∃ element, ty = .list element ∧ ∀ t ∈ items, t = element) :
      Turns T around (.makeList items.length) (items.reverse ++ tys) (ty :: tys)
  | subscript {target index ty : Ty} {tys : List Ty}
      (fits : target = .error ∨ index = .error ∨
        index = .int ∧ (target = .str ∧ ty = .optional .str ∨
          ∃ element, target = .list element ∧ ty = .optional element)) :
      Turns T around .subscript (index :: target :: tys) (ty :: tys)
  | loadImport {module name : String} {ty : Ty} {tys : List Ty} (type : T.exports module name = some ty) :
      Turns T around (.loadImport module name) tys (ty :: tys)
  | binary {op : BinaryOp} {left right ty : Ty} {tys : List Ty}
      (fits : left = .error ∨ right = .error ∨ op.Takes left right ty) :
      Turns T around (.binary op) (right :: left :: tys) (ty :: tys)

/-- types of the operands: a `return` finds what the function around it is declared to give, and only modules end -/
def Types.rules (T : Types) (around : Option Signature) : Code.Rules (List Ty) where
  here i tys := (i = .giveBack → ∃ signature ty rest, around = some signature ∧ tys = ty :: rest ∧
    signature.result.Fits ty) ∧ (i = .halt → around = none)
  leads i tys next := i.Turns T around tys next

/-- the types of the operands at the places of a template that is entered with none: nothing is asked from the end of
the body on, where a function is declared to give something, and behind the code no operands can be -/
structure Template.Stacks (T : Types) (around : Option Signature) (t : Template) (f : Nat → List Ty) : Prop where
  start : f 0 = []
  behind : f t.code.length = [.error]
  suits : ∀ k i, t.code[k]? = some i →
    (∀ signature, around = some signature → signature.result ≠ .void → k + 2 < t.code.length) →
    Code.Suits (T.rules around) f k t.code.length i

namespace Bound

open Code

variable {T : Types} {P : Ty → Prop} {around : Option Signature} {i : Instruction} {tys next : List Ty} {start : Nat}

/-- an instruction that neither gives anything back nor ends a module -/
theorem noted_onward (hnext : i.leads start = [start + 1]) (h : i.Turns T around tys next) :
    Annotated (T.rules around) start tys [i] next := by
  refine annotated_onward hnext ⟨fun hi => ?_, fun hi => ?_⟩ h
  · rw [hi] at hnext
    cases hnext
  · rw [hi] at hnext
    cases hnext

theorem noted_giveBack {signature : Signature} {ty : Ty} (hfits : signature.result.Fits ty) :
    Annotated (T.rules (some signature)) start (ty :: tys) [.giveBack] next :=
  annotated_leaving rfl ⟨fun _ => ⟨signature, ty, tys, rfl, rfl, hfits⟩, fun h => nomatch h⟩

/-- a function that is declared to give nothing gives nothing -/
theorem noted_void {signature : Signature} (hvoid : signature.result = .void) :
    Annotated (T.rules (some signature)) start tys (Compile.ending false) next := by
  have hpush : Annotated (T.rules (some signature)) start tys [.push .none] (.void :: tys) := noted_onward rfl .none
  exact hpush.append (noted_giveBack (Or.inr hvoid))

theorem noted_halt : Annotated (T.rules none) start tys (Compile.ending true) next :=
  annotated_leaving rfl ⟨fun h => (nomatch h), fun _ => rfl⟩

theorem noted_reserves (cells : List Cell) : Annotated (T.rules around) start tys (cells.map .reserve) tys := by
  induction cells generalizing start with
  | nil => exact annotated_nil
  | cons cell cells ih =>
    have hreserve : Annotated (T.rules around) start tys [.reserve cell] tys := noted_onward rfl .reserve
    exact hreserve.append ih

theorem noted_fetches {module : String} {names : List (String × Cell)}
    (h : ∀ n ∈ names, ∃ ty, T.exports module n.1 = some ty ∧ T.cells n.2.id = some ty) :
    Annotated (T.rules around) start tys (fetches module names) tys := by
  induction names generalizing start with
  | nil => exact annotated_nil
  | cons n names ih =>
    obtain ⟨⟨ty, hexport, hcell⟩, hrest⟩ := List.forall_mem_cons.1 h
    have hload : Annotated (T.rules around) start tys [.loadImport module n.1] (ty :: tys) :=
      noted_onward rfl (.loadImport hexport)
    have hstore : Annotated (T.rules around) (start + 1) (ty :: tys) [.store n.2] tys :=
      noted_onward rfl (.store hcell (Or.inr rfl))
    exact hload.append (hstore.append (ih hrest))

/-! ## Trees -/

theorem FitExprs.length_eq {types : Nat → Option Ty} {es : List Expr} (h : FitExprs types P around es tys) :
    es.length = tys.length := by
  induction es generalizing tys with
  | nil => cases h; rfl
  | cons e es ih =>
    cases h with
    | cons head tail => exact congrArg (· + 1) (ih tail)

mutual

/-- the code of an expression leaves an operand of its type -/
theorem FitExpr.noted (herror : ¬ P .error) {around : Option Signature} {e : Expr} {ty : Ty} {tys : List Ty}
    (start : Nat) (h : FitExpr T.cells P around e ty)
    (hmade : ∀ f ∈ e.literals, T.made f.signature (f.template false)) :
    Annotated (T.rules around) start tys e.code (ty :: tys) := by
  cases e with
  | number value => cases h; exact noted_onward rfl .int
  | text value => cases h; exact noted_onward rfl .str
  | truth value => cases h; exact noted_onward rfl .bool
  | read cell =>
    cases h with
    | read type => exact noted_onward rfl (.load type)
  | self => cases h; exact noted_onward rfl (.loadSelf rfl)
  | function f => cases h; exact noted_onward rfl (.function (hmade f List.mem_cons_self))
  | list items =>
    cases h with
    | list given fits =>
      refine (given.noted herror start hmade).append (noted_onward rfl ?_)
      rw [given.length_eq]
      exact .makeList fits
  | call callee arguments =>
    cases h with
    | call given function fits =>
      obtain ⟨hmade, hmade'⟩ := List.forall_mem_append.1 hmade
      refine ((given.noted herror start hmade).append (function.noted herror _ hmade')).append (noted_onward rfl ?_)
      rw [given.length_eq]
      exact .dispatch fits
  | assign cell value =>
    cases h with
    | assign accepted type kind fits =>
      have hnone (start : Nat) : Annotated (T.rules around) start tys [.push .none] (.void :: tys) :=
        noted_onward rfl .none
      have hfits := fits.resolve_left fun h => herror (h ▸ kind)
      exact (accepted.noted herror start hmade).append ((noted_onward rfl (.store type hfits)).append (hnone _))
  | binary op left right =>
    cases h with
    | binary onLeft onRight fits =>
      obtain ⟨hmade, hmade'⟩ := List.forall_mem_append.1 hmade
      exact ((onLeft.noted herror start hmade).append (onRight.noted herror _ hmade')).append
        (noted_onward rfl (.binary fits))
  | subscript target index =>
    cases h with
    | subscript onTarget onIndex fits =>
      obtain ⟨hmade, hmade'⟩ := List.forall_mem_append.1 hmade
      exact ((onTarget.noted herror start hmade).append (onIndex.noted herror _ hmade')).append
        (noted_onward rfl (.subscript fits))
termination_by structural e

/-- the code of expressions leaves operands of their types, the last one on top -/
theorem FitExprs.noted (herror : ¬ P .error) {around : Option Signature} {es : List Expr} {given tys : List Ty}
    (start : Nat) (h : FitExprs T.cells P around es given)
    (hmade : ∀ f ∈ Expr.literalsOf es, T.made f.signature (f.template false)) :
    Annotated (T.rules around) start tys (Expr.codeOf es) (given.reverse ++ tys) := by
  cases es with
  | nil => cases h; exact annotated_nil
  | cons e es =>
    cases h with
    | cons head tail =>
      obtain ⟨hmade, hmade'⟩ := List.forall_mem_append.1 hmade
      rw [List.reverse_cons, List.append_assoc]
      exact (head.noted herror start hmade).append (tail.noted herror _ hmade')
termination_by structural es

end

mutual

/-- the code of a statement leaves the operands as they are -/
theorem FitStmt.noted (herror : ¬ P .error) {exports : String → String → Option Ty} {around : Option Signature}
    {s : Stmt} {tys : List Ty} (start : Nat) (h : FitStmt T.cells P exports around s)
    (hexports : ∀ module name ty, exports module name = some ty → T.exports module name = some ty)
    (hmade : ∀ f ∈ s.literals, T.made f.signature (f.template false)) :
    Annotated (T.rules around) start tys (s.code start) tys := by
  cases s with
  | cond condition body =>
    cases h with
    | @cond _ _ _ _ ty test fits inside =>
      obtain ⟨hmade, hmade'⟩ := List.forall_mem_append.1 hmade
      refine (test.noted herror start hmade).append ?_
      refine (inside.noted herror _ hexports hmade').branch (fun _ => ?_) fun _ => .test
      exact ⟨fun h => (nomatch h), fun h => nomatch h⟩
  | declare cell value =>
    cases h with
    | declare accepted type fits =>
      exact (accepted.noted herror start hmade).append (noted_onward rfl (.store type fits))
  | giveBack value =>
    cases value with
    | none =>
      cases h with
      | giveNothing fits => exact noted_void fits
    | some e =>
      cases h with
      | giveBack given fits => exact (given.noted herror start hmade).append (noted_giveBack fits)
  | eval e =>
    cases h with
    | eval evaluated =>
      have hdrop : Annotated (T.rules around) start tys (e.code ++ [.pop]) tys :=
        (evaluated.noted herror start hmade).append (noted_onward rfl .pop)
      cases e with
      | assign cell value =>
        cases evaluated with
        | assign accepted type kind fits =>
          have hfits := fits.resolve_left fun h => herror (h ▸ kind)
          exact (accepted.noted herror start hmade).append (noted_onward rfl (.store type hfits))
      | _ => exact hdrop
  | use module names =>
    cases h with
    | use imports =>
      refine noted_fetches fun n hn => ?_
      obtain ⟨ty, hexport, htype⟩ := imports n hn
      exact ⟨ty, hexports _ _ ty hexport, htype⟩
termination_by structural s

theorem FitStmts.noted (herror : ¬ P .error) {exports : String → String → Option Ty} {around : Option Signature}
    {ss : List Stmt} {tys : List Ty} (start : Nat) (h : FitStmts T.cells P exports around ss)
    (hexports : ∀ module name ty, exports module name = some ty → T.exports module name = some ty)
    (hmade : ∀ f ∈ Stmt.literalsIn ss, T.made f.signature (f.template false)) :
    Annotated (T.rules around) start tys (Stmt.codeOf start ss) tys := by
  cases ss with
  | nil => exact annotated_nil
  | cons s ss =>
    cases h with
    | cons head tail =>
      obtain ⟨hmade, hmade'⟩ := List.forall_mem_append.1 hmade
      exact (head.noted herror start hexports hmade).append (tail.noted herror _ hexports hmade')
termination_by structural ss

end

/-! ## Templates -/

theorem exists_stacks {t : Template} (h : Annotated (T.rules around) 0 [] t.code [.error]) :
    ∃ operands, t.Stacks T around operands := by
  obtain ⟨operands, hstart, hbehind, hsuits⟩ := h
  simp only [Nat.zero_add] at hbehind hsuits
  exact ⟨operands, hstart, hbehind, fun k i hi _ => hsuits k i hi⟩

/-- a function that is declared to give something is noted as far as its body goes -/
theorem exists_stacks_of_body {signature : Signature} {t : Template} {body : Code}
    (hcode : t.code = body ++ Compile.ending false) (hgives : signature.result ≠ .void)
    (h : Annotated (T.rules (some signature)) 0 [] body []) : ∃ operands, t.Stacks T (some signature) operands := by
  obtain ⟨f, hstart, _, hsuits⟩ := h
  simp only [Nat.zero_add] at hsuits
  have hlength : t.code.length = body.length + 2 := by
    rw [hcode, List.length_append]
    rfl
  let operands (k : Nat) : List Ty := if k ≤ body.length then f k else [.error]
  have hleft {k : Nat} (hk : k ≤ body.length) : operands k = f k := if_pos hk
  refine ⟨operands, (hleft (Nat.zero_le _)).trans hstart, if_neg (by omega), fun k i hi hearly => ?_⟩
  have hk : k < body.length := by
    have hlt := hearly signature rfl hgives
    omega
  rw [hcode, List.getElem?_append_left hk] at hi
  exact (hsuits k i hi).congr (Nat.le_of_lt hk) (by omega) fun j _ hj => hleft hj

/-- the code of a body, with the cells of its variables made first -/
theorem FitStmts.noted_body (herror : ¬ P .error) {exports : String → String → Option Ty} {body : List Stmt}
    (locals : List Cell) (h : FitStmts T.cells P exports around body)
    (hexports : ∀ module name ty, exports module name = some ty → T.exports module name = some ty)
    (hmade : ∀ f ∈ Stmt.literalsIn body, T.made f.signature (f.template false)) :
    Annotated (T.rules around) 0 [] (locals.map .reserve ++ Stmt.codeOf locals.length body) [] := by
  have hslots : Annotated (T.rules around) 0 [] (locals.map .reserve) [] := noted_reserves locals
  refine hslots.append ?_
  rw [List.length_map, Nat.zero_add]
  exact h.noted herror locals.length hexports hmade

/-- the template of a function literal that fits its types -/
theorem FitFunction.operands (herror : ¬ P .error) {f : Function} (h : FitFunction T.cells P f)
    (hmade : ∀ g ∈ f.literals, T.made g.signature (g.template false)) :
    ∃ operands, (f.template false).Stacks T (some f.signature) operands := by
  obtain ⟨number, signature, params, locals, body⟩ := f
  cases h with
  | mk _ inside =>
    have hbody := inside.noted_body herror locals (fun _ _ _ h => nomatch h) hmade
    by_cases hgives : signature.result = .void
    · exact exists_stacks (hbody.append (noted_void hgives))
    · exact exists_stacks_of_body rfl hgives hbody

/-- the template of a module whose statements fit their types -/
theorem FitStmts.operands (herror : ¬ P .error) {exports : String → String → Option Ty} {f : Function}
    (h : FitStmts T.cells P exports none f.body)
    (hexports : ∀ module name ty, exports module name = some ty → T.exports module name = some ty)
    (hmade : ∀ g ∈ f.literals, T.made g.signature (g.template false)) :
    ∃ operands, (f.template true).Stacks T none operands := by
  obtain ⟨number, signature, params, locals, body⟩ := f
  exact exists_stacks ((h.noted_body herror locals hexports hmade).append noted_halt)

end Bound

end TypedScript
