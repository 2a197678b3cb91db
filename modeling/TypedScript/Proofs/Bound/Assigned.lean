/-
Variables with values, place by place. The code of a covered tree can be noted with the variables that are sure to have
a value at each place: what is read there is one of them, a literal that is pushed there is covered by them, and behind
a store its variable is one more. The cells of a body are made in front of its other code, for variables that are none
of those which have a value already.

- `Bound.Expr.Covered.assigned`, `Bound.Stmt.CoveredIn.assigned`: the code of expressions and statements.
- `Bound.Function.Covered.sure`, `Bound.Stmt.CoveredIn.sure`: the templates of function literals and of modules.
-/
import TypedScript.Proofs.Bound.Annotated
import TypedScript.Proofs.Bound.Covered
import TypedScript.Proofs.Bound.Imports

namespace TypedScript

/-- what is known at a place of code: whether it stands among the cells that are made first, and which variables are
sure to have a value -/
structure Readiness where
  making : Bool
  ready : List Cell

/-- an instruction reads none but the variables that have a value, pushes a function that these cover, or makes the cell
of a variable that is none of them -/
def Instruction.Asks (known : Readiness) : Instruction → Prop
  | .load cell => cell ∈ known.ready
  | .push (.function u) => ∃ f : Bound.Function, f.Covered known.ready ∧ f.template false = u
  | .reserve cell => known.making = true ∧ ∀ other ∈ known.ready, other.id ≠ cell.id
  | _ => True

/-- a variable gets its value from a store, and cells are made only behind others -/
def assigning : Code.Rules Readiness where
  here i known := i.Asks known
  leads i known next := (∀ cell ∈ next.ready, cell ∈ known.ready ∨ i = .store cell) ∧
    (next.making = true → ∃ cell, i = .reserve cell)

/-- a template may be entered where some variables, besides its parameters, are sure to have a value: its places can be
noted from there on, and it makes the cells of other variables than its parameters -/
structure Template.Sure (ready : List Cell) (t : Template) : Prop where
  noted : ∃ making, Code.Annotated assigning 0 ⟨making, t.parameters ++ ready⟩ t.code ⟨false, []⟩
  apart : ∀ cell ∈ t.parameters, ∀ other, .reserve other ∈ t.code → other.id ≠ cell.id

theorem Template.Sure.exists_notes {ready : List Cell} {t : Template} (h : t.Sure ready) :
    ∃ notes : Nat → Readiness, (notes 0).ready = t.parameters ++ ready ∧
      ∀ k i, t.code[k]? = some i → Code.Suits assigning notes k t.code.length i := by
  obtain ⟨making, notes, hstart, _, hsuits⟩ := h.noted
  simp only [Nat.zero_add] at hsuits
  exact ⟨notes, by rw [hstart], hsuits⟩

namespace Bound

open Code

variable {ready next : List Cell} {start : Nat} {i : Instruction}

/-! ## Instructions -/

/-- an instruction behind the cells of its body -/
theorem assigned_onward (hnext : i.leads start = [start + 1]) (hasks : i.Asks ⟨false, ready⟩)
    (hready : ∀ cell ∈ next, cell ∈ ready ∨ i = .store cell) :
    Annotated assigning start ⟨false, ready⟩ [i] ⟨false, next⟩ :=
  annotated_onward hnext hasks ⟨hready, fun h => nomatch h⟩

/-- an instruction that gives no variable a value -/
theorem assigned_plain (hnext : i.leads start = [start + 1]) (hasks : i.Asks ⟨false, ready⟩) :
    Annotated assigning start ⟨false, ready⟩ [i] ⟨false, ready⟩ :=
  assigned_onward hnext hasks fun _ => Or.inl

/-- a variable has a value behind a store -/
theorem assigned_store (cell : Cell) :
    Annotated assigning start ⟨false, ready⟩ [.store cell] ⟨false, cell :: ready⟩ := by
  refine assigned_onward rfl trivial fun other hother => ?_
  rcases List.mem_cons.1 hother with rfl | hold
  · exact Or.inr rfl
  · exact Or.inl hold

theorem assigned_giveBack {after : Readiness} : Annotated assigning start ⟨false, ready⟩ [.giveBack] after :=
  annotated_leaving rfl trivial

theorem assigned_nothing {after : Readiness} :
    Annotated assigning start ⟨false, ready⟩ (Compile.ending false) after := by
  have hpush : Annotated assigning start ⟨false, ready⟩ [.push .none] ⟨false, ready⟩ := assigned_plain rfl trivial
  exact hpush.append assigned_giveBack

theorem assigned_ending (isModule : Bool) {after : Readiness} :
    Annotated assigning start ⟨false, ready⟩ (Compile.ending isModule) after := by
  cases isModule with
  | false => exact assigned_nothing
  | true => exact annotated_leaving rfl trivial

/-- cells are made for variables that have no value yet -/
theorem assigned_reserves {cells : List Cell} (h : ∀ cell ∈ cells, ∀ other ∈ ready, other.id ≠ cell.id) :
    ∃ making, Annotated assigning start ⟨making, ready⟩ (cells.map .reserve) ⟨false, ready⟩ := by
  induction cells generalizing start with
  | nil => exact ⟨false, annotated_nil⟩
  | cons cell cells ih =>
    obtain ⟨hcell, hrest⟩ := List.forall_mem_cons.1 h
    obtain ⟨making, hcells⟩ := ih hrest
    have hreserve : Annotated assigning start ⟨true, ready⟩ [.reserve cell] ⟨making, ready⟩ :=
      annotated_onward rfl ⟨rfl, hcell⟩ ⟨fun _ => Or.inl, fun _ => ⟨cell, rfl⟩⟩
    exact ⟨true, hreserve.append hcells⟩

/-- code may come to its end with the variables in another order, or with fewer of them -/
theorem assigned_weaken {a : Readiness} {code : Code} (h : Annotated assigning start a code ⟨false, next⟩)
    {fewer : List Cell} (hfewer : ∀ cell ∈ fewer, cell ∈ next) (hnil : code = [] → a = ⟨false, fewer⟩) :
    Annotated assigning start a code ⟨false, fewer⟩ :=
  h.relabel (fun _ _ hleads => ⟨fun cell hcell => hleads.1 cell (hfewer cell hcell), hleads.2⟩) hnil

theorem assigned_fetches {module : String} {names : List (String × Cell)} :
    Annotated assigning start ⟨false, ready⟩ (fetches module names) ⟨false, names.map Prod.snd ++ ready⟩ := by
  induction names generalizing start ready with
  | nil => exact annotated_nil
  | cons n names ih =>
    have hload : Annotated assigning start ⟨false, ready⟩ [.loadImport module n.1] ⟨false, ready⟩ :=
      assigned_plain rfl trivial
    have hall : Annotated assigning start ⟨false, ready⟩ (fetches module (n :: names))
        ⟨false, names.map Prod.snd ++ n.2 :: ready⟩ := hload.append ((assigned_store n.2).append ih)
    refine assigned_weaken hall (fun cell hcell => ?_) fun h => nomatch h
    rw [List.map_cons, List.cons_append, List.mem_cons] at hcell
    rw [List.mem_append, List.mem_cons]
    rcases hcell with rfl | hcell
    · exact Or.inr (Or.inl rfl)
    · exact (List.mem_append.1 hcell).imp_right Or.inr

/-! ## Trees -/

mutual

/-- an expression gives no variable a value that is sure to have none before -/
theorem Expr.Covered.assigned {e : Expr} {ready : List Cell} (start : Nat) (h : e.Covered ready) :
    Annotated assigning start ⟨false, ready⟩ e.code ⟨false, ready⟩ := by
  cases e with
  | read cell => exact assigned_plain rfl h
  | function f => exact assigned_plain rfl ⟨f, h, rfl⟩
  | list items =>
    have hitems : Expr.CoveredOf ready items := h
    exact (hitems.assigned start).append (assigned_plain rfl trivial)
  | call callee arguments =>
    obtain ⟨hgiven, hcallee⟩ := h
    exact ((hgiven.assigned start).append (hcallee.assigned _)).append (assigned_plain rfl trivial)
  | assign cell value =>
    obtain ⟨hvalue, _⟩ := h
    have hstore (start : Nat) : Annotated assigning start ⟨false, ready⟩ [.store cell] ⟨false, ready⟩ :=
      assigned_plain rfl trivial
    have hnone (start : Nat) : Annotated assigning start ⟨false, ready⟩ [.push .none] ⟨false, ready⟩ :=
      assigned_plain rfl trivial
    exact (hvalue.assigned start).append ((hstore _).append (hnone _))
  | binary op left right =>
    obtain ⟨hleft, hright⟩ := h
    exact ((hleft.assigned start).append (hright.assigned _)).append (assigned_plain rfl trivial)
  | subscript target index =>
    obtain ⟨htarget, hindex⟩ := h
    exact ((htarget.assigned start).append (hindex.assigned _)).append (assigned_plain rfl trivial)
  | _ => exact assigned_plain rfl trivial
termination_by structural e

theorem Expr.CoveredOf.assigned {es : List Expr} {ready : List Cell} (start : Nat) (h : Expr.CoveredOf ready es) :
    Annotated assigning start ⟨false, ready⟩ (Expr.codeOf es) ⟨false, ready⟩ := by
  cases es with
  | nil => exact annotated_nil
  | cons e es =>
    obtain ⟨hhead, htail⟩ := h
    exact (hhead.assigned start).append (htail.assigned _)
termination_by structural es

end

mutual

/-- behind a statement the variables that it assigns have values as well -/
theorem Stmt.Covered.assigned {s : Stmt} {ready : List Cell} (start : Nat) (h : s.Covered ready) :
    Annotated assigning start ⟨false, ready⟩ (s.code start) ⟨false, s.assigned ++ ready⟩ := by
  cases s with
  | cond condition body =>
    obtain ⟨htest, hbody⟩ := h
    -- the body may be passed over, so that behind it no more is known than before it
    have hinside := hbody.assigned (start + condition.code.length + 1)
    refine (htest.assigned start).append (hinside.branch (fun _ => trivial) fun _ => ⟨fun _ => Or.inl, ?_⟩)
    exact fun h => nomatch h
  | declare cell value =>
    have hvalue : value.Covered ready := h
    exact (hvalue.assigned start).append (assigned_store cell)
  | giveBack value =>
    cases value with
    | none => exact assigned_nothing
    | some e =>
      have he : e.Covered ready := h
      exact (he.assigned start).append assigned_giveBack
  | eval e =>
    have he : e.Covered ready := h
    have hdrop : Annotated assigning start ⟨false, ready⟩ (e.code ++ [.pop]) ⟨false, ready⟩ :=
      (he.assigned start).append (assigned_plain rfl trivial)
    cases e with
    | assign cell value =>
      obtain ⟨hvalue, _⟩ := he
      exact (hvalue.assigned start).append (assigned_plain rfl trivial)
    | _ => exact hdrop
  | use module names => exact assigned_fetches
termination_by structural s

/-- the variables that had values have them behind statements -/
theorem Stmt.CoveredIn.assigned {ss : List Stmt} {ready : List Cell} (start : Nat) (h : Stmt.CoveredIn ready ss) :
    Annotated assigning start ⟨false, ready⟩ (Stmt.codeOf start ss) ⟨false, ready⟩ := by
  cases ss with
  | nil => exact annotated_nil
  | cons s ss =>
    obtain ⟨hhead, htail⟩ := h
    have hall := (hhead.assigned start).append (htail.assigned _)
    exact assigned_weaken hall (fun _ => List.mem_append_right _) fun _ => rfl
termination_by structural ss

end

/-! ## Cells -/

/-- code in which no cell is made -/
def MakesNone (code : Code) : Prop := ∀ cell, .reserve cell ∉ code

theorem makesNone_singleton (h : ∀ cell, .reserve cell ≠ i) : MakesNone [i] :=
  fun cell hmem => h cell (List.mem_singleton.1 hmem)

theorem MakesNone.append {code code' : Code} (h : MakesNone code) (h' : MakesNone code') : MakesNone (code ++ code') :=
  fun cell hmem => (List.mem_append.1 hmem).elim (h cell) (h' cell)

theorem Expr.makesNone (e : Expr) : MakesNone e.code := fun _ hmem => e.simple _ hmem

theorem makesNone_fetches (module : String) (names : List (String × Cell)) : MakesNone (fetches module names) := by
  induction names with
  | nil => exact fun _ hmem => nomatch hmem
  | cons n names ih =>
    have hfetch : MakesNone [.loadImport module n.1, .store n.2] := by simp [MakesNone]
    exact hfetch.append ih

theorem makesNone_ending (isModule : Bool) : MakesNone (Compile.ending isModule) := by
  cases isModule <;> simp [MakesNone, Compile.ending]

mutual

theorem Stmt.makesNone (start : Nat) (s : Stmt) : MakesNone (s.code start) := by
  cases s with
  | cond condition body =>
    have htest (target : Nat) : MakesNone [.jumpIfFalse target] := makesNone_singleton fun _ => nofun
    exact condition.makesNone.append ((htest _).append (Stmt.makesNoneIn _ body))
  | declare cell value => exact value.makesNone.append (makesNone_singleton fun _ => nofun)
  | giveBack value =>
    cases value with
    | none => exact makesNone_ending false
    | some e => exact e.makesNone.append (makesNone_singleton fun _ => nofun)
  | eval e =>
    have hdrop : MakesNone (e.code ++ [.pop]) := e.makesNone.append (makesNone_singleton fun _ => nofun)
    cases e with
    | assign cell value => exact value.makesNone.append (makesNone_singleton fun _ => nofun)
    | _ => exact hdrop
  | use module names => exact makesNone_fetches module names
termination_by structural s

theorem Stmt.makesNoneIn (start : Nat) (ss : List Stmt) : MakesNone (Stmt.codeOf start ss) := by
  cases ss with
  | nil => exact fun _ hmem => nomatch hmem
  | cons s ss => exact (s.makesNone start).append (Stmt.makesNoneIn _ ss)
termination_by structural ss

end

/-- a body makes the cells of its own variables only -/
theorem Function.mem_locals_of_reserve {f : Function} {isModule : Bool} {cell : Cell}
    (h : .reserve cell ∈ (f.template isModule).code) : cell ∈ f.locals := by
  obtain ⟨number, signature, params, locals, body⟩ := f
  have hbehind : MakesNone (Stmt.codeOf locals.length body ++ Compile.ending isModule) :=
    (Stmt.makesNoneIn locals.length body).append (makesNone_ending isModule)
  change _ ∈ locals.map .reserve ++ Stmt.codeOf locals.length body ++ Compile.ending isModule at h
  rw [List.append_assoc] at h
  obtain ⟨other, hother, heq⟩ := List.mem_map.1 ((List.mem_append.1 h).resolve_right (hbehind cell))
  cases heq
  exact hother

/-! ## Templates -/

/-- a body whose own variables are apart from those that have values where it is entered -/
theorem Stmt.CoveredIn.sure {number : Nat} {signature : Signature} {params locals : List Cell} {body : List Stmt}
    (h : Stmt.CoveredIn (params ++ ready) body)
    (hlocals : ∀ cell ∈ locals, ∀ other ∈ params ++ ready, other.id ≠ cell.id) (isModule : Bool) :
    (Function.template isModule ⟨number, signature, params, locals, body⟩).Sure ready := by
  obtain ⟨making, hcells⟩ := @assigned_reserves (params ++ ready) 0 locals hlocals
  have hbody : Annotated assigning (0 + (locals.map Instruction.reserve).length) ⟨false, params ++ ready⟩
      (Stmt.codeOf locals.length body) ⟨false, params ++ ready⟩ := by
    rw [List.length_map, Nat.zero_add]
    exact h.assigned locals.length
  refine ⟨⟨making, (hcells.append hbody).append (assigned_ending isModule)⟩, fun cell hcell other hother => ?_⟩
  have hown := Function.mem_locals_of_reserve hother
  exact (hlocals other hown cell (List.mem_append_left _ hcell)).symm

/-- a literal that is covered by some variables may be entered where these have values -/
theorem Function.Covered.sure {f : Function} (h : f.Covered ready) : (f.template false).Sure ready := by
  obtain ⟨number, signature, params, locals, body⟩ := f
  obtain ⟨_, hlocals, _, hbody⟩ := h
  exact hbody.sure hlocals false

end Bound

/-- the templates of the literals in a body may be entered where the body comes to them -/
theorem Template.Sure.nested {ready : List Cell} {t u : Template} (h : t.Sure ready) (hu : u ∈ t.nested) :
    ∃ ready, u.Sure ready := by
  obtain ⟨notes, _, hsuits⟩ := h.exists_notes
  obtain ⟨k, hk⟩ := List.getElem?_of_mem (Template.mem_of_mem_pushed hu)
  obtain ⟨f, hcovered, rfl⟩ := (hsuits k _ hk).here
  exact ⟨_, hcovered.sure⟩

end TypedScript
