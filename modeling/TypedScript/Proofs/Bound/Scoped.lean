/-
Code and the scopes around it. The code of a body reads and stores only variables of the scope of the body and of those
around it, and pushes only templates of literals whose scopes stand directly inside of that scope. `Job.Lays` names the
templates of a module, each with the scope that it was laid down for.

- `Compile.stmts_scoped`: the code of statements that stand in a scope is scoped so.
- `Job.Lays.code_scoped`: so is that of each template of a module, behind the cells that it makes.
- `laid_module`: the template of a checked module is laid down for the module's global scope.
-/
import TypedScript.Proofs.Bound.Standing
import TypedScript.Proofs.Compilation
import TypedScript.Proofs.Machine.Running

namespace TypedScript

open Compile (Job Progress)

/-- the cells of the variables of a scope, parameters first -/
def Arena.cells (a : Arena) (x : ScopeId) : List Cell :=
  ((a.get? x).map fun s => s.declared.map Variable.cell).getD []

namespace Arena

variable {a : Arena} {x y : ScopeId} {cell other : Cell}

theorem mem_cells : cell ∈ a.cells x ↔ ∃ s v, a.get? x = some s ∧ v ∈ s.declared ∧ v.cell = cell := by
  unfold cells
  cases a.get? x with
  | none => simp
  | some s => simp

/-- no two scopes have cells of one number -/
theorem eq_of_mem_cells (a : Arena) (ha : a.WellFormed) (hx : cell ∈ a.cells x) (hy : other ∈ a.cells y)
    (hid : cell.id = other.id) : x = y := by
  obtain ⟨s, v, hs, hv, rfl⟩ := mem_cells.1 hx
  obtain ⟨t, w, ht, hw, rfl⟩ := mem_cells.1 hy
  exact (ha.distinct x y s t hs ht v hv w hw hid).1

end Arena

/-- what an instruction behind the cells that a body makes may ask of the scope of the body -/
def Instruction.Reaches (a : Arena) (scope : ScopeId) : Instruction → Prop
  | .load cell | .store cell => ∃ x ∈ a.chain scope, cell ∈ a.cells x
  | .loadSelf => (a.parent? scope).isSome = true
  | .reserve _ => False
  | _ => True

/-- the template was laid down for the literal with a number, whose scope stands in another one -/
structure Compile.Job.LaysLiteral (job : Job) (scope inner : ScopeId) (id : Nat) (t : Template) : Prop where
  found : job.module.scopes.functions.find? id = some inner
  around : job.program.arena.parent? inner = some scope
  laid : ∃ body s s', (Compile.template job inner false body).run s = .ok (t, s') ∧ body.Stands job inner

/-- code that may stand in a body that runs in a scope -/
structure Compile.Job.Scoped (job : Job) (scope : ScopeId) (code : Code) : Prop where
  reaches : ∀ i ∈ code, i.Reaches job.program.arena scope
  pushes : ∀ u ∈ Template.pushed code, ∃ inner id, job.LaysLiteral scope inner id u

/-- the templates of a module, each with the scope that it was laid down for: that of the body, and those of the
literals that stand in them -/
inductive Compile.Job.Lays (job : Job) : ScopeId → Template → Prop
  | body {body : Block} {t : Template} {s : Progress} (source : job.module.module.content = .source body)
      (global : job.program.arena.isGlobal job.module.scopes.global = true)
      (laid : (Compile.template job job.module.scopes.global true body).run ⟨.empty, 0⟩ = .ok (t, s))
      (stands : body.Stands job job.module.scopes.global) : Lays job job.module.scopes.global t
  | literal {scope inner : ScopeId} {id : Nat} {t u : Template} (outer : Lays job scope t) (nested : u ∈ t.nested)
      (laid : job.LaysLiteral scope inner id u) : Lays job inner u

/-! ## Laying down code -/

namespace Compile

/-- whatever the laying down of code gives has a property -/
def Yields {α : Type} (x : Compile α) (Q : α → Prop) : Prop := ∀ s a s', x.run s = .ok (a, s') → Q a

section

variable {α β : Type} {x : Compile α} {Q : α → Prop} {R : β → Prop}

theorem yields_pure {a : α} (h : Q a) : Yields (pure a) Q := by
  intro s b s' hrun
  cases hrun
  exact h

theorem yields_throw (fault : InternalFault) : Yields (throw fault) Q := fun _ _ _ hrun => nomatch hrun

theorem Yields.bind {f : α → Compile β} (hx : Yields x Q) (hf : ∀ a, Q a → Yields (f a) R) :
    Yields (x >>= f) R := by
  intro s b s' hrun
  rw [StateT.run_bind] at hrun
  cases hxs : x.run s with
  | error fault => rw [hxs] at hrun; cases hrun
  | ok result =>
    obtain ⟨a, s₁⟩ := result
    rw [hxs] at hrun
    exact hf a (hx s a s₁ hxs) s₁ b s' hrun

theorem yields_trivial (x : Compile α) : Yields x fun _ => True := fun _ _ _ _ => trivial

end

variable {job : Job} {scope : ScopeId} {code code' : Code}

theorem parameterCells_append_localCells (job : Job) (scope : ScopeId) :
    parameterCells job scope ++ localCells job scope = job.program.arena.cells scope := by
  unfold parameterCells localCells Arena.cells
  cases job.program.arena.get? scope with
  | none => rfl
  | some s => simp only [Option.map_some, Option.getD_some, ← List.map_append, Scope.parameters_append_locals]

/-! ## Scoped code -/

namespace Job

theorem scoped_nil : job.Scoped scope [] := ⟨fun _ h => (nomatch h), fun _ h => nomatch h⟩

theorem Scoped.append (h : job.Scoped scope code) (h' : job.Scoped scope code') : job.Scoped scope (code ++ code') := by
  refine ⟨fun i hi => ?_, fun u hu => ?_⟩
  · exact (List.mem_append.1 hi).elim (h.reaches i) (h'.reaches i)
  · rw [Template.pushed_append] at hu
    exact (List.mem_append.1 hu).elim (h.pushes u) (h'.pushes u)

/-- code that pushes no templates -/
theorem scoped_of_reaches (hpushed : Template.pushed code = []) (h : ∀ i ∈ code, i.Reaches job.program.arena scope) :
    job.Scoped scope code := by
  refine ⟨h, fun u hu => ?_⟩
  rw [hpushed] at hu
  cases hu

theorem scoped_singleton {i : Instruction} (hi : i.Reaches job.program.arena scope)
    (hpushed : Template.pushed [i] = []) :
    job.Scoped scope [i] :=
  scoped_of_reaches hpushed (List.forall_mem_singleton.2 hi)

/-- an instruction behind code -/
theorem Scoped.snoc (h : job.Scoped scope code) {i : Instruction} (hi : i.Reaches job.program.arena scope)
    (hpushed : Template.pushed [i] = []) : job.Scoped scope (code ++ [i]) :=
  h.append (scoped_singleton hi hpushed)

theorem scoped_ending (isModule : Bool) : job.Scoped scope (ending isModule) := by
  refine scoped_of_reaches (Bound.pushed_ending isModule) ?_
  cases isModule <;> simp [ending, Instruction.Reaches]

end Job

/-! ## Names -/

theorem mem_cells_of_place? {a : Arena} {x : ScopeId} {name : String} {index : Nat} {cell : Cell}
    (h : place? a x name = some (index, cell)) : cell ∈ a.cells x := by
  unfold place? at h
  obtain ⟨s, hs, h⟩ := Option.bind_eq_some_iff.1 h
  obtain ⟨i, _, h⟩ := Option.bind_eq_some_iff.1 h
  obtain ⟨v, hv, h⟩ := Option.bind_eq_some_iff.1 h
  cases h
  exact Arena.mem_cells.2 ⟨s, v, hs, List.mem_of_getElem? hv, rfl⟩

theorem resolve_yields (name : String) :
    Yields (resolve job scope name) fun cell => ∃ x ∈ job.program.arena.chain scope,
    cell ∈ job.program.arena.cells x := by
  unfold resolve
  refine (yields_trivial _).bind fun s _ => ?_
  cases hfound : resolve? job.program.arena s.visible scope name with
  | none => exact yields_throw _
  | some cell =>
    refine yields_pure ?_
    unfold resolve? at hfound
    obtain ⟨x, hx, hcell⟩ := List.exists_of_findSome?_eq_some hfound
    refine ⟨x, hx, ?_⟩
    split at hcell
    · next index found hplace =>
      split at hcell
      · cases hcell
        exact mem_cells_of_place? hplace
      · cases hcell
    · cases hcell

theorem assignee_yields (target : Expr) :
    Yields (assignee job scope target) fun cell =>
      ∃ x ∈ job.program.arena.chain scope, cell ∈ job.program.arena.cells x := by
  cases target with
  | ident name span => exact resolve_yields name
  | _ => exact yields_throw _

/-! ## Expressions -/

mutual

theorem expr_scoped {e : Expr} (h : e.Stands job scope) : Yields (expr job scope e) (job.Scoped scope) := by
  cases e with
  | number value span => exact yields_pure (Job.scoped_singleton trivial rfl)
  | text value span => exact yields_pure (Job.scoped_singleton trivial rfl)
  | truth value span => exact yields_pure (Job.scoped_singleton trivial rfl)
  | ident name span => exact (resolve_yields name).bind fun cell hcell => yields_pure (Job.scoped_singleton hcell rfl)
  | self span => exact yields_pure (Job.scoped_singleton h rfl)
  | list items span =>
    exact (exprs_scoped h).bind fun code hcode => yields_pure (hcode.snoc trivial rfl)
  | function id params result body span =>
    obtain ⟨inner, hfound, haround, hbody⟩ := h
    -- the literal pushes one template, which is laid down for the scope of the literal
    have hscope : Yields (functionScope job id) (· = inner) := by
      unfold functionScope
      rw [hfound]
      exact yields_pure rfl
    unfold expr
    refine hscope.bind fun x hx s result s' hrun => ?_
    subst hx
    rw [StateT.run_bind] at hrun
    cases htemplate : (template job x false body).run s with
    | error fault => rw [htemplate] at hrun; cases hrun
    | ok made =>
      rw [htemplate] at hrun
      cases hrun
      refine ⟨fun i hi => ?_, fun u hu => ?_⟩
      · obtain rfl := List.mem_singleton.1 hi
        exact trivial
      · obtain rfl := List.mem_singleton.1 hu
        exact ⟨x, id, hfound, haround, body, s, _, htemplate, hbody⟩
  | call callee arguments span =>
    obtain ⟨hgiven, hcallee⟩ := h
    exact (exprs_scoped hgiven).bind fun _ hg => (expr_scoped hcallee).bind fun _ hf =>
      yields_pure ((hg.append hf).snoc trivial rfl)
  | assign target value span =>
    have hvalue : value.Stands job scope := h
    refine (expr_scoped hvalue).bind fun code hcode => (assignee_yields target).bind fun cell hcell => yields_pure ?_
    have hends : job.Scoped scope ([.store cell] ++ [.push .none]) :=
      .append (Job.scoped_singleton hcell rfl) (Job.scoped_singleton trivial rfl)
    exact hcode.append hends
  | binary operator left right span =>
    obtain ⟨hleft, hright⟩ := h
    exact (expr_scoped hleft).bind fun _ hl => (expr_scoped hright).bind fun _ hr => (yields_trivial _).bind fun _ _ =>
      yields_pure ((hl.append hr).snoc trivial rfl)
  | subscript target index span =>
    obtain ⟨htarget, hindex⟩ := h
    exact (expr_scoped htarget).bind fun _ ht => (expr_scoped hindex).bind fun _ hi =>
      yields_pure ((ht.append hi).snoc trivial rfl)
termination_by structural e

theorem exprs_scoped {es : List Expr} (h : Expr.StandOf job scope es) :
    Yields (exprs job scope es) (job.Scoped scope) := by
  cases es with
  | nil => exact yields_pure Job.scoped_nil
  | cons e es =>
    obtain ⟨he, hes⟩ := h
    exact (expr_scoped he).bind fun _ hhead => (exprs_scoped hes).bind fun _ htail => yields_pure (hhead.append htail)
termination_by structural es

end

/-! ## Statements -/

theorem declare_yields (hordered : job.program.arena.Ordered) (name : String) :
    Yields (declare job scope name) fun cell =>
      ∃ x ∈ job.program.arena.chain scope, cell ∈ job.program.arena.cells x := by
  unfold declare
  cases hplace : place? job.program.arena scope name with
  | none => exact yields_throw _
  | some found =>
    obtain ⟨index, cell⟩ := found
    obtain ⟨s, hs, _⟩ := Option.bind_eq_some_iff.1 hplace
    refine (yields_trivial _).bind fun _ _ => yields_pure ⟨scope, ?_, mem_cells_of_place? hplace⟩
    exact Arena.mem_chain_self hordered (Arena.lt_of_get? hs)

theorem imports_scoped (hordered : job.program.arena.Ordered) (key : String) (names : List String) :
    Yields (imports job scope key names) (job.Scoped scope) := by
  induction names with
  | nil => exact yields_pure Job.scoped_nil
  | cons name names ih =>
    unfold imports
    refine (declare_yields hordered name).bind fun cell hcell => ih.bind fun rest hrest => yields_pure ?_
    have hfetch : job.Scoped scope [.loadImport key name, .store cell] := by
      refine Job.scoped_of_reaches rfl fun i hi => ?_
      rcases List.mem_cons.1 hi with rfl | hi
      · exact trivial
      · obtain rfl := List.mem_singleton.1 hi
        exact hcell
    exact hfetch.append hrest

theorem declaration_scoped (hordered : job.program.arena.Ordered) {d : Declaration} (h : d.Stands job scope) :
    Yields (declaration job scope d) (job.Scoped scope) := by
  cases d with
  | mk name note value span =>
    exact (expr_scoped h).bind fun _ hcode => (declare_yields hordered name).bind fun _ hcell =>
      yields_pure (hcode.snoc hcell rfl)

mutual

theorem stmt_scoped (hordered : job.program.arena.Ordered) (start : Nat) {s : Stmt} (h : s.Stands job scope) :
    Yields (stmt job scope start s) (job.Scoped scope) := by
  cases s with
  | cond condition body span =>
    obtain ⟨body, bodySpan⟩ := body
    obtain ⟨hcondition, hbody⟩ := h
    refine (expr_scoped hcondition).bind fun test htest => (stmts_scoped hordered _ hbody).bind fun code hcode =>
      yields_pure ?_
    have hinside : job.Scoped scope ([.jumpIfFalse (start + test.length + 1 + code.length)] ++ code) :=
      .append (Job.scoped_singleton trivial rfl) hcode
    exact htest.append hinside
  | declare d => exact declaration_scoped hordered h
  | pub d span => exact declaration_scoped hordered h
  | giveBack value span =>
    cases value with
    | none =>
      have hnone : job.Scoped scope ([.push .none] ++ [.giveBack]) :=
        .append (Job.scoped_singleton trivial rfl) (Job.scoped_singleton trivial rfl)
      exact yields_pure hnone
    | some e =>
      have he : e.Stands job scope := h
      exact (expr_scoped he).bind fun _ hcode => yields_pure (hcode.snoc trivial rfl)
  | eval e span =>
    have hvalue := expr_scoped (e := e) h
    cases e with
    | assign target value =>
      have hassigned : value.Stands job scope := h
      exact (expr_scoped hassigned).bind fun _ hcode => (assignee_yields target).bind fun _ hcell =>
        yields_pure (hcode.snoc hcell rfl)
    | _ => exact hvalue.bind fun _ hcode => yields_pure (hcode.snoc trivial rfl)
  | use path names span => exact (yields_trivial _).bind fun dependency _ => imports_scoped hordered _ _
termination_by structural s

theorem stmts_scoped (hordered : job.program.arena.Ordered) (start : Nat) {ss : List Stmt}
    (h : Stmt.StandIn job scope ss) :
    Yields (stmts job scope start ss) (job.Scoped scope) := by
  cases ss with
  | nil => exact yields_pure Job.scoped_nil
  | cons s ss =>
    obtain ⟨hs, hss⟩ := h
    exact (stmt_scoped hordered start hs).bind fun _ hhead => (stmts_scoped hordered _ hss).bind fun _ htail =>
      yields_pure (hhead.append htail)
termination_by structural ss

end

/-- a template makes the cells of its scope's variables, behind which its code is scoped -/
theorem template_scoped (hordered : job.program.arena.Ordered) {isModule : Bool} {body : Block}
    (h : body.Stands job scope) :
    Yields (template job scope isModule body) fun t => t.parameters = parameterCells job scope ∧
      ∃ code, t.code = reservations job scope ++ code ∧ job.Scoped scope code := by
  obtain ⟨body, span⟩ := body
  refine (yields_trivial _).bind fun id _ => (yields_trivial _).bind fun _ _ =>
    (stmts_scoped hordered _ h).bind fun code hcode => yields_pure ⟨rfl, code ++ ending isModule, ?_, ?_⟩
  · exact List.append_assoc _ _ _
  · exact hcode.append (Job.scoped_ending isModule)

end Compile

/-! ## Templates -/

namespace Compile.Job.Lays

variable {job : Job} {scope : ScopeId} {t u : Template}

theorem code_scoped (h : job.Lays scope t) (hordered : job.program.arena.Ordered) :
    t.parameters = Compile.parameterCells job scope ∧
      ∃ code, t.code = Compile.reservations job scope ++ code ∧ job.Scoped scope code := by
  cases h with
  | body source global laid stands => exact Compile.template_scoped hordered stands _ _ _ laid
  | literal outer nested laid =>
    obtain ⟨body, s, s', hrun, hstands⟩ := laid.laid
    exact Compile.template_scoped hordered hstands _ _ _ hrun

/-- a template that is nested in one of a scope was laid down for a scope inside of that scope -/
theorem nested (h : job.Lays scope t) (hordered : job.program.arena.Ordered) (hu : u ∈ t.nested) :
    ∃ inner, job.program.arena.parent? inner = some scope ∧ job.Lays inner u := by
  obtain ⟨_, code, hcode, hscoped⟩ := h.code_scoped hordered
  have hpushed : u ∈ Template.pushed code := by
    unfold Template.nested at hu
    rw [hcode, Template.pushed_append, Compile.reservations_eq, Bound.pushed_reserves] at hu
    exact hu
  obtain ⟨inner, id, hlaid⟩ := hscoped.pushes u hpushed
  exact ⟨inner, hlaid.around, .literal h hu hlaid⟩

theorem exists_function (h : job.Lays scope t) : ∃ (isModule : Bool) (f : Bound.Function), t = f.template isModule := by
  cases h with
  | body source global laid stands =>
    obtain ⟨f, rfl⟩ := Compile.exists_function laid
    exact ⟨true, f, rfl⟩
  | literal outer nested laid =>
    obtain ⟨body, s, s', hrun, _⟩ := laid.laid
    obtain ⟨f, rfl⟩ := Compile.exists_function hrun
    exact ⟨false, f, rfl⟩

theorem lt (h : job.Lays scope t) : scope < job.program.arena.scopes.size := by
  cases h with
  | body source global laid stands => exact Arena.lt_of_isGlobal global
  | literal outer nested laid =>
    obtain ⟨s, _, hs, _⟩ := Arena.parent?_eq_some_iff.1 laid.around
    exact Arena.lt_of_get? hs

/-- the outermost scope around a template's scope is that of the module -/
theorem root (h : job.Lays scope t) (hordered : job.program.arena.Ordered) :
    job.program.arena.root scope = job.module.scopes.global := by
  induction h with
  | body source global laid stands => exact Arena.root_of_isGlobal hordered global
  | literal outer nested laid ih => rw [Arena.root_of_parent? hordered laid.around, ih]

end Compile.Job.Lays

/-! ## Programs -/

section

variable {natives : List NativeModule} {g : Graph} {p : Program} {m : LinkedModule} {t : Template}

theorem Program.compileModule_of_mem_zip {templates : List (Option Template)} {t : Option Template}
    (hcompile : p.compile = .ok templates) (h : (m, t) ∈ p.modules.zip templates) : p.compileModule m = .ok t :=
  (List.forall₂_iff_zip.1 (forall₂_of_mapM hcompile)).2 h

/-- the template of a module of a checked program is laid down for the module's global scope, which has no parameters -/
theorem laid_module (hbuilt : g.Built natives) (hlink : link g = .ok p) (hclean : p.hasErrors = false)
    (hm : m ∈ p.modules) (ht : p.compileModule m = .ok (some t)) :
    Job.Lays ⟨p, m⟩ m.scopes.global t ∧ Compile.parameterCells ⟨p, m⟩ m.scopes.global = [] ∧
      p.arena.isGlobal m.scopes.global = true := by
  obtain ⟨_, hgood⟩ := linked_good hlink
  obtain ⟨k, hk, rfl⟩ := List.getElem_of_mem hm
  have hk' : k < g.trees.length := hgood.length ▸ hk
  have hchecked := hgood.checked k _ _ (List.getElem?_eq_getElem hk) (List.getElem?_eq_getElem hk')
  obtain ⟨body, s, hsource, hrun⟩ := Program.compileModule_some ht
  obtain ⟨native, hcontent, _⟩ | ⟨body', bs, d, hcontent, hnodup, hd, _⟩ :=
    clean_module (linked_made hbuilt hlink hm) (diagnostics_of_hasErrors hclean hm) hchecked
  · rw [hcontent] at hsource
    cases hsource
  · obtain rfl : body = body' := ModuleContent.source.inj (hsource.symm.trans hcontent)
    obtain ⟨scope, hscope, hparameters, _⟩ := hd.global_scope
    obtain ⟨_, hstands⟩ := hd.accepts.stands hd.here
    refine ⟨.body hsource hchecked.global hrun ?_, ?_, hchecked.global⟩
    · obtain ⟨body, span⟩ := body
      rw [hd.scopes]
      exact hstands (hd.final _) hnodup
    · unfold Compile.parameterCells
      rw [hscope, Option.map_some, Option.getD_some, hparameters]
      rfl

end

end TypedScript
