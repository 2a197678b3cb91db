/-
The code of bodies. For each name that an import declares there is an instruction that fetches the export, which stands
among the exports of a module that the importing module has a link to, and behind it one that stores what was fetched.
The code of a module's body has no way out but its end, and whatever a statement directly in the body has code for
stands at a place that no jump leads beyond.

- `Job.Lays.fetches`: what is fetched in the templates of a module, and where it goes.
- `Compile.bindStmts_use`: for which names an import has such code.
- `Bound.Function.certain`: which instructions an activation of a body comes to.
- `Check.AcceptsStmts.stays`: accepted statements outside of functions do not leave their body.
- `bodyCode`: all this of the source modules of a checked program.
-/
import TypedScript.Proofs.Bound.Heights
import TypedScript.Proofs.Bound.Scoped
import TypedScript.Proofs.Direct.TypedModules

namespace TypedScript

open Compile (Job)

/-! ## Code of expressions -/

/-- what code of expressions is made of: nothing that leaves the body, jumps, makes a cell or fetches an export -/
def Instruction.Simple : Instruction → Prop
  | .halt | .giveBack | .reserve _ | .jumpIfFalse _ | .loadImport _ _ => False
  | _ => True

theorem Instruction.forall_append {P : Instruction → Prop} {code code' : Code} (h : ∀ i ∈ code, P i)
    (h' : ∀ i ∈ code', P i) : ∀ i ∈ code ++ code', P i :=
  fun i hi => (List.mem_append.1 hi).elim (h i) (h' i)

open Instruction (forall_append)

namespace Bound

mutual

theorem Expr.simple (e : Expr) : ∀ i ∈ e.code, i.Simple := by
  cases e with
  | list items => exact forall_append (Expr.simpleOf items) (List.forall_mem_singleton.2 trivial)
  | call callee arguments =>
    exact forall_append (forall_append (Expr.simpleOf arguments) callee.simple) (List.forall_mem_singleton.2 trivial)
  | assign cell value =>
    exact forall_append value.simple (List.forall_mem_cons.2 ⟨trivial, List.forall_mem_singleton.2 trivial⟩)
  | binary op left right =>
    exact forall_append (forall_append left.simple right.simple) (List.forall_mem_singleton.2 trivial)
  | subscript target index =>
    exact forall_append (forall_append target.simple index.simple) (List.forall_mem_singleton.2 trivial)
  | _ => exact List.forall_mem_singleton.2 trivial
termination_by structural e

theorem Expr.simpleOf (es : List Expr) : ∀ i ∈ Expr.codeOf es, i.Simple := by
  cases es with
  | nil => exact fun _ h => nomatch h
  | cons e es => exact forall_append e.simple (Expr.simpleOf es)
termination_by structural es

end

theorem Stmt.simple_eval (e : Expr) (start : Nat) : ∀ i ∈ (Stmt.eval e).code start, i.Simple := by
  have hdrop : ∀ i ∈ e.code ++ [Instruction.pop], i.Simple :=
    forall_append e.simple (List.forall_mem_singleton.2 trivial)
  cases e with
  | assign cell value => exact forall_append value.simple (List.forall_mem_singleton.2 trivial)
  | _ => exact hdrop

theorem Stmt.simple_declare (cell : Cell) (value : Expr) (start : Nat) :
    ∀ i ∈ (Stmt.declare cell value).code start, i.Simple :=
  forall_append value.simple (List.forall_mem_singleton.2 trivial)

end Bound

/-! ## What is fetched -/

/-- a module that the job's module has a link to exports the name -/
def Compile.Job.Supplies (job : Job) (key name : String) : Prop :=
  ∃ path place dependency, job.module.links.find? path = some place ∧ job.program.modules[place]? = some dependency ∧
    dependency.module.key = key ∧ name ∈ (job.program.arena.exports dependency.scopes.global).map Prod.fst

/-- code that fetches only what is supplied, each export into the variable of its name in a scope -/
def Compile.Job.Fetches (job : Job) (scope : ScopeId) (code : Code) : Prop :=
  ∀ k key name, code[k]? = some (.loadImport key name) → job.Supplies key name ∧
    ∃ s v, job.program.arena.get? scope = some s ∧ s.find? name = some v ∧ code[k + 1]? = some (.store v.cell)

namespace Compile

variable {job : Job} {scope : ScopeId} {code code' : Code}

namespace Job

theorem fetches_of_simple (h : ∀ i ∈ code, i.Simple) : job.Fetches scope code :=
  fun _ _ _ hk => (h _ (List.mem_of_getElem? hk)).elim

theorem fetches_single {i : Instruction} (h : ∀ key name, i ≠ .loadImport key name) : job.Fetches scope [i] :=
  fun _ key name hk => absurd (List.mem_singleton.1 (List.mem_of_getElem? hk)).symm (h key name)

theorem Fetches.append (h : job.Fetches scope code) (h' : job.Fetches scope code') :
    job.Fetches scope (code ++ code') := by
  intro k key name hk
  by_cases hlt : k < code.length
  · rw [List.getElem?_append_left hlt] at hk
    obtain ⟨hsupplies, s, v, hs, hv, hstore⟩ := h k key name hk
    obtain ⟨hnext, _⟩ := List.getElem?_eq_some_iff.1 hstore
    exact ⟨hsupplies, s, v, hs, hv, by rw [List.getElem?_append_left hnext, hstore]⟩
  · have hle := Nat.le_of_not_lt hlt
    rw [List.getElem?_append_right hle] at hk
    obtain ⟨hsupplies, s, v, hs, hv, hstore⟩ := h' _ key name hk
    refine ⟨hsupplies, s, v, hs, hv, ?_⟩
    rw [List.getElem?_append_right (Nat.le_add_right_of_le hle), Nat.sub_add_comm hle, hstore]

end Job

theorem place?_eq_some {a : Arena} {x : ScopeId} {name : String} {index : Nat} {cell : Cell}
    (h : place? a x name = some (index, cell)) : ∃ s v, a.get? x = some s ∧ s.find? name = some v ∧ v.cell = cell := by
  unfold place? at h
  obtain ⟨s, hs, h⟩ := Option.bind_eq_some_iff.1 h
  obtain ⟨i, hi, h⟩ := Option.bind_eq_some_iff.1 h
  obtain ⟨v, hv, h⟩ := Option.bind_eq_some_iff.1 h
  cases h
  refine ⟨s, v, hs, ?_, rfl⟩
  rw [← Scope.variableIndex?_bind, hi]
  exact hv

theorem declare_names (name : String) :
    Yields (declare job scope name) fun cell =>
      ∃ s v, job.program.arena.get? scope = some s ∧ s.find? name = some v ∧ v.cell = cell := by
  unfold declare
  cases hplace : place? job.program.arena scope name with
  | none => exact yields_throw _
  | some found => exact (yields_trivial _).bind fun _ _ => yields_pure (place?_eq_some hplace)

theorem linkedModule_yields (path : String) :
    Yields (linkedModule job path) fun dependency =>
      ∃ place, job.module.links.find? path = some place ∧ job.program.modules[place]? = some dependency := by
  unfold linkedModule
  cases hfound : (job.module.links.find? path).bind fun i => job.program.modules[i]? with
  | none => exact yields_throw _
  | some dependency => exact yields_pure (Option.bind_eq_some_iff.1 hfound)

/-- an import asks only for what is exported -/
theorem mem_importedNames {exports : List (String × Ty)} {names : Option (List String)} {name : String}
    (h : name ∈ importedNames exports names) : name ∈ exports.map Prod.fst := by
  cases names with
  | none => exact h
  | some names =>
    obtain ⟨e, he, hname⟩ := List.any_eq_true.1 (List.mem_filter.1 h).2
    exact List.mem_map.2 ⟨e, he, by simpa using hname⟩

theorem imports_fetches {key : String} {names : List String} (h : ∀ name ∈ names, job.Supplies key name) :
    Yields (imports job scope key names) (job.Fetches scope) := by
  induction names with
  | nil => exact yields_pure (Job.fetches_of_simple fun _ hi => absurd hi List.not_mem_nil)
  | cons name names ih =>
    obtain ⟨hname, hnames⟩ := List.forall_mem_cons.1 h
    unfold imports
    refine (declare_names name).bind fun cell hdeclared => (ih hnames).bind fun rest hrest => yields_pure ?_
    obtain ⟨s, v, hs, hv, hcell⟩ := hdeclared
    have hfetch : job.Fetches scope [.loadImport key name, .store cell] := by
      intro k key' name' hk
      cases k with
      | zero =>
        cases hk
        exact ⟨hname, s, v, hs, hv, by rw [hcell]; rfl⟩
      | succ k =>
        have hstore := List.mem_singleton.1 (List.mem_of_getElem? hk)
        cases hstore
    exact hfetch.append hrest

theorem expr_fetches (e : Expr) : Yields (expr job scope e) (job.Fetches scope) := by
  rw [expr_eq, map_eq_pure_bind]
  exact (yields_trivial _).bind fun b _ => yields_pure (Job.fetches_of_simple b.simple)

theorem declaration_fetches (d : Declaration) : Yields (declaration job scope d) (job.Fetches scope) := by
  cases d with
  | mk name note value span =>
    exact (expr_fetches value).bind fun _ hcode => (yields_trivial _).bind fun _ _ =>
      yields_pure (hcode.append (Job.fetches_single fun _ _ h => nomatch h))

mutual

theorem stmt_fetches (start : Nat) (s : Stmt) : Yields (stmt job scope start s) (job.Fetches scope) := by
  cases s with
  | cond condition body span =>
    obtain ⟨body, bodySpan⟩ := body
    refine (expr_fetches condition).bind fun test htest => (stmts_fetches _ body).bind fun code hcode => yields_pure ?_
    have hinside : job.Fetches scope ([.jumpIfFalse (start + test.length + 1 + code.length)] ++ code) :=
      .append (Job.fetches_single fun _ _ h => nomatch h) hcode
    exact htest.append hinside
  | declare d => exact declaration_fetches d
  | pub d span => exact declaration_fetches d
  | giveBack value span =>
    cases value with
    | none =>
      have hpush : job.Fetches scope [.push .none] := Job.fetches_single fun _ _ h => nomatch h
      exact yields_pure (hpush.append (Job.fetches_single fun _ _ h => nomatch h))
    | some e =>
      exact (expr_fetches e).bind fun _ hcode => yields_pure (hcode.append (Job.fetches_single fun _ _ h => nomatch h))
  | eval e span =>
    have hvalue : Yields (expr job scope e) (job.Fetches scope) := expr_fetches e
    cases e with
    | assign target value =>
      exact (expr_fetches value).bind fun _ hcode => (yields_trivial _).bind fun _ _ =>
        yields_pure (hcode.append (Job.fetches_single fun _ _ h => nomatch h))
    | _ => exact hvalue.bind fun _ hcode => yields_pure (hcode.append (Job.fetches_single fun _ _ h => nomatch h))
  | use path names span =>
    refine (linkedModule_yields path).bind fun dependency ⟨place, hlink, hplace⟩ => imports_fetches fun name hname => ?_
    exact ⟨path, place, dependency, hlink, hplace, rfl, mem_importedNames hname⟩
termination_by structural s

theorem stmts_fetches (start : Nat) (ss : List Stmt) : Yields (stmts job scope start ss) (job.Fetches scope) := by
  cases ss with
  | nil => exact yields_pure fun _ _ _ hk => nomatch hk
  | cons s ss =>
    exact (stmt_fetches start s).bind fun _ hhead => (stmts_fetches _ ss).bind fun _ htail =>
      yields_pure (hhead.append htail)
termination_by structural ss

end

theorem template_fetches (isModule : Bool) (body : Block) :
    Yields (template job scope isModule body) fun t => job.Fetches scope t.code := by
  obtain ⟨body, span⟩ := body
  refine (yields_trivial _).bind fun id _ => (yields_trivial _).bind fun _ _ =>
    (stmts_fetches _ body).bind fun code hcode => yields_pure (.append (.append ?_ hcode) ?_)
  · rw [reservations_eq]
    intro k key name hk
    obtain ⟨cell, _, heq⟩ := List.mem_map.1 (List.mem_of_getElem? hk)
    cases heq
  · intro k key name hk
    have hmem := List.mem_of_getElem? hk
    cases isModule <;> simp [ending] at hmem

/-- each template of a module fetches only what is supplied -/
theorem Job.Lays.fetches {t : Template} (h : job.Lays scope t) : job.Fetches scope t.code := by
  cases h with
  | body source global laid stands => exact template_fetches _ _ _ _ _ laid
  | literal outer nested laid =>
    obtain ⟨body, s, s', hrun, _⟩ := laid.laid
    exact template_fetches _ _ _ _ _ hrun

/-! ## Imports in a body -/

theorem bindImports_names (names : List String) :
    Yields (bindImports job scope names) fun cells => cells.map Prod.fst = names := by
  induction names with
  | nil => exact yields_pure rfl
  | cons name names ih =>
    exact (yields_trivial _).bind fun cell _ => ih.bind fun rest hrest => yields_pure (congrArg (name :: ·) hrest)

/-- an import directly in a body is bound to one of all names that it asks for and gets -/
theorem bindStmts_use {path : String} {names : Option (List String)} {span : Span} {ss : List Stmt}
    (h : .use path names span ∈ ss) :
    Yields (bindStmts job scope ss) fun bs => ∃ place dependency cells, job.module.links.find? path = some place ∧
      job.program.modules[place]? = some dependency ∧ .use dependency.module.key cells ∈ bs ∧
      cells.map Prod.fst = importedNames (job.program.arena.exports dependency.scopes.global) names := by
  induction ss with
  | nil => cases h
  | cons s ss ih =>
    rcases List.mem_cons.1 h with rfl | h
    · refine Yields.bind (Q := fun b => ∃ place dependency cells, job.module.links.find? path = some place ∧
        job.program.modules[place]? = some dependency ∧ b = .use dependency.module.key cells ∧
        cells.map Prod.fst = importedNames (job.program.arena.exports dependency.scopes.global) names) ?_ ?_
      · refine (linkedModule_yields path).bind fun dependency ⟨place, hlink, hplace⟩ => ?_
        exact (bindImports_names _).bind fun cells hcells =>
          yields_pure ⟨place, dependency, cells, hlink, hplace, rfl, hcells⟩
      · rintro b ⟨place, dependency, cells, hlink, hplace, rfl, hcells⟩
        exact (yields_trivial _).bind fun rest _ =>
          yields_pure ⟨place, dependency, cells, hlink, hplace, List.mem_cons_self, hcells⟩
    · refine (yields_trivial _).bind fun b _ => (ih h).bind fun rest hrest => yields_pure ?_
      obtain ⟨place, dependency, cells, hlink, hplace, hmem, hcells⟩ := hrest
      exact ⟨place, dependency, cells, hlink, hplace, List.mem_cons_of_mem b hmem, hcells⟩

end Compile

/-! ## Places in a body -/

/-- an instruction that an activation of a body comes to before it ends -/
def Code.Certain (code : Code) (i : Instruction) : Prop :=
  ∃ place, code[place]? = some i ∧ place + 1 < code.length ∧ code.Unskipped place

namespace Bound

theorem mem_fetches {module name : String} {cell : Cell} {names : List (String × Cell)} (h : (name, cell) ∈ names) :
    .loadImport module name ∈ fetches module names ∧ .store cell ∈ fetches module names := by
  induction names with
  | nil => cases h
  | cons n names ih =>
    rcases List.mem_cons.1 h with rfl | h
    · exact ⟨List.mem_cons_self, List.mem_cons_of_mem _ List.mem_cons_self⟩
    · obtain ⟨hload, hstore⟩ := ih h
      exact ⟨List.mem_cons_of_mem _ (List.mem_cons_of_mem _ hload),
        List.mem_cons_of_mem _ (List.mem_cons_of_mem _ hstore)⟩

/-- an activation of a body comes to each instruction of a statement directly in the body whose code has no jumps -/
theorem Function.certain {f : Function} {s : Stmt} {x : Instruction} (hs : s ∈ f.body)
    (hstraight : ∀ start, Code.Straight (s.code start)) (hx : ∀ start, x ∈ s.code start) (isModule : Bool) :
    Code.Certain (f.template isModule).code x := by
  obtain ⟨number, signature, params, locals, body⟩ := f
  obtain ⟨before, behind, rfl⟩ := List.append_of_mem hs
  have hfront : Code.Leads 0 (front locals before) := by
    refine ((Code.straight_reserves locals).leads 0).append ?_
    rw [List.length_map, Nat.zero_add]
    exact Stmt.leadsOf _ before
  obtain ⟨k, hk, hkx⟩ := List.getElem_of_mem (hx (front locals before).length)
  have hending : 0 < (Compile.ending isModule).length := by cases isModule <;> exact Nat.succ_pos _
  rw [Function.code_around]
  refine ⟨(front locals before).length + k, ?_, ?_, fun i target hi hjump => ?_⟩
  · rw [List.getElem?_append_right (Nat.le_add_right _ _), Nat.add_sub_cancel_left, List.getElem?_append_left hk,
      List.getElem?_eq_getElem hk, hkx]
  · simp only [List.length_append]
    omega
  · by_cases hlt : i < (front locals before).length
    · rw [List.getElem?_append_left hlt] at hjump
      have hleads := (hfront.jumps i target hjump).2
      omega
    · have hle := Nat.le_of_not_lt hlt
      rw [List.getElem?_append_right hle, List.getElem?_append_left (by omega)] at hjump
      exact absurd (List.mem_of_getElem? hjump) ((hstraight (front locals before).length).jumps target)

/-- a variable that a statement directly in a body is sure to give a value is given it -/
theorem Function.certain_store {f : Function} {cell : Cell} (h : cell ∈ Stmt.assignedIn f.body) (isModule : Bool) :
    Code.Certain (f.template isModule).code (.store cell) := by
  obtain ⟨s, hs, hcell⟩ : ∃ s ∈ f.body, cell ∈ s.assigned := by
    generalize f.body = ss at h
    induction ss with
    | nil => cases h
    | cons s ss ih =>
      rcases List.mem_append.1 h with h | h
      · exact ⟨s, List.mem_cons_self, h⟩
      · obtain ⟨s', hs', hcell⟩ := ih h
        exact ⟨s', List.mem_cons_of_mem _ hs', hcell⟩
  cases s with
  | declare other value =>
    obtain rfl := List.mem_singleton.1 hcell
    exact Function.certain hs (fun _ => value.straight.append (Code.straight_single (by simp) (by simp)))
      (fun _ => List.mem_append_right _ (List.mem_singleton_self _)) isModule
  | use module names =>
    obtain ⟨n, hn, rfl⟩ := List.mem_map.1 hcell
    exact Function.certain hs (fun _ => Code.straight_fetches module names) (fun _ => (mem_fetches hn).2) isModule
  | _ => cases hcell

end Bound

/-! ## Bodies of modules -/

namespace Check

variable {keyOf : String → Option String} {F : Arena}

/-- an instruction after which the body goes on -/
def Stays (i : Instruction) : Prop := i ≠ .halt ∧ i ≠ .giveBack

theorem stays_of_simple {code : Code} (h : ∀ i ∈ code, i.Simple) : ∀ i ∈ code, Stays i := by
  intro i hi
  have hsimple := h i hi
  refine ⟨?_, ?_⟩
  · rintro rfl
    exact hsimple
  · rintro rfl
    exact hsimple

/-- a return stands only in a function, where nothing was found wrong -/
theorem giveBack_signature {p : Place} {r : Record} {value : Option (Ty × Span)} {span : Span} (hr : Ready p r)
    (hend : Finished F p.global r) (h : giveBack p value span r = ((), r)) : r.arena.signature? p.scope ≠ none := by
  obtain ⟨signature, hsignature, _⟩ := (sound_giveBack value span).result hr (hend.cleanNow hr) h
  rw [hsignature]
  exact Option.some_ne_none signature

mutual

theorem AcceptsStmt.stays {p : Place} {s : Stmt} {b : Bound.Stmt} {r r' : Record} (h : AcceptsStmt keyOf p r s b r')
    (hkeyed : Keyed keyOf p.imports) (hr : Ready p r) (hend : Finished F p.global r')
    (hmodule : r.arena.signature? p.scope = none) (start : Nat) : ∀ i ∈ b.code start, Stays i := by
  cases s with
  | cond condition body span =>
    cases body with
    | mk body bodySpan =>
      cases h with
      | @cond _ _ between _ _ _ ty b bs _ _ test used fits inside =>
        have he := test.effect hr.scope
        have hr' := test.ready hkeyed hr
        have hmodule' : between.arena.signature? p.scope = none := by rw [he.later.signature? hr.scope, hmodule]
        refine forall_append (stays_of_simple b.simple) (List.forall_mem_cons.2 ⟨⟨nofun, nofun⟩, ?_⟩)
        exact inside.stays hkeyed hr'.conditional hend hmodule' _
  | declare d =>
    cases h with
    | declare declared => exact stays_of_simple (Bound.Stmt.simple_declare _ _ start)
  | giveBack value span =>
    cases value with
    | none =>
      cases h with
      | giveNothing _ fits => exact absurd hmodule (giveBack_signature hr hend fits)
    | some e =>
      cases h with
      | giveBack _ given used fits =>
        refine absurd ?_ (giveBack_signature (given.ready hkeyed hr) hend fits)
        rw [(given.effect hr.scope).later.signature? hr.scope, hmodule]
  | eval e span =>
    cases h with
    | eval _ evaluated => exact stays_of_simple (Bound.Stmt.simple_eval _ start)
  | pub d span =>
    cases h with
    | pub _ top declared exported => exact stays_of_simple (Bound.Stmt.simple_declare _ _ start)
  | use path names span =>
    cases h with
    | @use _ _ _ _ key _ _ cells _ top linked named found imports =>
      have hfetches (names : List (String × Cell)) : ∀ i ∈ Bound.fetches key names, Stays i := by
        induction names with
        | nil => exact fun _ h => nomatch h
        | cons n names ih => exact List.forall_mem_cons.2 ⟨⟨nofun, nofun⟩, List.forall_mem_cons.2 ⟨⟨nofun, nofun⟩, ih⟩⟩
      exact hfetches cells
termination_by structural s

theorem AcceptsStmts.stays {p : Place} {ss : List Stmt} {bs : List Bound.Stmt} {r r' : Record}
    (h : AcceptsStmts keyOf p r ss bs r') (hkeyed : Keyed keyOf p.imports) (hr : Ready p r)
    (hend : Finished F p.global r') (hmodule : r.arena.signature? p.scope = none) (start : Nat) :
    ∀ i ∈ Bound.Stmt.codeOf start bs, Stays i := by
  cases ss with
  | nil => cases h; exact fun _ h => nomatch h
  | cons s ss =>
    cases h with
    | @cons _ _ between _ _ _ b bs head tail =>
      have he := head.effect hr.scope
      have hr' := head.ready hkeyed hr
      have hmodule' : between.arena.signature? p.scope = none := by rw [he.later.signature? hr.scope, hmodule]
      have hend' := hend.before (tail.effect hr'.scope).later
      exact forall_append (head.stays hkeyed hr hend' hmodule start) (tail.stays hkeyed hr' hend hmodule' _)
termination_by structural ss

end

end Check

/-- the code of a source module of a program: its body is laid down for its global scope, ends at its end and gives each
exported variable a value, and what the module imports directly in its body is fetched -/
structure Program.BodyCode (p : Program) (m : LinkedModule) (t : Template) : Prop where
  laid : Job.Lays ⟨p, m⟩ m.scopes.global t
  parameters : Compile.parameterCells ⟨p, m⟩ m.scopes.global = []
  global : p.arena.isGlobal m.scopes.global = true
  ends : ∃ code, t.code = code ++ [.halt] ∧ ∀ i ∈ code, Check.Stays i
  exported : ∀ e ∈ p.arena.exports m.scopes.global, ∃ s v, p.arena.get? m.scopes.global = some s ∧
    s.find? e.1 = some v ∧ Code.Certain t.code (.store v.cell)
  imported : ∀ body path names span, m.module.content = .source body → .use path names span ∈ body.body →
    ∃ place dependency, m.links.find? path = some place ∧ p.modules[place]? = some dependency ∧
      ∀ name ∈ Compile.importedNames (p.arena.exports dependency.scopes.global) names,
        Code.Certain t.code (.loadImport dependency.module.key name)

namespace Derived

variable {p : Program} {k : Nat} {m : LinkedModule} {body : Block} {bs : List Bound.Stmt} {d : Derivation}

/-- the code of an accepted module does not leave its body -/
theorem stays (hd : Derived p k m body bs d) (hp : p.arena.WellFormed)
    (hclean : p.arena.diagnostics m.scopes.global = []) (start : Nat) :
    ∀ i ∈ Bound.Stmt.codeOf start bs, Check.Stays i := by
  rw [hd.global_eq] at hclean
  exact hd.accepts.stays hd.keyed (Check.ready_start hd.wellFormed d.imports) ⟨hp, hd.extension.later, hclean⟩
    (Check.signature?_start d.arena) start

/-- the variables that an accepted module exports are given their values -/
theorem certain_export (hd : Derived p k m body bs d) (hp : p.arena.WellFormed) {e : String × Ty}
    (he : e ∈ p.arena.exports m.scopes.global) :
    ∃ s v, p.arena.get? m.scopes.global = some s ∧ s.find? e.1 = some v ∧ Code.Certain
      (Bound.Function.template true ⟨0, Bound.moduleSignature, [], Bound.Stmt.declaredIn bs, bs⟩).code
      (.store v.cell) := by
  obtain ⟨cell, hcell⟩ := Program.exists_exported hp (hp.export? he)
  obtain ⟨s, v, hs, hv, rfl, _⟩ := Program.exported_type hp hcell
  refine ⟨s, v, hs, hv, Bound.Function.certain_store ?_ true⟩
  exact hd.exported_assigned hp _ hcell

/-- what an accepted module imports directly in its body is fetched -/
theorem certain_import (hd : Derived p k m body bs d) (hnodup : (literalIds body.nodes).Nodup) {path : String}
    {names : Option (List String)} {span : Span} (huse : .use path names span ∈ body.body) :
    ∃ place dependency, m.links.find? path = some place ∧ p.modules[place]? = some dependency ∧
      ∀ name ∈ Compile.importedNames (p.arena.exports dependency.scopes.global) names, Code.Certain
        (Bound.Function.template true ⟨0, Bound.moduleSignature, [], Bound.Stmt.declaredIn bs, bs⟩).code
        (.loadImport dependency.module.key name) := by
  obtain ⟨s, hbind⟩ := hd.bindBody_run hnodup
  obtain ⟨body, bodySpan⟩ := body
  have hall : Compile.Yields (Compile.bindBody ⟨p, m⟩ m.scopes.global Bound.moduleSignature ⟨body, bodySpan⟩) fun f =>
      ∃ place dependency cells, m.links.find? path = some place ∧ p.modules[place]? = some dependency ∧
        .use dependency.module.key cells ∈ f.body ∧
        cells.map Prod.fst = Compile.importedNames (p.arena.exports dependency.scopes.global) names :=
    (Compile.yields_trivial _).bind fun _ _ => (Compile.yields_trivial _).bind fun _ _ =>
      (Compile.bindStmts_use huse).bind fun _ hbs => Compile.yields_pure hbs
  obtain ⟨place, dependency, cells, hfind, hplace, hmem, hnames⟩ := hall _ _ _ hbind
  refine ⟨place, dependency, hfind, hplace, fun name hname => ?_⟩
  rw [← hnames] at hname
  obtain ⟨n, hn, rfl⟩ := List.mem_map.1 hname
  exact Bound.Function.certain hmem (fun _ => Code.straight_fetches dependency.module.key cells)
    (fun _ => (Bound.mem_fetches hn).1) true

end Derived

theorem bodyCode {natives : List NativeModule} {g : Graph} {p : Program} {m : LinkedModule} {t : Template}
    (hbuilt : g.Built natives) (hlink : link g = .ok p) (hclean : p.hasErrors = false) (hm : m ∈ p.modules)
    (ht : p.compileModule m = .ok (some t)) : p.BodyCode m t := by
  obtain ⟨hlaid, hparameters, hglobal⟩ := laid_module hbuilt hlink hclean hm ht
  obtain ⟨_, hgood⟩ := linked_good hlink
  have hp := hgood.wellFormed
  obtain ⟨k, hk, rfl⟩ := List.getElem_of_mem hm
  have hchecked := hgood.checked k _ _ (List.getElem?_eq_getElem hk) (List.getElem?_eq_getElem (hgood.length ▸ hk))
  have hdiagnostics := diagnostics_of_hasErrors hclean hm
  obtain ⟨native, hcontent, _⟩ | ⟨body, bs, d, hcontent, hnodup, hd, _⟩ :=
    clean_module (linked_made hbuilt hlink hm) hdiagnostics hchecked
  · obtain ⟨_, _, hsource, _⟩ := Program.compileModule_some ht
    rw [hcontent] at hsource
    cases hsource
  obtain rfl : Bound.Function.template true ⟨0, Bound.moduleSignature, [], Bound.Stmt.declaredIn bs, bs⟩ = t :=
    Option.some.inj (Except.ok.inj ((hd.compileModule hcontent hnodup).symm.trans ht))
  refine ⟨hlaid, hparameters, hglobal,
    ⟨_, rfl, Instruction.forall_append (fun i hi => ?_) (hd.stays hp hdiagnostics _)⟩,
    fun e he => hd.certain_export hp he, fun body' path names span hsource huse => ?_⟩
  · obtain ⟨cell, _, rfl⟩ := List.mem_map.1 hi
    exact ⟨nofun, nofun⟩
  · obtain rfl : body = body' := ModuleContent.source.inj (hcontent.symm.trans hsource)
    exact hd.certain_import hnodup huse

end TypedScript
