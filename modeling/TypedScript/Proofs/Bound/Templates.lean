/-
The templates of a module. Code is laid down for literals in the order of evaluation. Each literal gets a template of
its own, which takes the next number before those of the literals in it, so that a template and all those nested in it
have numbers that follow one another. A template makes a cell for each variable of its scope that is no parameter, and
none behind these.

- `Template.all`: a template and all those nested in it.
- `Compile.stmts_numbers`: what is laid down for statements and the literals in them.
- `Compile.template_numbers`: and for a body.
-/
import TypedScript.Proofs.Bound.Scoped
import TypedScript.Proofs.Tree.Literals

namespace TypedScript

open Compile (Job Progress)

namespace Template

/-! ## Nested templates -/

mutual

/-- a template and then every nested one, each before those nested in it -/
def all : Template → List Template
  | ⟨id, parameters, code⟩ => ⟨id, parameters, code⟩ :: allPushed code

/-- the templates pushed by code, each with those nested in it -/
def allPushed : List Instruction → List Template
  | [] => []
  | i :: code => allIn i ++ allPushed code

def allIn : Instruction → List Template
  | .push constant => allOf constant
  | _ => []

def allOf : Constant → List Template
  | .function template => all template
  | _ => []

end

theorem all_eq (t : Template) : t.all = t :: allPushed t.code := by
  cases t with
  | mk id parameters code => rw [all]

theorem allPushed_eq (code : Code) : allPushed code = (pushed code).flatMap all := by
  induction code with
  | nil => rfl
  | cons i code ih =>
    rw [allPushed, ih]
    cases i with
    | push constant => cases constant <;> rfl
    | _ => rfl

theorem allPushed_append (code code' : Code) : allPushed (code ++ code') = allPushed code ++ allPushed code' := by
  rw [allPushed_eq, allPushed_eq, allPushed_eq, pushed_append, List.flatMap_append]

/-- code that pushes no templates -/
theorem allPushed_of_pushed {code : Code} (h : pushed code = []) : allPushed code = [] := by
  rw [allPushed_eq, h, List.flatMap_nil]

/-- the template has the parameters, and its code makes the cells of the locals and then no more -/
def Reserves (t : Template) (parameters locals : List Cell) : Prop :=
  t.parameters = parameters ∧ ∃ rest, t.code = locals.map .reserve ++ rest ∧ ∀ cell, .reserve cell ∉ rest

end Template

/-- the template was laid down for a literal, in the scope that the literal has -/
def Literal.HasTemplate (l : Literal) (job : Job) (t : Template) : Prop :=
  ∃ scope before after, job.module.scopes.functions.find? l.number = some scope ∧
    (Compile.template job scope false l.body).run before = .ok (t, after) ∧
    t.Reserves (Compile.parameterCells job scope) (Compile.localCells job scope)

namespace Compile

variable {α β : Type} {job : Job} {scope : ScopeId} {s s' s'' : Progress} {ls ls' : List Literal} {code code' : Code}

/-! ## Laying down code step by step -/

/-- if laying down code from `s` succeeds, its result and how far it comes are as `Q` says -/
def Ensures (x : Compile α) (s : Progress) (Q : α → Progress → Prop) : Prop := ∀ a s', x.run s = .ok (a, s') → Q a s'

theorem Ensures.bind {x : Compile α} {f : α → Compile β} {P : α → Progress → Prop} {Q : β → Progress → Prop}
    (hx : Ensures x s P) (hf : ∀ a s', P a s' → Ensures (f a) s' Q) : Ensures (x >>= f) s Q := by
  intro b s' hrun
  rw [StateT.run_bind] at hrun
  cases hxs : x.run s with
  | error fault => rw [hxs] at hrun; cases hrun
  | ok result =>
    obtain ⟨a, s₁⟩ := result
    rw [hxs] at hrun
    exact hf a s₁ (hx a s₁ hxs) b s' hrun

theorem Ensures.pure {a : α} {Q : α → Progress → Prop} (h : Q a s) : Ensures (pure a) s Q := by
  intro b s' hrun
  cases hrun
  exact h

theorem ensures_throw (fault : InternalFault) {Q : α → Progress → Prop} : Ensures (throw fault) s Q :=
  fun _ _ hrun => nomatch hrun

/-- a step that takes no number of a template -/
def Spares (x : Compile α) : Prop := ∀ s, Ensures x s fun _ s' => s'.nextTemplate = s.nextTemplate

theorem spares_pure (a : α) : Spares (pure a) := fun _ => .pure rfl

theorem spares_throw (fault : InternalFault) : Spares (throw fault : Compile α) := fun _ => ensures_throw fault

theorem Spares.bind {x : Compile α} {f : α → Compile β} (hx : Spares x) (hf : ∀ a, Spares (f a)) : Spares (x >>= f) :=
  fun s => (hx s).bind fun a s' h b s'' hrun => (hf a s' b s'' hrun).trans h

theorem spares_setVisible (scope : ScopeId) (count : Nat) : Spares (setVisible scope count) := by
  intro s a s' hrun
  cases hrun
  rfl

theorem spares_get : Spares (get : Compile Progress) := by
  intro s a s' hrun
  cases hrun
  rfl

theorem spares_declare (name : String) : Spares (declare job scope name) := by
  unfold declare
  cases place? job.program.arena scope name with
  | none => exact spares_throw _
  | some found => exact (spares_setVisible _ _).bind fun _ => spares_pure _

theorem spares_resolve (name : String) : Spares (resolve job scope name) := by
  unfold resolve
  refine spares_get.bind fun s => ?_
  cases resolve? job.program.arena s.visible scope name with
  | none => exact spares_throw _
  | some cell => exact spares_pure cell

theorem spares_operator (text : String) : Spares (operator text) := by
  unfold operator
  cases BinaryOp.ofText? text with
  | none => exact spares_throw _
  | some op => exact spares_pure op

theorem spares_linkedModule (path : String) : Spares (linkedModule job path) := by
  unfold linkedModule
  cases (job.module.links.find? path).bind fun i => job.program.modules[i]? with
  | none => exact spares_throw _
  | some m => exact spares_pure m

/-! ## Literals and their templates -/

/-- while code is laid down, the literals get templates, one after the other -/
structure Numbers (job : Job) (s s' : Progress) (ls : List Literal) (code : Code) : Prop where
  next : s'.nextTemplate = s.nextTemplate + ls.length
  ids : (Template.allPushed code).map Template.id = List.range' s.nextTemplate ls.length
  each : List.Forall₂ (fun l t => Literal.HasTemplate l job t) ls (Template.allPushed code)
  reserves : ∀ cell, .reserve cell ∉ code

namespace Numbers

theorem append (h : Numbers job s s' ls code) (h' : Numbers job s' s'' ls' code') :
    Numbers job s s'' (ls ++ ls') (code ++ code') := by
  refine ⟨?_, ?_, ?_, fun cell hcell => ?_⟩
  · rw [h'.next, h.next, List.length_append, Nat.add_assoc]
  · rw [Template.allPushed_append, List.map_append, h.ids, h'.ids, h.next, List.length_append, List.range'_append_1]
  · rw [Template.allPushed_append]
    exact List.rel_append h.each h'.each
  · exact (List.mem_append.1 hcell).elim (h.reserves cell) (h'.reserves cell)

/-- code without literals -/
theorem plain (hnext : s'.nextTemplate = s.nextTemplate) (hpushed : Template.pushed code = [])
    (hreserves : ∀ cell, .reserve cell ∉ code) : Numbers job s s' [] code := by
  have hnone := Template.allPushed_of_pushed hpushed
  exact ⟨hnext, by rw [hnone]; rfl, by rw [hnone]; exact .nil, hreserves⟩

/-- code without literals behind other code -/
theorem behind (h : Numbers job s s' ls code) (hnext : s''.nextTemplate = s'.nextTemplate)
    (hpushed : Template.pushed code' = []) (hreserves : ∀ cell, .reserve cell ∉ code') :
    Numbers job s s'' ls (code ++ code') := by
  have hall := h.append (plain hnext hpushed hreserves)
  rwa [List.append_nil] at hall

end Numbers

theorem ensures_freshTemplate :
    Ensures freshTemplate s fun id s' => id = s.nextTemplate ∧ s'.nextTemplate = s.nextTemplate + 1 := by
  intro id s' hrun
  cases hrun
  exact ⟨rfl, rfl⟩

theorem ensures_functionScope (id : Nat) :
    Ensures (functionScope job id) s fun inner s' => s' = s ∧ job.module.scopes.functions.find? id = some inner := by
  unfold functionScope
  cases hfound : job.module.scopes.functions.find? id with
  | none => exact ensures_throw _
  | some inner => exact .pure ⟨rfl, rfl⟩

/-- a template takes its number first, and then those nested in it take theirs -/
theorem template_numbers_of {body : List Stmt} {ls : List Literal}
    (hbody : ∀ s start, Ensures (stmts job scope start body) s fun code s' => Numbers job s s' ls code)
    (isModule : Bool) (span : Span) :
    Ensures (template job scope isModule ⟨body, span⟩) s fun t s' =>
      s'.nextTemplate = s.nextTemplate + (ls.length + 1) ∧
      t.all.map Template.id = List.range' s.nextTemplate (ls.length + 1) ∧
      List.Forall₂ (fun l t => Literal.HasTemplate l job t) ls (Template.allPushed t.code) ∧
      t.Reserves (parameterCells job scope) (localCells job scope) := by
  refine ensures_freshTemplate.bind fun id s₁ hid => (spares_setVisible _ _ s₁).bind fun _ s₂ hs₂ =>
    (hbody s₂ _).bind fun code s₃ hcode => .pure ?_
  obtain ⟨rfl, hs₁⟩ := hid
  have hends : Numbers job s₂ s₃ ls (code ++ ending isModule) :=
    hcode.behind rfl (Bound.pushed_ending isModule) (by cases isModule <;> simp [ending])
  have hpushed : Template.allPushed (reservations job scope ++ code ++ ending isModule) =
      Template.allPushed (code ++ ending isModule) := by
    rw [List.append_assoc, Template.allPushed_append, reservations_eq,
      Template.allPushed_of_pushed (Bound.pushed_reserves _), List.nil_append]
  refine ⟨?_, ?_, ?_, rfl, code ++ ending isModule, ?_, hends.reserves⟩
  · rw [hends.next, hs₂, hs₁, Nat.add_right_comm, Nat.add_assoc]
  · rw [Template.all, List.map_cons, hpushed, hends.ids, hs₂, hs₁, List.range'_succ]
  · rw [hpushed]
    exact hends.each
  · rw [← reservations_eq, List.append_assoc]

/-! ## Expressions and statements -/

theorem assignee_numbers (around : Option Nat) (target : Expr) :
    Ensures (assignee job scope target) s fun _ s' =>
      s'.nextTemplate = s.nextTemplate ∧ target.literals around = [] := by
  cases target with
  | ident name span => exact fun a s' hrun => ⟨spares_resolve name s a s' hrun, rfl⟩
  | _ => exact ensures_throw _

theorem imports_numbers (key : String) (names : List String) (s : Progress) :
    Ensures (imports job scope key names) s fun code s' => Numbers job s s' [] code := by
  induction names generalizing s with
  | nil => exact .pure (.plain rfl rfl (by simp))
  | cons name names ih =>
    refine (spares_declare name s).bind fun cell s₁ hs₁ => (ih s₁).bind fun rest s₂ hrest => .pure ?_
    have hfetch : Numbers job s s₁ [] [.loadImport key name, .store cell] := .plain hs₁ rfl (by simp)
    exact hfetch.append hrest

mutual

theorem expr_numbers {scope : ScopeId} (around : Option Nat) (e : Expr) (s : Progress) :
    Ensures (expr job scope e) s fun code s' => Numbers job s s' (e.literals around) code := by
  cases e with
  | number value span => exact .pure (.plain rfl rfl (by simp))
  | text value span => exact .pure (.plain rfl rfl (by simp))
  | truth value span => exact .pure (.plain rfl rfl (by simp))
  | ident name span => exact (spares_resolve name s).bind fun cell s' hs' => .pure (.plain hs' rfl (by simp))
  | self span => exact .pure (.plain rfl rfl (by simp))
  | list items span =>
    exact (exprs_numbers around items s).bind fun code s' hcode => .pure (hcode.behind rfl rfl (by simp))
  | function id params result body span =>
    obtain ⟨body, bodySpan⟩ := body
    have hbody (inner : ScopeId) (s : Progress) (start : Nat) :
        Ensures (stmts job inner start body) s fun code s' => Numbers job s s' (Stmt.literalsIn (some id) body) code :=
      stmts_numbers (some id) body start s
    refine (ensures_functionScope id).bind fun inner s₁ hinner => ?_
    obtain ⟨rfl, hfound⟩ := hinner
    intro code s' hrun
    rw [StateT.run_bind] at hrun
    cases htemplate : (template job inner false ⟨body, bodySpan⟩).run s₁ with
    | error fault => rw [htemplate] at hrun; cases hrun
    | ok made =>
      obtain ⟨t, s₂⟩ := made
      rw [htemplate] at hrun
      cases hrun
      obtain ⟨hnext, hids, heach, hreserves⟩ := template_numbers_of (hbody inner) false bodySpan t s₂ htemplate
      have hpushed : Template.allPushed [.push (.function t)] = t.all := List.append_nil _
      refine ⟨hnext, ?_, ?_, by simp⟩
      · rw [hpushed]
        exact hids
      · rw [hpushed, Template.all_eq]
        exact .cons ⟨inner, s₁, s₂, hfound, htemplate, hreserves⟩ heach
  | call callee arguments span =>
    exact (exprs_numbers around arguments s).bind fun given s₁ hgiven =>
      (expr_numbers around callee s₁).bind fun function s₂ hfunction =>
        .pure ((hgiven.append hfunction).behind rfl rfl (by simp))
  | assign target value span =>
    refine (expr_numbers around value s).bind fun code s₁ hcode =>
      (assignee_numbers around target).bind fun cell s₂ hcell => .pure ?_
    rw [Expr.literals, hcell.2, List.append_nil]
    exact hcode.behind hcell.1 rfl (by simp)
  | binary op left right span =>
    exact (expr_numbers around left s).bind fun l s₁ hl => (expr_numbers around right s₁).bind fun r s₂ hr =>
      (spares_operator op s₂).bind fun _ s₃ hs₃ => .pure ((hl.append hr).behind hs₃ rfl (by simp))
  | subscript target index span =>
    exact (expr_numbers around target s).bind fun t s₁ ht => (expr_numbers around index s₁).bind fun i s₂ hi =>
      .pure ((ht.append hi).behind rfl rfl (by simp))
termination_by structural e

theorem exprs_numbers {scope : ScopeId} (around : Option Nat) (es : List Expr) (s : Progress) :
    Ensures (exprs job scope es) s fun code s' => Numbers job s s' (Expr.literalsOf around es) code := by
  cases es with
  | nil => exact .pure (.plain rfl rfl (by simp))
  | cons e es =>
    exact (expr_numbers around e s).bind fun code s₁ hcode => (exprs_numbers around es s₁).bind fun rest s₂ hrest =>
      .pure (hcode.append hrest)
termination_by structural es

theorem declaration_numbers {scope : ScopeId} (around : Option Nat) (d : Declaration) (s : Progress) :
    Ensures (declaration job scope d) s fun code s' => Numbers job s s' (d.literals around) code := by
  obtain ⟨name, note, value, span⟩ := d
  exact (expr_numbers around value s).bind fun code s₁ hcode => (spares_declare name s₁).bind fun cell s₂ hs₂ =>
    .pure (hcode.behind hs₂ rfl (by simp))
termination_by structural d

theorem stmt_numbers {scope : ScopeId} (around : Option Nat) (st : Stmt) (start : Nat) (s : Progress) :
    Ensures (stmt job scope start st) s fun code s' => Numbers job s s' (st.literals around) code := by
  cases st with
  | cond condition body span =>
    obtain ⟨body, bodySpan⟩ := body
    refine (expr_numbers around condition s).bind fun test s₁ htest =>
      (stmts_numbers around body _ s₁).bind fun code s₂ hcode => .pure ?_
    have hjump : Numbers job s s₁ (condition.literals around)
        (test ++ [.jumpIfFalse (start + test.length + 1 + code.length)]) := htest.behind rfl rfl (by simp)
    have hall := hjump.append hcode
    rw [List.append_assoc] at hall
    exact hall
  | declare d => exact declaration_numbers around d s
  | giveBack value span =>
    cases value with
    | none => exact .pure (.plain rfl rfl (by simp))
    | some e => exact (expr_numbers around e s).bind fun code s₁ hcode => .pure (hcode.behind rfl rfl (by simp))
  | eval e span =>
    have hvalue : Ensures (expr job scope e) s fun code s' => Numbers job s s' (e.literals around) code :=
      expr_numbers around e s
    cases e with
    | assign target value =>
      refine (expr_numbers around value s).bind fun code s₁ hcode =>
        (assignee_numbers around target).bind fun cell s₂ hcell => .pure ?_
      rw [Stmt.literals, Expr.literals, hcell.2, List.append_nil]
      exact hcode.behind hcell.1 rfl (by simp)
    | _ => exact hvalue.bind fun code s₁ hcode => .pure (hcode.behind rfl rfl (by simp))
  | pub d span => exact declaration_numbers around d s
  | use path names span =>
    refine (spares_linkedModule path s).bind fun dependency s₁ hs₁ => ?_
    have hlinked : Numbers job s s₁ [] [] := .plain hs₁ rfl (by simp)
    exact fun code s₂ hrun => hlinked.append (imports_numbers _ _ s₁ code s₂ hrun)
termination_by structural st

theorem stmts_numbers {scope : ScopeId} (around : Option Nat) (ss : List Stmt) (start : Nat) (s : Progress) :
    Ensures (stmts job scope start ss) s fun code s' => Numbers job s s' (Stmt.literalsIn around ss) code := by
  cases ss with
  | nil => exact .pure (.plain rfl rfl (by simp))
  | cons st ss =>
    exact (stmt_numbers around st start s).bind fun code s₁ hcode =>
      (stmts_numbers around ss _ s₁).bind fun rest s₂ hrest =>
      .pure (hcode.append hrest)
termination_by structural ss

end

/-- the templates that come of a body: its own, and then those of the literals in it -/
theorem template_numbers (around : Option Nat) (isModule : Bool) (body : Block) :
    Ensures (template job scope isModule body) s fun t _ =>
      t.all.map Template.id = List.range' s.nextTemplate ((body.literals around).length + 1) ∧
      List.Forall₂ (fun l t => Literal.HasTemplate l job t) (body.literals around) (Template.allPushed t.code) ∧
      t.Reserves (parameterCells job scope) (localCells job scope) := by
  obtain ⟨body, span⟩ := body
  intro t s' hrun
  exact (template_numbers_of (fun s start => stmts_numbers around body start s) isModule span t s' hrun).2

end Compile

end TypedScript
