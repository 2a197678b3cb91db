/-
Runs of programs that were compiled. The templates of a program are those of its modules' bodies and those nested in
them (`Program.Makes`). Where the host makes no functions of its own, every moment of a run runs one of them, and only
functions made from them are around (`Ready`). `Toolchain.Meets` names the moments of a whole program's run.

- `ready_lasting`: at every moment of a run, what is around is made from the templates of the program.
- `Toolchain.Meets.ready`: so it is in the run of a program.
- `Toolchain.execute_fault`: a program fails with a fault of an instruction at a moment that is met, or of an export.
-/
import TypedScript.Proofs.Direct.Modules
import TypedScript.Proofs.Machine.Moments

namespace TypedScript

/-- the templates of a program: those of the bodies of its modules, and all that are nested in them -/
inductive Program.Makes (p : Program) : Template → Prop
  | body {templates : List (Option Template)} {t : Template} (compiles : p.compile = .ok templates)
      (mem : some t ∈ templates) : Makes p t
  | nested {t u : Template} (outer : Makes p t) (mem : u ∈ t.nested) : Makes p u

/-! ## Templates of bound trees -/

namespace Bound

theorem pushed_fetches (module : String) (names : List (String × Cell)) :
    Template.pushed (fetches module names) = [] := by
  induction names with
  | nil => rfl
  | cons item names ih => exact ih

theorem pushed_reserves (cells : List Cell) : Template.pushed (cells.map .reserve) = [] := by
  induction cells with
  | nil => rfl
  | cons cell cells ih => exact ih

theorem pushed_ending (isModule : Bool) : Template.pushed (Compile.ending isModule) = [] := by cases isModule <;> rfl

/-- code that pushes only templates of function literals -/
def Pushes (code : Code) : Prop := ∀ u ∈ Template.pushed code, ∃ f : Function, u = f.template false

theorem pushes_of_nil {code : Code} (h : Template.pushed code = []) : Pushes code := by
  intro u hu
  rw [h] at hu
  cases hu

theorem Pushes.append {code code' : Code} (h : Pushes code) (h' : Pushes code') : Pushes (code ++ code') := by
  intro u hu
  rw [Template.pushed_append] at hu
  exact (List.mem_append.1 hu).elim (h u) (h' u)

mutual

theorem Expr.pushes (e : Expr) : Pushes e.code := by
  cases e with
  | list items => exact (Expr.pushesOf items).append (pushes_of_nil rfl)
  | function f => exact fun u hu => ⟨f, List.mem_singleton.1 hu⟩
  | call callee arguments => exact ((Expr.pushesOf arguments).append callee.pushes).append (pushes_of_nil rfl)
  | assign cell value => exact value.pushes.append (pushes_of_nil rfl)
  | binary op left right => exact (left.pushes.append right.pushes).append (pushes_of_nil rfl)
  | subscript target index => exact (target.pushes.append index.pushes).append (pushes_of_nil rfl)
  | _ => exact pushes_of_nil rfl
termination_by structural e

theorem Expr.pushesOf (es : List Expr) : Pushes (Expr.codeOf es) := by
  cases es with
  | nil => exact pushes_of_nil rfl
  | cons e es => exact e.pushes.append (Expr.pushesOf es)
termination_by structural es

theorem Stmt.pushes (start : Nat) (s : Stmt) : Pushes (s.code start) := by
  cases s with
  | cond condition body => exact condition.pushes.append (Stmt.pushesIn _ body)
  | declare cell value => exact value.pushes.append (pushes_of_nil rfl)
  | giveBack value =>
    cases value with
    | none => exact pushes_of_nil rfl
    | some e => exact e.pushes.append (pushes_of_nil rfl)
  | eval e =>
    have hdrop : Pushes (e.code ++ [.pop]) := e.pushes.append (pushes_of_nil rfl)
    cases e with
    | assign cell value => exact value.pushes.append (pushes_of_nil rfl)
    | _ => exact hdrop
  | use module names => exact pushes_of_nil (pushed_fetches module names)
termination_by structural s

theorem Stmt.pushesIn (start : Nat) (ss : List Stmt) : Pushes (Stmt.codeOf start ss) := by
  cases ss with
  | nil => exact pushes_of_nil rfl
  | cons s ss => exact (Stmt.pushes start s).append (Stmt.pushesIn _ ss)
termination_by structural ss

end

theorem Function.pushes (isModule : Bool) (f : Function) : Pushes (f.template isModule).code := by
  obtain ⟨number, signature, params, locals, body⟩ := f
  have hslots : Pushes (locals.map .reserve) := pushes_of_nil (pushed_reserves locals)
  exact (hslots.append (Stmt.pushesIn locals.length body)).append (pushes_of_nil (pushed_ending isModule))

end Bound

theorem forall₂_of_mapM {α β ε : Type} {f : α → Except ε β} {xs : List α} {ys : List β} (h : xs.mapM f = .ok ys) :
    List.Forall₂ (fun x y => f x = .ok y) xs ys := by
  induction xs generalizing ys with
  | nil =>
    cases h
    exact .nil
  | cons x xs ih =>
    rw [List.mapM_cons] at h
    cases hx : f x with
    | error e => rw [hx] at h; cases h
    | ok y =>
      rw [hx] at h
      cases hxs : xs.mapM f with
      | error e =>
        change (xs.mapM f >>= fun ys => pure (y :: ys)) = _ at h
        rw [hxs] at h
        cases h
      | ok rest =>
        change (xs.mapM f >>= fun ys => pure (y :: ys)) = _ at h
        rw [hxs] at h
        cases h
        exact .cons hx (ih hxs)

/-- the template that a body gets is that of a bound tree -/
theorem Compile.exists_function {job : Compile.Job} {scope : ScopeId} {isModule : Bool} {body : Block}
    {s s' : Compile.Progress} {t : Template} (h : (Compile.template job scope isModule body).run s = .ok (t, s')) :
    ∃ f : Bound.Function, t = f.template isModule := by
  rw [Compile.template_eq _ _ _ Bound.moduleSignature, StateT.run_map] at h
  cases hrun : (Compile.bindBody job scope Bound.moduleSignature body).run s with
  | error fault => rw [hrun] at h; cases h
  | ok result =>
    rw [hrun] at h
    cases h
    exact ⟨result.1, rfl⟩

namespace Program

variable {p : Program} {m : LinkedModule} {t : Template} {templates : List (Option Template)}

/-- a module that is compiled to a template is a source module, and the template has the code of its body -/
theorem compileModule_some (h : p.compileModule m = .ok (some t)) :
    ∃ body s, m.module.content = .source body ∧
      (Compile.template ⟨p, m⟩ m.scopes.global true body).run ⟨.empty, 0⟩ = .ok (t, s) := by
  unfold compileModule at h
  split at h
  · cases h
  · next body hcontent =>
    cases hrun : (Compile.template ⟨p, m⟩ m.scopes.global true body).run ⟨.empty, 0⟩ with
    | error fault => rw [hrun] at h; cases h
    | ok result =>
      rw [hrun] at h
      cases h
      exact ⟨body, result.2, hcontent, hrun⟩

/-- each template of a program is that of one of its modules -/
theorem exists_module (hcompile : p.compile = .ok templates) (h : some t ∈ templates) :
    ∃ m ∈ p.modules, p.compileModule m = .ok (some t) := by
  have hall := forall₂_of_mapM hcompile
  obtain ⟨k, hk, ht⟩ := List.getElem_of_mem h
  have hk' : k < p.modules.length := hall.length_eq ▸ hk
  have hm := hall.get hk' hk
  rw [List.get_eq_getElem, List.get_eq_getElem, ht] at hm
  exact ⟨p.modules[k], List.getElem_mem hk', hm⟩

/-- every template of a program is that of a bound tree -/
theorem Makes.exists_function (h : p.Makes t) : ∃ (isModule : Bool) (f : Bound.Function), t = f.template isModule := by
  induction h with
  | body compiles mem =>
    obtain ⟨m, _, hm⟩ := exists_module compiles mem
    obtain ⟨body, s, _, hrun⟩ := compileModule_some hm
    obtain ⟨f, rfl⟩ := Compile.exists_function hrun
    exact ⟨true, f, rfl⟩
  | nested _ mem ih =>
    obtain ⟨isModule, f, rfl⟩ := ih
    obtain ⟨g, rfl⟩ := f.pushes isModule _ mem
    exact ⟨false, g, rfl⟩

end Program

/-! ## Functions around -/

section

variable {σ : Type} {host : Host σ} {holds : σ → List Closure} {P : Template → Prop} {limit depth : Nat} {q : Moment σ}

/-- a template with a property is run, only functions made from such templates are around, and so many calls are open,
which is no more than the limit -/
structure Ready (P : Template → Prop) (holds : σ → List Closure) (limit depth : Nat) (q : Moment σ) : Prop where
  template : P q.template
  stack : ∀ v ∈ q.stack, v.Only P
  machine : Run.Only P holds limit depth q.machine
  depth : depth ≤ limit

/-- what is around after an instruction -/
theorem Ready.does (h : Ready P holds limit depth q) (hhost : host.Conserves holds)
    (hnested : ∀ t, P t → ∀ u ∈ t.nested, P u) {i : Instruction} {flow : Flow} {m : Machine σ}
    (hdoes : q.Does host i flow m) : Run.Only P holds limit depth m ∧ Run.Flow.Only P limit depth i flow := by
  obtain ⟨hi, hx⟩ := hdoes
  have hpush (u : Template) (heq : i = .push (.function u)) : P u :=
    hnested q.template h.template u (Template.mem_pushed (heq ▸ List.mem_of_getElem? hi))
  have hstep := Run.keeps_execute hhost q.frame hpush h.stack q.machine h.machine
  rw [hx] at hstep
  exact hstep

/-- what is around where an activation ends -/
theorem Ready.leaves (h : Ready P holds limit depth q) (hhost : host.Conserves holds)
    (hnested : ∀ t, P t → ∀ u ∈ t.nested, P u) {v : Value} {left : Operands} {m : Machine σ}
    (hleaves : q.Leaves host v left m) : Run.Only P holds limit depth m ∧ v.Only P := by
  obtain ⟨_, rfl, _, rfl⟩ | ⟨i, hdoes⟩ := hleaves
  · exact ⟨h.machine, Value.only_of_closures_nil rfl⟩
  · obtain ⟨hm, hflow⟩ := h.does hhost hnested hdoes
    exact ⟨hm, hflow.1⟩

/-- at every moment of a run, what is around is made from templates with the property -/
theorem ready_lasting (hhost : host.Conserves holds) (hnested : ∀ t, P t → ∀ u ∈ t.nested, P u) :
    Lasting host (fun _ => True) (Ready P holds limit) fun _ _ => True where
  refl _ := trivial
  trans _ _ := trivial
  next _ h hdoes := by
    obtain ⟨hm, hstack⟩ := h.does hhost hnested hdoes
    exact ⟨⟨h.template, hstack, hm, h.depth⟩, trivial⟩
  jump _ h hdoes := by
    obtain ⟨hm, _, hstack⟩ := h.does hhost hnested hdoes
    exact ⟨⟨h.template, hstack, hm, h.depth⟩, trivial⟩
  enter {depth q c arguments rest inner m} _ h henters := by
    obtain ⟨i, m', hdoes, hopen⟩ := henters
    obtain ⟨hm', hdepth, hc, harguments, _⟩ := h.does hhost hnested hdoes
    have hopened := Run.keeps_openCall hc harguments m' hm'
    rw [hopen] at hopened
    obtain ⟨hm, _⟩ := hopened
    refine ⟨hc, fun _ h => (nomatch h), ?_, hdepth⟩
    exact ⟨hm.modules, hm.store, hm.memory, hm.limit, congrArg (· + 1) hm.depth⟩
  back {depth q c arguments rest inner m last v left m'} _ h henters _ hlast _ hleaves := by
    obtain ⟨i, m₁, hdoes, _⟩ := henters
    obtain ⟨_, _, _, _, hrest⟩ := h.does hhost hnested hdoes
    obtain ⟨hm', hv⟩ := hlast.leaves hhost hnested hleaves
    refine ⟨⟨h.template, List.forall_mem_cons.2 ⟨hv, hrest⟩, ?_, h.depth⟩, trivial⟩
    exact ⟨hm'.modules, hm'.store, hm'.memory, hm'.limit, by change m'.depth - 1 = depth; rw [hm'.depth]; rfl⟩

end

/-! ## Bodies of modules -/

namespace Moment

variable {σ : Type}

/-- the body of a module starts in a new frame -/
def started (t : Template) (m : Machine σ) : Moment σ :=
  ⟨t, m.store.newRoot.1, 0, [], { m with store := m.store.newRoot.2 }⟩

theorem evaluate_eq (host : Host σ) (fuel : Nat) (t : Template) (m : Machine σ) :
    t.evaluate host fuel m =
      match (started t m).run host fuel with
      | .ok (result, stack) m' => .ok ⟨result, m.store.newRoot.1, stack⟩ m'
      | .error e m' => .error e m' :=
  Run.evaluate_eq host fuel t m

end Moment

/-- where only functions made from templates with a property are around, the body of a module starts with no others -/
theorem Run.Only.started {σ : Type} {P : Template → Prop} {holds : σ → List Closure} {limit : Nat} {m : Machine σ}
    (h : Run.Only P holds limit 0 m) {t : Template} (ht : P t) : Ready P holds limit 0 (.started t m) :=
  ⟨ht, fun _ h => (nomatch h), h.withStore (h.store.add rfl fun _ h => nomatch h), Nat.zero_le _⟩

namespace Toolchain

variable {σ : Type} {host : Host σ} {turns limit : Nat} {p : Program} {ms : List (LinkedModule × Option Template)}
  {m m' : Machine σ} {start q : Moment σ}

/-- the moments at which bodies start while modules are run one after the other -/
inductive Starts (host : Host σ) (turns : Nat) (p : Program) :
    List (LinkedModule × Option Template) → Machine σ → Moment σ → Prop
  | here {linked : LinkedModule} {body : Block} {t : Template} {rest : List (LinkedModule × Option Template)}
      {m : Machine σ} (source : linked.module.content = .source body) :
      Starts host turns p ((linked, some t) :: rest) m (.started t m)
  | later {linked : LinkedModule} {t : Option Template} {rest : List (LinkedModule × Option Template)}
      {m m' : Machine σ} {value : Option ModuleValue} {q : Moment σ}
      (runs : runModule host turns p linked t m = (.ok value, m')) (starts : Starts host turns p rest m' q) :
      Starts host turns p ((linked, t) :: rest) m q

/-- the moments that the run of a program meets, each with the number of calls that are open -/
def Meets (t : Toolchain) (host : Host σ) (p : Program) (memory : σ) (n : Nat) (q : Moment σ) : Prop :=
  ∃ templates start, p.compile = .ok templates ∧
    Starts host (fuel t.maxCallDepth templates) p (p.modules.zip templates)
      (Machine.new host t.maxCallDepth memory) start ∧
    TypedScript.Meets host start n q

/-- what running a module keeps is true of the machine wherever the body of a module starts -/
theorem Starts.keeps {J : Machine σ → Prop}
    (hstep : ∀ linked t before value after, (linked, t) ∈ ms →
      (∀ body u, linked.module.content = .source body → t = some u → Starts host turns p ms m (.started u before)) →
      J before → runModule host turns p linked t before = (.ok value, after) → J after)
    (hm : J m) (h : Starts host turns p ms m q) :
    ∃ linked body t m', (linked, some t) ∈ ms ∧ linked.module.content = .source body ∧ J m' ∧ q = .started t m' := by
  induction h with
  | here source => exact ⟨_, _, _, _, List.mem_cons_self, source, hm, rfl⟩
  | later runs _ ih =>
    obtain ⟨linked, body, t, m', hmem, hrest⟩ := ih
      (fun linked t before value after hmem hstarts => hstep linked t before value after (List.mem_cons_of_mem _ hmem)
        fun body u hbody hu => .later runs (hstarts body u hbody hu))
      (hstep _ _ _ _ _ List.mem_cons_self (fun body u hbody hu => hu ▸ .here hbody) hm runs)
    exact ⟨linked, body, t, m', List.mem_cons_of_mem _ hmem, hrest⟩

/-- a module that runs is native, or its body is run to its end and its exports are registered -/
theorem runModule_ok {linked : LinkedModule} {template : Option Template} {value : Option ModuleValue}
    (h : runModule host turns p linked template m = (.ok value, m')) :
    (∃ native, linked.module.content = .native native ∧ m' = m.registerNative native) ∨
      ∃ body t v left last exports, linked.module.content = .source body ∧ template = some t ∧
        (Moment.started t m).run host turns = .ok (v, left) last ∧
        collect (p.arena.get? linked.scopes.global) m.store.newRoot.1 (p.arena.exports linked.scopes.global) .empty
          last = .ok exports ∧ m' = last.register linked.module.key exports := by
  unfold runModule at h
  split at h
  · next native hcontent =>
    cases h
    exact Or.inl ⟨native, hcontent, rfl⟩
  · cases h
  · next body t hcontent =>
    rw [Moment.evaluate_eq] at h
    cases hrun : (Moment.started t m).run host turns with
    | error e last => rw [hrun] at h; cases h
    | ok result last =>
      obtain ⟨v, left⟩ := result
      rw [hrun] at h
      dsimp only at h
      split at h
      · cases h
      · next exports hcollect =>
        cases h
        exact Or.inr ⟨body, t, v, left, last, exports, hcontent, rfl, hrun, hcollect, rfl⟩

/-- functions made from the templates of a program are all that is around when one of its modules has run -/
theorem runModule_only {P : Template → Prop} {holds : σ → List Closure} (hhost : host.Conserves holds)
    (hnested : ∀ t, P t → ∀ u ∈ t.nested, P u) {linked : LinkedModule} {template : Option Template}
    {value : Option ModuleValue} (ht : ∀ t, template = some t → P t) (hm : Run.Only P holds limit 0 m)
    (h : runModule host turns p linked template m = (.ok value, m')) : Run.Only P holds limit 0 m' := by
  obtain ⟨native, _, rfl⟩ | ⟨body, t, v, left, last, exports, _, rfl, hrun, hcollect, rfl⟩ := runModule_ok h
  · refine hm.register fun name v hv => ?_
    obtain ⟨b, _, heq⟩ := List.mem_map.1 (Table.mem_of_find?_ofList hv)
    cases heq
    exact Value.only_of_closures_nil rfl
  · obtain ⟨final, _, hready, _, hleaves⟩ := (ready_lasting hhost hnested).exists_last 0 (fun _ _ _ => trivial)
      (hm.started (ht t rfl)) hrun
    obtain ⟨hlast, _⟩ := hready.leaves hhost hnested hleaves
    have hempty (name : String) (v : Value) (h : (Table.empty : Exports).find? name = some v) : v.Only P := nomatch h
    exact hlast.register (Direct.collect_only hlast.store hempty hcollect)

/-- at the start of a run there are no functions around -/
theorem only_new {P : Template → Prop} {holds : σ → List Closure} (hhost : host.Conserves holds) {memory : σ}
    (hmemory : holds memory = []) : Run.Only P holds limit 0 (Machine.new host limit memory) := by
  refine ⟨fun _ _ _ h => (nomatch h), ?_, fun c hc => ?_, rfl, rfl⟩
  · change host.store.Only _
    rw [hhost.store]
    exact Store.only_empty
  · change c ∈ holds memory at hc
    rw [hmemory] at hc
    cases hc

/-- the body of a module starts where only functions made from the templates of the program are around -/
theorem Starts.only {templates : List (Option Template)} {memory : σ} {holds : σ → List Closure}
    (hhost : host.Conserves holds) (hmemory : holds memory = []) (hcompile : p.compile = .ok templates)
    (h : Starts host turns p (p.modules.zip templates) (Machine.new host limit memory) start) :
    ∃ linked t m, (linked, some t) ∈ p.modules.zip templates ∧ p.Makes t ∧ Run.Only p.Makes holds limit 0 m ∧
      start = .started t m := by
  have hmakes {linked : LinkedModule} {t : Template} (hmem : (linked, some t) ∈ p.modules.zip templates) : p.Makes t :=
    .body hcompile (List.of_mem_zip hmem).2
  obtain ⟨linked, _, t, m, hmem, _, hm, hstart⟩ := h.keeps
    (J := Run.Only p.Makes holds limit 0) (fun linked t m value m' hmem _ hm hrun =>
      runModule_only hhost (fun _ ht _ hu => .nested ht hu) (fun t ht => hmakes (ht ▸ hmem)) hm hrun)
    (only_new hhost hmemory)
  exact ⟨linked, t, m, hmem, hmakes hmem, hm, hstart⟩

/-- in the run of a program, what is around is made from the templates of the program -/
theorem Meets.ready {t : Toolchain} {memory : σ} {n : Nat} {holds : σ → List Closure} (hhost : host.Conserves holds)
    (hmemory : holds memory = []) (h : Meets t host p memory n q) : Ready p.Makes holds t.maxCallDepth n q := by
  obtain ⟨templates, start, hcompile, hstarts, hmet⟩ := h
  obtain ⟨_, template, m, _, hmakes, hm, rfl⟩ := hstarts.only hhost hmemory hcompile
  have hready := (ready_lasting hhost fun _ ht _ hu => .nested ht hu).meets 0 (fun _ _ _ => trivial)
    (hm.started hmakes) hmet
  rwa [Nat.zero_add] at hready

/-! ## Faults -/

/-- where the exports of a module are not found, one has no variable, or reading its variable faults -/
theorem collect_error {scope : Option Scope} {frame : FrameId} {exports : List (String × Ty)} {collected : Exports}
    {error : ToolchainError} (h : collect scope frame exports collected m = .error error) :
    (∃ name, error = .internal (.missingVariable name)) ∨
      ∃ fault s e v, error = .runtime fault ∧ scope = some s ∧ e ∈ exports ∧
        (s.variableIndex? e.1).bind s.variableAt? = some v ∧ m.store.load frame v.cell = .error fault := by
  induction exports generalizing collected with
  | nil => cases h
  | cons e exports ih =>
    unfold collect at h
    split at h
    · exact Or.inl ⟨e.1, (Except.error.inj h).symm⟩
    · next v hv =>
      obtain ⟨s, rfl, hv⟩ := Option.bind_eq_some_iff.1 hv
      split at h
      · next fault hload =>
        exact Or.inr ⟨fault, s, e, v, (Except.error.inj h).symm, rfl, List.mem_cons_self, hv, hload⟩
      · refine (ih h).imp_right ?_
        rintro ⟨fault, s', e', v', herror, hs', hmem, hrest⟩
        exact ⟨fault, s', e', v', herror, hs', List.mem_cons_of_mem _ hmem, hrest⟩

/-- a module that does not run is a source module without code, or its body stops, or its exports are not found -/
theorem runModule_error {linked : LinkedModule} {template : Option Template} {error : ToolchainError}
    (h : runModule host turns p linked template m = (.error error, m')) :
    (error = .internal (.uncheckedModule linked.module.key) ∧ template = none ∧ linked.module.isNative = false) ∨
      ∃ body t, linked.module.content = .source body ∧ template = some t ∧
        ((∃ stop last, (Moment.started t m).run host turns = .error stop last ∧ error = .ofStop stop) ∨
          ∃ v left last, (Moment.started t m).run host turns = .ok (v, left) last ∧
            collect (p.arena.get? linked.scopes.global) m.store.newRoot.1 (p.arena.exports linked.scopes.global) .empty
              last = .error error) := by
  unfold runModule at h
  split at h
  · cases h
  · next body hcontent =>
    cases h
    refine Or.inl ⟨rfl, rfl, ?_⟩
    unfold Module.isNative
    rw [hcontent]
  · next body t hcontent =>
    refine Or.inr ⟨body, t, hcontent, rfl, ?_⟩
    rw [Moment.evaluate_eq] at h
    cases hrun : (Moment.started t m).run host turns with
    | error stop last =>
      rw [hrun] at h
      cases h
      exact Or.inl ⟨stop, _, rfl, rfl⟩
    | ok result last =>
      obtain ⟨v, left⟩ := result
      rw [hrun] at h
      dsimp only at h
      split at h
      · next found hcollect =>
        cases h
        exact Or.inr ⟨v, left, _, rfl, hcollect⟩
      · cases h

/-- an export of a module cannot be read when the body of the module has been run -/
def ExportFaults (host : Host σ) (turns : Nat) (p : Program) (linked : LinkedModule) (start : Moment σ)
    (fault : RuntimeFault) : Prop :=
  ∃ v left last s e found, start.run host turns = .ok (v, left) last ∧
    p.arena.get? linked.scopes.global = some s ∧ e ∈ p.arena.exports linked.scopes.global ∧
    (s.variableIndex? e.1).bind s.variableAt? = some found ∧ last.store.load start.frame found.cell = .error fault

/-- where modules are not run to the end, one of them does not run, after all those before it -/
theorem runModules_error {value : Option ModuleValue} {error : ToolchainError}
    (h : runModules host turns p ms value m = (.error error, m')) :
    ∃ linked template before after, (linked, template) ∈ ms ∧
      runModule host turns p linked template before = (.error error, after) ∧
      ∀ body t, linked.module.content = .source body → template = some t →
      Starts host turns p ms m (.started t before) := by
  induction ms generalizing value m with
  | nil => cases h
  | cons head ms ih =>
    obtain ⟨linked, template⟩ := head
    unfold runModules at h
    cases hrun : runModule host turns p linked template m with
    | mk result after =>
      rw [hrun] at h
      cases result with
      | ok value =>
        obtain ⟨other, template', before, after', hmem, herror, hstarts⟩ := ih h
        exact ⟨other, template', before, after', List.mem_cons_of_mem _ hmem, herror,
          fun body t hbody ht => .later hrun (hstarts body t hbody ht)⟩
      | error e =>
        cases h
        refine ⟨linked, template, m, _, List.mem_cons_self, hrun, fun body t hbody ht => ?_⟩
        subst ht
        exact .here hbody

theorem runModules_fault {value : Option ModuleValue} {fault : RuntimeFault}
    (h : runModules host turns p ms value m = (.error (.runtime fault), m')) :
    ∃ start, Starts host turns p ms m start ∧
      ((∃ n q, TypedScript.Meets host start n q ∧ q.Faults host fault) ∨
        ∃ linked, (linked, some start.template) ∈ ms ∧ ExportFaults host turns p linked start fault) := by
  obtain ⟨linked, template, before, _, hmem, herror, hstarts⟩ := runModules_error h
  obtain ⟨herror, _⟩ | ⟨body, t, hcontent, rfl, hwhy⟩ := runModule_error herror
  · cases herror
  refine ⟨.started t before, hstarts body t hcontent rfl, ?_⟩
  obtain ⟨stop, last, hrun, hstop⟩ | ⟨v, left, last, hrun, hcollect⟩ := hwhy
  · cases stop with
    | outOfFuel => cases hstop
    | fault found =>
      cases hstop
      exact Or.inl (Moment.exists_fault hrun)
  · obtain ⟨_, hname⟩ | ⟨found, s, e, v', hfound, hs, he, hv', hload⟩ := collect_error hcollect
    · cases hname
    · cases hfound
      exact Or.inr ⟨linked, hmem, v, left, last, s, e, v', hrun, hs, he, hv', hload⟩

/-- where modules do not end, the run of the body of one of them uses up the fuel -/
theorem runModules_unfinished {value : Option ModuleValue}
    (h : runModules host turns p ms value m = (.error .unfinished, m')) :
    ∃ start last, Starts host turns p ms m start ∧ start.run host turns = .error .outOfFuel last := by
  obtain ⟨linked, template, before, _, hmem, herror, hstarts⟩ := runModules_error h
  obtain ⟨herror, _⟩ | ⟨body, t, hcontent, rfl, hwhy⟩ := runModule_error herror
  · cases herror
  obtain ⟨stop, last, hrun, hstop⟩ | ⟨v, left, last, hrun, hcollect⟩ := hwhy
  · cases stop with
    | fault found => cases hstop
    | outOfFuel => exact ⟨_, last, hstarts body t hcontent rfl, hrun⟩
  · obtain ⟨_, hname⟩ | ⟨_, _, _, _, hfound, _⟩ := collect_error hcollect
    · cases hname
    · cases hfound

/-- where the run of a program does not come to an end, one of the modules does not -/
theorem execute_error {t : Toolchain} {memory : σ} {error : ToolchainError}
    (h : (t.execute host p memory).1 = .error error) :
    (∃ fault, error = .internal fault) ∨ ∃ templates last, p.compile = .ok templates ∧
      runModules host (fuel t.maxCallDepth templates) p (p.modules.zip templates) none
        (Machine.new host t.maxCallDepth memory) = (.error error, last) := by
  unfold execute at h
  unfold compile at h
  cases hcompile : p.compile with
  | error fault =>
    rw [hcompile] at h
    exact Or.inl ⟨fault, (Except.error.inj h).symm⟩
  | ok templates =>
    rw [hcompile] at h
    dsimp only [Except.mapError] at h
    cases hrun : runModules host (fuel t.maxCallDepth templates) p (p.modules.zip templates) none
        (Machine.new host t.maxCallDepth memory) with
    | mk result last =>
      rw [hrun] at h
      cases result with
      | ok value =>
        cases value with
        | none => exact Or.inl ⟨_, (Except.error.inj h).symm⟩
        | some value => cases h
      | error found =>
        cases h
        exact Or.inr ⟨templates, last, rfl, hrun⟩

/-- a program fails with a fault of an instruction at a moment that its run meets, or because an export of a module
whose body has been run cannot be read -/
theorem execute_fault {t : Toolchain} {memory : σ} {fault : RuntimeFault}
    (h : (t.execute host p memory).1 = .error (.runtime fault)) :
    ∃ start, Meets t host p memory 0 start ∧
      ((∃ n q, Meets t host p memory n q ∧ q.Faults host fault) ∨
        ∃ templates linked, p.compile = .ok templates ∧ (linked, some start.template) ∈ p.modules.zip templates ∧
          Starts host (fuel t.maxCallDepth templates) p (p.modules.zip templates)
            (Machine.new host t.maxCallDepth memory) start ∧
          ExportFaults host (fuel t.maxCallDepth templates) p linked start fault) := by
  obtain ⟨_, herror⟩ | ⟨templates, last, hcompile, hrun⟩ := execute_error h
  · cases herror
  obtain ⟨start, hstarts, hfault⟩ := runModules_fault hrun
  refine ⟨start, ⟨templates, start, hcompile, hstarts, .start⟩, hfault.imp ?_ ?_⟩
  · rintro ⟨n, q, hmet, hfaults⟩
    exact ⟨n, q, ⟨templates, start, hcompile, hstarts, hmet⟩, hfaults⟩
  · rintro ⟨linked, hmem, hexport⟩
    exact ⟨templates, linked, hcompile, hmem, hstarts, hexport⟩

end Toolchain

end TypedScript
