/-
Environments. In a checked program every name was bound to a variable of a scope, and at every moment of a run the
frames in reach mirror the scopes around the code that runs. So a variable is always found, and in the frame at the
level of its scope: for a function, among the frames that were around it when it was made, whoever calls it and from
wherever.

- `Moment.Environment`: frames and scopes at a moment of a run.
- `environments_mirror`: every moment of a run has such an environment, so that no variable and no function is missed.
-/
import TypedScript.Proofs.Machine.Mirrored
import TypedScript.Proofs.TypeSoundness

namespace TypedScript

open Compile (Job)

variable {σ : Type} {holds : σ → List Closure} {host : Host σ} {natives : List NativeModule} {g : Graph} {p : Program}
  {m m' : Machine σ} {q : Moment σ} {job : Job} {scope : ScopeId} {t : Template}

/-! ## Moments -/

/-- the environment of a moment that runs a template laid down for a scope -/
structure Moment.Environment (job : Job) (scope : ScopeId) (q : Moment σ) : Prop where
  level : q.Level job scope
  root : job.program.arena.root scope = job.module.scopes.global
  calls : q.machine.store.Calls
  /-- a variable is found at the level of its scope -/
  reaches : ∀ i cell, q.instruction? = some i → i = .load cell ∨ i = .store cell →
    ∃ (k : Nat) (x : ScopeId) (frame : FrameId), (job.program.arena.chain scope)[k]? = some x ∧
      cell ∈ job.program.arena.cells x ∧ (q.machine.store.chain q.frame)[k]? = some frame ∧
      q.machine.store.holder? q.frame cell.id = some frame
  /-- `self` stands in the body of a function -/
  self : q.instruction? = some .loadSelf → (q.machine.store.running? q.frame).isSome = true

namespace Moment

theorem Mirrored.environment (h : q.Mirrored p holds) (ha : p.arena.WellFormed) :
    ∃ m ∈ p.modules, ∃ scope, q.Environment ⟨p, m⟩ scope := by
  obtain ⟨module, hmodule, scope, hlevel, _⟩ := h.level
  refine ⟨module, hmodule, scope, hlevel, hlevel.laid.root ha.ordered, h.calls, fun i cell hi hcell => ?_, fun hi => ?_⟩
  · have hneeds : (Compile.localCells ⟨p, module⟩ scope).length ≤ q.place ∧
        ∃ x ∈ p.arena.chain scope, cell ∈ p.arena.cells x := by
      rcases hcell with rfl | rfl
      · exact (hlevel.instruction ha.ordered hi).resolve_left fun ⟨_, _, heq⟩ => nomatch heq
      · exact (hlevel.instruction ha.ordered hi).resolve_left fun ⟨_, _, heq⟩ => nomatch heq
    obtain ⟨hbehind, x, hx, hcell⟩ := hneeds
    obtain ⟨k, frame, hk, hframe, hholder⟩ := (hlevel.full ha.ordered hbehind).holder ha hx hcell
    exact ⟨k, x, frame, hk, hcell, hframe, hholder⟩
  · obtain ⟨_, hparent⟩ := (hlevel.instruction ha.ordered hi).resolve_left fun ⟨_, _, heq⟩ => nomatch heq
    obtain ⟨outer, houter⟩ := Option.isSome_iff_exists.1 hparent
    -- there is a scope around the template's, so there is a frame around the moment's
    have haround := hlevel.around
    have hcalls := h.calls q.frame hlevel.own.made
    rw [Arena.chain_of_parent? ha.ordered houter] at haround
    cases hrunning : q.machine.store.running? q.frame with
    | some c => rfl
    | none =>
      rw [hrunning] at hcalls
      rw [Store.chain_of_top hcalls, List.tail_cons, List.tail_cons] at haround
      have hself := Arena.mem_chain_self ha.ordered (Nat.lt_trans (ha.ordered scope outer houter) hlevel.laid.lt)
      rw [List.forall₂_nil_left_iff.1 haround] at hself
      cases hself

/-- in its environment an instruction finds its variable, and `self` the running function -/
theorem Environment.faultless (h : q.Environment job scope) {fault : RuntimeFault} (hfaults : q.Faults host fault) :
    fault ≠ .noSelf ∧ ∀ id name, fault ≠ .missingCell id name := by
  obtain ⟨i, m, hi, hx⟩ := hfaults
  have hblames := Run.blames_of_execute hx
  refine ⟨?_, ?_⟩
  · rintro rfl
    obtain ⟨rfl, hnone⟩ := hblames
    have hself := h.self hi
    rw [hnone] at hself
    cases hself
  · rintro id name rfl
    obtain ⟨cell, hcell, rfl, hnone⟩ := hblames
    obtain ⟨_, _, _, _, _, _, hholder⟩ := h.reaches i cell hi hcell
    rw [hnone] at hholder
    cases hholder

end Moment

/-! ## Modules -/

/-- every function that is around when a module starts was made over frames that mirror the scopes around its literal -/
structure Machine.Mirrored (p : Program) (holds : σ → List Closure) (m : Machine σ) : Prop where
  captured : ∀ c, m.Around holds c → p.Captures m.store c
  calls : m.store.Calls

namespace Machine.Mirrored

theorem new (hhost : host.Conserves holds) {memory : σ} (hmemory : holds memory = []) (limit : Nat) :
    (Machine.new host limit memory).Mirrored p holds := by
  have hempty : (Machine.new host limit memory).store = .empty := hhost.store
  refine ⟨fun c hc => absurd hc (Machine.not_around_new hhost hmemory limit), fun j hj => ?_⟩
  rw [hempty] at hj
  cases hj

/-- frames mirror scopes where the body of a module starts -/
theorem started (h : m.Mirrored p holds) (hordered : p.arena.Ordered) {module : LinkedModule}
    (hmodule : module ∈ p.modules) (hlays : Job.Lays ⟨p, module⟩ module.scopes.global t)
    (hparameters : Compile.parameterCells ⟨p, module⟩ module.scopes.global = [])
    (hglobal : p.arena.isGlobal module.scopes.global = true) :
    (Moment.started t m).Level ⟨p, module⟩ module.scopes.global ∧ (Moment.started t m).Mirrored p holds := by
  let before := m.store
  let after := before.newRoot.2
  have hkeeps : Store.Keeps before.frames.size before after := (Store.grows_newFrame before _ []).keeps _
  have hmade (around : FrameId) (heq : none = some around) : around < before.frames.size := nomatch heq
  have hlevel : (Moment.started t m).Level ⟨p, module⟩ module.scopes.global :=
    Moment.level_started hordered hlays hparameters hglobal m
  exact ⟨hlevel, ⟨module, hmodule, _, hlevel, fun _ c hc => (h.captured c (Moment.around_started hc)).made⟩,
    fun c hc => (h.captured c (Moment.around_started hc)).keeps hkeeps (h.captured c (Moment.around_started hc)).made,
    h.calls.newFrame rfl hmade []⟩

end Machine.Mirrored

/-! ## Runs -/

namespace Toolchain

variable {turns : Nat} {linked : LinkedModule} {template : Option Template} {value : Option ModuleValue}

/-- a machine has what it had before a module was run, where calls in the body of the module have enough arguments -/
theorem runModule_mirrored (hordered : p.arena.Ordered) (hhost : host.Conserves holds)
    (hstart : ∀ body t, linked.module.content = .source body → template = some t →
      (Moment.started t m).Mirrored p holds ∧
      ∀ n q, TypedScript.Meets host (.started t m) n q → q.Given host)
    (hm : m.Mirrored p holds) (h : runModule host turns p linked template m = (.ok value, m')) :
    m'.Mirrored p holds := by
  obtain ⟨native, _, rfl⟩ | ⟨body, t, v, left, last, exports, hbody, ht, hrun, hcollect, rfl⟩ := runModule_ok h
  · exact ⟨fun c hc => hm.captured c hc.registerNative, hm.calls⟩
  · obtain ⟨hmirrored, hgiven⟩ := hstart body t hbody ht
    obtain ⟨final, _, hfinal, _, hleaves⟩ := (mirrored_lasting hordered hhost).exists_last 0 hgiven hmirrored hrun
    have haround {c : Closure} (hc : (last.register linked.module.key exports).Around holds c) : final.Around holds c :=
      hleaves.around hhost.passes (Or.inr (hc.collected hcollect))
    obtain rfl := hleaves.machine_eq
    exact ⟨fun c hc => hfinal.captured c (haround hc), hfinal.calls⟩

/-- the exports of a module are in the frame of its body -/
theorem ExportFaults.found (ha : p.arena.WellFormed) (hhost : host.Conserves holds) {start : Moment σ}
    (hlevel : start.Level ⟨p, linked⟩ linked.scopes.global) (hstart : start.Mirrored p holds)
    (hgiven : ∀ n q, TypedScript.Meets host start n q → q.Given host) {fault : RuntimeFault}
    (h : ExportFaults host turns p linked start fault) : fault ≠ .noSelf ∧ ∀ id name, fault ≠ .missingCell id name := by
  obtain ⟨v, left, last, s, e, found, hrun, hs, _, hfound, hload⟩ := h
  obtain ⟨final, _, _, hstays, hleaves⟩ := (mirrored_lasting ha.ordered hhost).exists_last 0 hgiven hstart hrun
  have hfinal := hstays.level linked _ hlevel
  have hbehind := hfinal.behind_of_leaves ha.ordered hleaves
  obtain rfl := hleaves.machine_eq
  have hcell : found.cell ∈ p.arena.cells linked.scopes.global := by
    obtain ⟨index, _, hv⟩ := Option.bind_eq_some_iff.1 hfound
    exact Arena.mem_cells.2 ⟨s, found, hs, List.mem_of_getElem? hv, rfl⟩
  have hself := Arena.mem_chain_self ha.ordered hfinal.laid.lt
  obtain ⟨_, _, _, _, hholder⟩ := (hfinal.full ha.ordered hbehind).holder ha hself hcell
  rw [hstays.frame] at hholder
  obtain ⟨_, hnone⟩ | ⟨rfl, _⟩ := Store.load_fault hload
  · rw [hnone] at hholder
    cases hholder
  · exact ⟨fun h => (nomatch h), fun _ _ h => nomatch h⟩

end Toolchain

section

variable {t : Toolchain} {memory : σ}

/-- calls have an argument for each parameter throughout the run of a program -/
def Toolchain.AllGiven (t : Toolchain) (host : Host σ) (p : Program) (memory : σ) : Prop :=
  ∀ n q, t.Meets host p memory n q → q.Given host

/-- frames mirror scopes where the body of a module starts, at the scope of any module with the template -/
theorem Toolchain.starts_mirrored (hbuilt : g.Built natives) (hlink : link g = .ok p) (hclean : p.hasErrors = false)
    (hhost : host.Conserves holds) (hmemory : holds memory = []) (hgiven : t.AllGiven host p memory)
    {templates : List (Option Template)} (hcompile : p.compile = .ok templates) {start : Moment σ}
    (hstarts : Starts host (fuel t.maxCallDepth templates) p (p.modules.zip templates)
      (Machine.new host t.maxCallDepth memory) start) :
    start.Mirrored p holds ∧ ∀ m, (m, some start.template) ∈ p.modules.zip templates →
      start.Level ⟨p, m⟩ m.scopes.global := by
  obtain ⟨_, hgood⟩ := linked_good hlink
  have hordered := hgood.wellFormed.ordered
  have hstarted {linked : LinkedModule} {u : Template} {before : Machine σ}
      (hmem : (linked, some u) ∈ p.modules.zip templates) (hbefore : before.Mirrored p holds) :
      (Moment.started u before).Level ⟨p, linked⟩ linked.scopes.global ∧
      (Moment.started u before).Mirrored p holds := by
    have hmodule := (List.of_mem_zip hmem).1
    obtain ⟨hlays, hparameters, hglobal⟩ :=
      laid_module hbuilt hlink hclean hmodule (Program.compileModule_of_mem_zip hcompile hmem)
    exact hbefore.started hordered hmodule hlays hparameters hglobal
  obtain ⟨linked, _, u, before, hmem, _, hbefore, rfl⟩ := hstarts.keeps
    (J := fun m => m.Mirrored p holds) (fun linked u before value after hmem hreached hbefore hrun => by
      refine runModule_mirrored hordered hhost (fun body v hbody hv => ⟨?_, fun n q hmet => ?_⟩) hbefore hrun
      · exact (hstarted (hv ▸ hmem) hbefore).2
      · exact hgiven n q ⟨templates, _, hcompile, hreached body v hbody hv, hmet⟩)
    (.new hhost hmemory _)
  exact ⟨(hstarted hmem hbefore).2, fun m hm => (hstarted hm hbefore).1⟩

/-- in a run of a checked program in which calls have enough arguments, with a host that makes no functions of its own,
the frames in reach hold, level by level, the variables of the scopes around the code that runs; every function that is
around was made over such frames; so a variable is found in the frame at the level of its scope, and `self` is the
function whose call it stands in -/
theorem environments_mirror {rootPath text : String} {root : Block} {loader : Loader} (hparse : parse text = .ok root)
    (hbuild : Graph.build rootPath root loader natives = .ok g) (hlink : link g = .ok p) (hclean : p.hasErrors = false)
    (hhost : host.Conserves holds) (hmemory : holds memory = []) (hgiven : t.AllGiven host p memory) :
    (∀ n q, t.Meets host p memory n q → (∃ m ∈ p.modules, ∃ scope, q.Environment ⟨p, m⟩ scope) ∧
      (∀ c, q.Around holds c → p.Captures q.machine.store c) ∧
      ¬ q.Faults host .noSelf ∧ ∀ id name, ¬ q.Faults host (.missingCell id name)) ∧
    (t.execute host p memory).1 ≠ .error (.runtime .noSelf) ∧
    ∀ id name, (t.execute host p memory).1 ≠ .error (.runtime (.missingCell id name)) := by
  have hbuilt := Graph.built_of_build hparse hbuild
  obtain ⟨_, hgood⟩ := linked_good hlink
  have ha := hgood.wellFormed
  have hmirrored {n : Nat} {q : Moment σ} (hmet : t.Meets host p memory n q) : q.Mirrored p holds := by
    obtain ⟨templates, start, hcompile, hstarts, hmeets⟩ := hmet
    obtain ⟨hstart, _⟩ := Toolchain.starts_mirrored hbuilt hlink hclean hhost hmemory hgiven hcompile hstarts
    exact (mirrored_lasting ha.ordered hhost).meets 0
      (fun n q hmet => hgiven n q ⟨templates, start, hcompile, hstarts, hmet⟩) hstart hmeets
  have hfaultless {n : Nat} {q : Moment σ} {fault : RuntimeFault} (hmet : t.Meets host p memory n q)
      (hfaults : q.Faults host fault) : fault ≠ .noSelf ∧ ∀ id name, fault ≠ .missingCell id name := by
    obtain ⟨m, _, scope, henvironment⟩ := (hmirrored hmet).environment ha
    exact henvironment.faultless hfaults
  have hruns {fault : RuntimeFault} (h : (t.execute host p memory).1 = .error (.runtime fault)) :
      fault ≠ .noSelf ∧ ∀ id name, fault ≠ .missingCell id name := by
    obtain ⟨start, _, ⟨n, q, hmet, hfaults⟩ | ⟨templates, linked, hcompile, hmem, hstarts, hexports⟩⟩ :=
      Toolchain.execute_fault h
    · exact hfaultless hmet hfaults
    · obtain ⟨hstart, hlevel⟩ :=
        Toolchain.starts_mirrored hbuilt hlink hclean hhost hmemory hgiven hcompile hstarts
      exact hexports.found ha hhost (hlevel linked hmem) hstart
        fun n q hmet => hgiven n q ⟨templates, start, hcompile, hstarts, hmet⟩
  refine ⟨fun n q hmet =>
    ⟨(hmirrored hmet).environment ha, (hmirrored hmet).captured, fun h => ?_, fun id name h => ?_⟩,
    fun h => ?_, fun id name h => ?_⟩
  · exact (hfaultless hmet h).1 rfl
  · exact (hfaultless hmet h).2 id name rfl
  · exact (hruns h).1 rfl
  · exact (hruns h).2 id name rfl

end

/-! ## Enough arguments -/

/-- a template passes a check, and so do those nested in it, where they are nested less than `depth` deep -/
def Template.everywhere (check : Template → Bool) : (depth : Nat) → Template → Bool
  | 0, _ => false
  | depth + 1, t => check t && t.nested.all (everywhere check depth)

/-- what is checked for the templates of modules and those nested in them is so for all templates of a program -/
theorem Program.Makes.everywhere {check : Template → Bool} (depth : Nat) {templates : List (Option Template)}
    (hcompile : p.compile = .ok templates) (hcheck : ∀ t, some t ∈ templates → t.everywhere check depth = true)
    (h : p.Makes t) : check t = true := by
  have hdeep : ∃ depth, t.everywhere check (depth + 1) = true := by
    induction h with
    | @body other t compiles mem =>
      obtain rfl : templates = other := Except.ok.inj (hcompile.symm.trans compiles)
      have ht := hcheck t mem
      cases depth with
      | zero => cases ht
      | succ depth => exact ⟨depth, ht⟩
    | nested _ mem ih =>
      obtain ⟨depth, ht⟩ := ih
      obtain ⟨_, hnested⟩ := Bool.and_eq_true_iff.1 ht
      have hu := List.all_eq_true.1 hnested _ mem
      cases depth with
      | zero => cases hu
      | succ depth => exact ⟨depth, hu⟩
  obtain ⟨depth, ht⟩ := hdeep
  exact (Bool.and_eq_true_iff.1 ht).1

/-- a template has no more than so many parameters, and its code calls nothing with fewer arguments -/
def Template.ofArity (arity : Nat) (t : Template) : Bool :=
  decide (t.parameters.length ≤ arity) && t.code.all fun
    | .dispatch count => decide (arity ≤ count)
    | _ => true

/-- where each call of a program gives as many arguments as any function of the program has parameters, all calls have
enough of them -/
theorem Toolchain.allGiven_of_arity (arity : Nat) {toolchain : Toolchain} {memory : σ} (hhost : host.Conserves holds)
    (hmemory : holds memory = []) (h : ∀ t, p.Makes t → t.ofArity arity = true) :
    toolchain.AllGiven host p memory := by
  intro n q hmet i c arguments rest m hdoes
  have hready := hmet.ready hhost hmemory
  obtain ⟨_, _, hc, _, _⟩ := hready.does hhost (fun _ ht _ hu => .nested ht hu) hdoes
  obtain ⟨hparameters, _⟩ := Bool.and_eq_true_iff.1 (h c.template hc)
  obtain ⟨_, hcalls⟩ := Bool.and_eq_true_iff.1 (h q.template hready.template)
  obtain ⟨rfl, _⟩ := (Run.Step.of_execute hdoes.2).effect q.place
  have hcount := List.all_eq_true.1 hcalls _ (List.mem_of_getElem? hdoes.1)
  exact Nat.le_trans (of_decide_eq_true hparameters) (of_decide_eq_true hcount)

/-- the text of a root module that calls a function made by a function of another text, over a variable of that -/
def adding : String := "use \"lib\" (adder); let add := adder(2); pub let five := add(3);"

def addingLibrary : Loader :=
  .memory (Loader.insert .empty "lib"
    "pub let adder := fn(n: Int): (Int) => Int { let start := n; return fn(m: Int): Int { return start + m; }; };")

theorem adding_arity : (assembled "main" adding addingLibrary [StandardFunction.module]).any (fun x =>
    !x.2.2.hasErrors && match x.2.2.compile with
      | .ok templates => templates.all (Option.all (Template.everywhere (Template.ofArity 1) 3))
      | .error _ => false) = true := by
  set_option maxRecDepth 100000 in decide +kernel

theorem environments_mirror_adding : ∃ body g p, parse adding = .ok body ∧
    Graph.build "main" body addingLibrary [StandardFunction.module] = .ok g ∧ link g = .ok p ∧ p.hasErrors = false ∧
    printing.Conserves (fun _ => []) ∧ Toolchain.default.AllGiven printing p [] ∧
    (∀ n q, Toolchain.default.Meets printing p [] n q → ∃ m ∈ p.modules, ∃ scope, q.Environment ⟨p, m⟩ scope) ∧
    (Toolchain.default.execute printing p []).1 ≠ .error (.runtime .noSelf) ∧
    ∀ id name, (Toolchain.default.execute printing p []).1 ≠ .error (.runtime (.missingCell id name)) := by
  obtain ⟨⟨body, g, p⟩, hassembled, hchecks⟩ := (Option.any_eq_true _ _).1 adding_arity
  obtain ⟨hparse, hbuild, hlink⟩ := assembled_eq hassembled
  obtain ⟨hclean, harity⟩ := Bool.and_eq_true_iff.1 hchecks
  replace hclean : p.hasErrors = false := by simpa using hclean
  have hmemory : (fun _ => []) ([] : List String) = ([] : List Closure) := rfl
  have hgiven : Toolchain.default.AllGiven printing p [] := by
    refine Toolchain.allGiven_of_arity 1 printing_conserves hmemory fun t ht => ?_
    cases hcompile : p.compile with
    | error fault => rw [hcompile] at harity; cases harity
    | ok templates =>
      rw [hcompile] at harity
      exact ht.everywhere 3 hcompile fun u hu => List.all_eq_true.1 harity (some u) hu
  obtain ⟨hmoments, hself, hcell⟩ := environments_mirror hparse hbuild hlink hclean printing_conserves hmemory hgiven
  exact ⟨body, g, p, hparse, hbuild, hlink, hclean, printing_conserves, hgiven,
    fun n q hmet => (hmoments n q hmet).1, hself, hcell⟩

end TypedScript
