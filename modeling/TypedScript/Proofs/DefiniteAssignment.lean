/-
Definite assignment. A name means a variable from the variable's declaration on, so that code that can be checked stands
behind the declarations of what it reads. But what is declared in the body of a condition can be used behind that body
as well, whether the body has been run or not. In a checked program in which this does not happen, every variable that
is read has a value, whichever way the run has come to the read, and in whichever function the read stands.

- `Program.sparesParameters`: the cells of parameters are made for calls only.
- `Toolchain.starts_assigned`: variables have values as the templates say wherever the body of a module starts.
- `reads_follow_declarations`: what is read in a run has a value in the frame that holds it.
-/
import TypedScript.Proofs.Exports
import TypedScript.Proofs.Machine.Assigned
import TypedScript.Proofs.Returns

namespace TypedScript

open Compile (Job)

variable {σ : Type} {holds : σ → List Closure} {host : Host σ} {natives : List NativeModule} {g : Graph} {p : Program}
  {m m' : Machine σ} {t : Template} {templates : List (Option Template)} {start : Moment σ} {turns : Nat}

/-! ## Templates of a program -/

/-- no variable that is declared in the body of a condition is used behind that body, in any module of a graph -/
def Graph.Confined (g : Graph) : Prop := ∀ t ∈ g.trees, ∀ f ∈ t, f.confined = true

namespace Program

/-- every template of a checked program was laid down for a scope -/
theorem Makes.exists_lays (hbuilt : g.Built natives) (hlink : link g = .ok p) (hclean : p.hasErrors = false)
    (h : p.Makes t) : ∃ m ∈ p.modules, ∃ scope, Job.Lays ⟨p, m⟩ scope t := by
  obtain ⟨_, hgood⟩ := linked_good hlink
  induction h with
  | body compiles mem =>
    obtain ⟨m, hm, hcompile⟩ := exists_module compiles mem
    obtain ⟨hlays, _⟩ := laid_module hbuilt hlink hclean hm hcompile
    exact ⟨m, hm, _, hlays⟩
  | nested _ mem ih =>
    obtain ⟨m, hm, scope, hlays⟩ := ih
    obtain ⟨inner, _, hinner⟩ := hlays.nested hgood.wellFormed.ordered mem
    exact ⟨m, hm, inner, hinner⟩

/-- the body of a module may be entered where no variable has a value -/
theorem sure_body (hbuilt : g.Built natives) (hlink : link g = .ok p) (hclean : p.hasErrors = false)
    (hconfined : g.Confined) (hcompile : p.compile = .ok templates) (ht : some t ∈ templates) : t.Sure [] := by
  obtain ⟨_, hgood⟩ := linked_good hlink
  rw [compile_eq (fun m hm => linked_made hbuilt hlink hm) hlink hclean] at hcompile
  obtain rfl := Except.ok.inj hcompile
  obtain ⟨tree, htree, hlaid⟩ := List.mem_map.1 ht
  obtain ⟨f, rfl, rfl⟩ := Option.map_eq_some_iff.1 hlaid
  obtain ⟨k, hk⟩ := List.getElem?_of_mem htree
  obtain ⟨hlt, _⟩ := List.getElem?_eq_some_iff.1 hk
  have hm := List.getElem?_eq_getElem (hgood.length ▸ hlt)
  have hmem := List.mem_of_getElem? hm
  obtain ⟨_, _, hnone⟩ | ⟨body, bs, d, _, _, hd, hf⟩ := clean_module (linked_made hbuilt hlink hmem)
    (diagnostics_of_hasErrors hclean hmem) (hgood.checked k _ _ hm hk)
  · cases hnone
  · obtain rfl := Option.some.inj hf
    have hcovered := hd.accepts.covered hd.keyed (hconfined _ htree _ rfl) hd.sees
    exact hcovered.sure (fun _ _ _ hother => absurd hother List.not_mem_nil) true

theorem Makes.exists_sure (hbuilt : g.Built natives) (hlink : link g = .ok p) (hclean : p.hasErrors = false)
    (hconfined : g.Confined) (h : p.Makes t) : ∃ ready, t.Sure ready := by
  induction h with
  | body compiles mem => exact ⟨[], sure_body hbuilt hlink hclean hconfined compiles mem⟩
  | nested _ mem ih =>
    obtain ⟨ready, hsure⟩ := ih
    exact hsure.nested mem

/-- a parameter is no variable that a template makes a cell for: it would be of the same scope, and so of the same
template, which makes cells for its other variables only -/
theorem sparesParameters (hbuilt : g.Built natives) (hlink : link g = .ok p) (hclean : p.hasErrors = false)
    (hconfined : g.Confined) : p.SparesParameters := by
  obtain ⟨_, hgood⟩ := linked_good hlink
  have ha := hgood.wellFormed
  rintro t ht cell hcell ⟨u, hu, other, hother, hid⟩
  obtain ⟨m, _, scope, hlays⟩ := ht.exists_lays hbuilt hlink hclean
  obtain ⟨m', _, scope', hlays'⟩ := hu.exists_lays hbuilt hlink hclean
  obtain ⟨hparameters, code, hcode, _⟩ := hlays.code_scoped ha.ordered
  obtain ⟨_, code', hcode', hscoped⟩ := hlays'.code_scoped ha.ordered
  have hlocal : other ∈ Compile.localCells ⟨p, m'⟩ scope' := by
    rw [hcode', Compile.reservations_eq] at hother
    rcases List.mem_append.1 hother with hfront | hbehind
    · obtain ⟨_, hmem, heq⟩ := List.mem_map.1 hfront
      cases heq
      exact hmem
    · exact (hscoped.reaches _ hbehind).elim
  have hown : cell ∈ p.arena.cells scope := by
    rw [hparameters] at hcell
    rw [← Compile.parameterCells_append_localCells ⟨p, m⟩ scope]
    exact List.mem_append_left _ hcell
  have hthere : other ∈ p.arena.cells scope' := by
    rw [← Compile.parameterCells_append_localCells ⟨p, m'⟩ scope']
    exact List.mem_append_right _ hlocal
  obtain rfl : scope' = scope := p.arena.eq_of_mem_cells ha hthere hown hid
  obtain ⟨ready, hsure⟩ := ht.exists_sure hbuilt hlink hclean hconfined
  refine hsure.apart cell hcell other ?_ hid
  rw [hcode, Compile.reservations_eq]
  exact List.mem_append_left _ (List.mem_map_of_mem hlocal)

end Program

/-! ## Modules -/

/-- no run of a body that ends leaves an export that cannot be read -/
theorem Program.BodyCode.reads_exports {linked : LinkedModule} (h : p.BodyCode linked t) (hordered : p.arena.Ordered)
    {before : Machine σ} {fault : RuntimeFault} :
    ¬ Toolchain.ExportFaults host turns p linked (.started t before) fault := by
  rintro ⟨v, left, last, s, e, found, hrun, hs, he, hfound, hload⟩
  obtain ⟨final, hmet, _, hleaves⟩ := Moment.exists_leaving hrun
  obtain ⟨s', w, hs', hfind, hinitialised⟩ := h.exported_initialised hordered hmet hleaves he
  obtain rfl : s = s' := Option.some.inj (hs.symm.trans hs')
  rw [Scope.variableIndex?_bind, hfind] at hfound
  obtain rfl := Option.some.inj hfound
  obtain rfl := hleaves.machine_eq
  obtain ⟨_, value, _, hvalue⟩ := hinitialised.load
  rw [hmet.frame, hload] at hvalue
  cases hvalue

namespace Machine.Assigned

theorem new (hhost : host.Conserves holds) {memory : σ} (hmemory : holds memory = []) (limit : Nat) :
    (Machine.new host limit memory).Assigned p holds := by
  have hempty : (Machine.new host limit memory).store = .empty := hhost.store
  refine ⟨fun c hc => absurd hc (Machine.not_around_new hhost hmemory limit), fun frame id hslot => ?_⟩
  rw [hempty] at hslot
  cases hslot

/-- the body of a module starts in a frame without cells -/
theorem started (h : m.Assigned p holds) (hspares : p.SparesParameters) (hmakes : p.Makes t) (hsure : t.Sure []) :
    (Moment.started t m).Assigned p holds := by
  let after := m.store.newRoot.2
  have hgrows : m.store.Grows after := Store.grows_newFrame m.store _ []
  have hnewest : m.store.frames.size < after.frames.size :=
    Nat.lt_of_lt_of_eq (Nat.lt_succ_self _) (Array.size_push _).symm
  have hcovered {c : Closure} (hc : (Moment.started t m).Around holds c) : p.Covers m.store c :=
    h.covered c (Moment.around_started hc)
  refine .start hspares rfl hmakes hnewest hsure (fun _ h => nomatch h) (fun c hc => (hcovered hc).grows hgrows)
    (fun c hc => (hcovered hc).made) fun frame id hslot => ?_
  obtain ⟨_, _, hmem, _⟩ | hold := @Store.slot?_newFrame _ m.store _ _ _ _ [] rfl hslot
  · cases hmem
  · exact h.empty frame id hold

end Machine.Assigned

namespace Toolchain

/-- after a module has run, all functions around count on variables that have values -/
theorem runModule_assigned (hspares : p.SparesParameters) (hhost : host.Conserves holds) {linked : LinkedModule}
    {template : Option Template} {value : Option ModuleValue} (hstart : ∀ t, template = some t → p.Makes t ∧ t.Sure [])
    (hm : m.Assigned p holds) (h : runModule host turns p linked template m = (.ok value, m')) :
    m'.Assigned p holds := by
  obtain ⟨native, _, rfl⟩ | ⟨body, t, v, left, last, exports, _, rfl, hrun, hcollect, rfl⟩ := runModule_ok h
  · exact ⟨fun c hc => hm.covered c hc.registerNative, hm.empty⟩
  · obtain ⟨hmakes, hsure⟩ := hstart t rfl
    obtain ⟨final, _, hfinal, _, hleaves⟩ :=
      (assigned_lasting hspares hhost.passes).exists_last 0 (fun _ _ _ => trivial)
      (hm.started hspares hmakes hsure) hrun
    have haround {c : Closure} (hc : (last.register linked.module.key exports).Around holds c) : final.Around holds c :=
      hleaves.around hhost.passes (Or.inr (hc.collected hcollect))
    obtain rfl := hleaves.machine_eq
    exact ⟨fun c hc => hfinal.covered c (haround hc), hfinal.empty⟩

variable {toolchain : Toolchain} {memory : σ}

theorem starts_assigned (hbuilt : g.Built natives) (hlink : link g = .ok p) (hclean : p.hasErrors = false)
    (hconfined : g.Confined) (hhost : host.Conserves holds) (hmemory : holds memory = [])
    (hcompile : p.compile = .ok templates)
    (hstarts : Starts host (fuel toolchain.maxCallDepth templates) p (p.modules.zip templates)
      (Machine.new host toolchain.maxCallDepth memory) start) : start.Assigned p holds := by
  have hspares := Program.sparesParameters hbuilt hlink hclean hconfined
  have hbody {linked : LinkedModule} {t : Template} (hmem : (linked, some t) ∈ p.modules.zip templates) :
      p.Makes t ∧ t.Sure [] := by
    have ht := (List.of_mem_zip hmem).2
    exact ⟨.body hcompile ht, Program.sure_body hbuilt hlink hclean hconfined hcompile ht⟩
  obtain ⟨linked, _, t, before, hmem, _, hbefore, rfl⟩ := hstarts.keeps (J := fun m => m.Assigned p holds)
    (fun linked t before value after hmem _ hbefore hrun =>
      runModule_assigned hspares hhost (fun u hu => hbody (hu ▸ hmem)) hbefore hrun)
    (.new hhost hmemory _)
  obtain ⟨hmakes, hsure⟩ := hbody hmem
  exact hbefore.started hspares hmakes hsure

end Toolchain

/-! ## Runs -/

section

variable {toolchain : Toolchain} {memory : σ}

/-- in a run of a checked program in which no variable is used behind the body of a condition that declares it, with a
host that makes no functions of its own, each variable that is read has a value in the frame that holds it; neither an
instruction nor the program fails because a variable has none -/
theorem reads_follow_declarations {rootPath text : String} {root : Block} {loader : Loader}
    (hparse : parse text = .ok root) (hbuild : Graph.build rootPath root loader natives = .ok g)
    (hlink : link g = .ok p) (hclean : p.hasErrors = false) (hconfined : g.Confined) (hhost : host.Conserves holds)
    (hmemory : holds memory = []) :
    (∀ n q, toolchain.Meets host p memory n q →
      (∀ cell, q.instruction? = some (.load cell) → ∀ holder, q.machine.store.holder? q.frame cell.id = some holder →
        ∃ v, q.machine.store.slot? holder cell.id = some (some v)) ∧
      ∀ id name, ¬ q.Faults host (.uninitialisedCell id name)) ∧
    ∀ id name, (toolchain.execute host p memory).1 ≠ .error (.runtime (.uninitialisedCell id name)) := by
  have hbuilt := Graph.built_of_build hparse hbuild
  have hspares := Program.sparesParameters hbuilt hlink hclean hconfined
  have hmoments {n : Nat} {q : Moment σ} (hmet : toolchain.Meets host p memory n q) : q.Assigned p holds := by
    obtain ⟨templates, start, hcompile, hstarts, hmeets⟩ := hmet
    have hstart := Toolchain.starts_assigned hbuilt hlink hclean hconfined hhost hmemory hcompile hstarts
    exact (assigned_lasting hspares hhost.passes).meets 0 (fun _ _ _ => trivial) hstart hmeets
  refine ⟨fun n q hmet => ⟨fun cell hi => (hmoments hmet).reads hi, (hmoments hmet).faultless⟩,
    fun id name hfault => ?_⟩
  obtain ⟨start, _, ⟨n, q, hmet, hfaults⟩ | ⟨templates, linked, hcompile, hmem, hstarts, hexports⟩⟩ :=
    Toolchain.execute_fault hfault
  · exact (hmoments hmet).faultless id name hfaults
  · -- exports are read when the body of their module has run, and then they have values
    have hcompiled := Program.compiled hbuilt hlink hclean hcompile
    obtain ⟨turn, _, t, _, rfl⟩ := hstarts.exists_turn
    exact (hcompiled.bodies linked t hmem).reads_exports hcompiled.wellFormed.ordered hexports

end

/-- the program that halves numbers declares a variable in the body of a condition, and uses it there -/
theorem reads_follow_declarations_halving : ∃ body g p, parse halving = .ok body ∧
    Graph.build "main" body halvingLibrary [doubles] = .ok g ∧ link g = .ok p ∧ p.hasErrors = false ∧ g.Confined ∧
    doubling.Conserves (fun _ => []) ∧
    (∀ n q cell holder, Toolchain.default.Meets doubling p 0 n q → q.instruction? = some (.load cell) →
      q.machine.store.holder? q.frame cell.id = some holder →
        ∃ v, q.machine.store.slot? holder cell.id = some (some v)) ∧
    ∀ id name, (Toolchain.default.execute doubling p 0).1 ≠ .error (.runtime (.uninitialisedCell id name)) := by
  obtain ⟨⟨body, g, p⟩, hassembled, hchecks⟩ := (Option.any_eq_true _ _).1 halving_strict
  obtain ⟨hparse, hbuild, hlink⟩ := assembled_eq hassembled
  obtain ⟨hclean, hstrict⟩ := Bool.and_eq_true_iff.1 hchecks
  replace hclean : p.hasErrors = false := by simpa using hclean
  have hconfined : g.Confined := (of_decide_eq_true hstrict).confined
  obtain ⟨hmoments, hends⟩ := reads_follow_declarations hparse hbuild hlink hclean hconfined doubling_conserves rfl
  exact ⟨body, g, p, hparse, hbuild, hlink, hclean, hconfined, doubling_conserves,
    fun n q cell holder hmet hi => (hmoments n q hmet).1 cell hi holder, hends⟩

/-- the text of a module that uses a variable behind the body of a condition, which is not run -/
def skipping : String := "if false { let x := 1; } let y := x;"

theorem skipping_checks : (assembled "main" skipping (.memory .empty) []).any (fun x =>
    !x.2.2.hasErrors && decide (x.2.2.Plain []) && match (Toolchain.default.execute printing x.2.2 []).1 with
      | .error (.runtime (.uninitialisedCell _ name)) => name = "x"
      | _ => false) = true := by
  set_option maxRecDepth 100000 in decide +kernel

/-- the check accepts it all the same, although it says nowhere `Any`, and its run finds the variable without a value -/
theorem read_without_declaration : ∃ body g p id, parse skipping = .ok body ∧
    Graph.build "main" body (.memory .empty) [] = .ok g ∧ link g = .ok p ∧ p.hasErrors = false ∧ p.Plain [] ∧
    (Toolchain.default.execute printing p []).1 = .error (.runtime (.uninitialisedCell id "x")) := by
  obtain ⟨⟨body, g, p⟩, hassembled, hchecks⟩ := (Option.any_eq_true _ _).1 skipping_checks
  obtain ⟨hparse, hbuild, hlink⟩ := assembled_eq hassembled
  obtain ⟨hchecks, hfault⟩ := Bool.and_eq_true_iff.1 hchecks
  obtain ⟨hclean, hplain⟩ := Bool.and_eq_true_iff.1 hchecks
  replace hclean : p.hasErrors = false := by simpa using hclean
  split at hfault
  · next id name hresult =>
    obtain rfl : name = "x" := of_decide_eq_true hfault
    exact ⟨body, g, p, id, hparse, hbuild, hlink, hclean, of_decide_eq_true hplain, hresult⟩
  · cases hfault

end TypedScript
