/-
Compilation preserves meaning. A clean program that is compiled and run on the machine comes to what direct evaluation
of its bound trees finds.

- `execute_eq`: the outcome of a run, with what the host remembers after it.
- `compiled_means`: also the calls that the host gets are the same, for every host that makes no functions of its own.
-/
import TypedScript.Proofs.Compilation
import TypedScript.Proofs.Direct.Hosts
import TypedScript.Proofs.Direct.Modules

namespace TypedScript

/-! ## Fuel -/

/-- a running maximum is at least where it starts and at least each of the values -/
theorem le_foldl_max {α : Type} (f : α → Nat) (xs : List α) (n : Nat) :
    n ≤ xs.foldl (fun n x => max n (f x)) n ∧ ∀ x ∈ xs, f x ≤ xs.foldl (fun n x => max n (f x)) n := by
  induction xs generalizing n with
  | nil => exact ⟨Nat.le_refl n, fun _ h => nomatch h⟩
  | cons y ys ih =>
    obtain ⟨hstart, hall⟩ := ih (max n (f y))
    rw [List.foldl_cons]
    refine ⟨Nat.le_trans (Nat.le_max_left _ _) hstart, fun x hx => ?_⟩
    rcases List.mem_cons.1 hx with rfl | hx
    · exact Nat.le_trans (Nat.le_max_right _ _) hstart
    · exact hall x hx

/-- the fuel of a program is more than its longest code and a whole body in each open call need -/
theorem Toolchain.fuel_enough (limit : Nat) (templates : List (Option Template)) :
    ∃ longest, (∀ t, some t ∈ templates → t.longest ≤ longest) ∧
      longest + limit * (longest + 1) < Toolchain.fuel limit templates := by
  refine ⟨_, fun t ht => (le_foldl_max (fun t => (t.map Template.longest).getD 0) templates 0).2 (some t) ht, ?_⟩
  unfold Toolchain.fuel
  dsimp only
  generalize templates.foldl _ 0 = longest
  rw [Nat.add_mul, Nat.mul_add, Nat.mul_add]
  omega

/-! ## Outcomes -/

namespace Direct

/-- a run of the machine comes to what direct evaluation comes to, the values made of templates in place of function
literals -/
def Agrees {σ τ : Type} (view : σ → τ) (found : Except ToolchainError TypedScript.ModuleValue × τ) :
    Except RuntimeFault (Option ModuleValue) × σ → Prop
  | (.ok value, memory) => ∃ v, value = some v ∧ found = (.ok v.lower, view memory)
  | (.error fault, memory) => found = (.error (.runtime fault), view memory)

variable {σ τ : Type} {host : Host σ} {limit : Nat} {p : Program}

/-- there is a value in the end if there was one or a source module runs -/
theorem runModules_value {ms : List Module} {last value : Option ModuleValue} {s s' : State σ}
    (h : runModules host limit ms last s = .ok value s')
    (hms : last.isSome = true ∨ ∃ key body exports, Module.source key body exports ∈ ms) : value.isSome = true := by
  induction ms generalizing last s with
  | nil =>
    cases h
    exact hms.resolve_right fun ⟨_, _, _, hmem⟩ => nomatch hmem
  | cons m ms ih =>
    cases m with
    | native native =>
      refine ih h (hms.imp_right ?_)
      rintro ⟨key, body, exports, hmem⟩
      exact ⟨key, body, exports, (List.mem_cons.1 hmem).resolve_left fun heq => nomatch heq⟩
    | source key body exports =>
      unfold runModules at h
      rw [bind_apply] at h
      cases hsource : runSource host limit key body exports s with
      | error fault s => rw [hsource] at h; cases h
      | ok found s =>
        rw [hsource] at h
        exact ih h (Or.inl rfl)

end Direct

section

open Direct

variable {σ τ : Type} {natives : List NativeModule} {g : Graph} {p : Program} {t : Toolchain}
  {host : Direct.Host σ} {machine : Host τ} {view : σ → τ} {holds : τ → List Closure} {memory : σ}

/-- what is known of the modules of a clean program and their bound trees, pair by pair -/
theorem clean_trees (hbuilt : g.Built natives) (hlink : link g = .ok p) (hclean : p.hasErrors = false) :
    List.Forall₂ (fun m t => ∀ body, m.module.content = .source body → ∃ f, t = some f) p.modules g.trees := by
  refine linked_forall₂ hlink fun k m t hm hchecked body hbody => ?_
  have hmem := List.mem_of_getElem? hm
  obtain ⟨native, hcontent, rfl⟩ | ⟨_, bs, d, _, _, _, rfl⟩ :=
    clean_module (linked_made hbuilt hlink hmem) (diagnostics_of_hasErrors hclean hmem) hchecked
  · rw [hcontent] at hbody
    cases hbody
  · exact ⟨_, rfl⟩

/-- a clean program has a source module to run -/
theorem direct_source (hbuilt : g.Built natives) (hlink : link g = .ok p) (hclean : p.hasErrors = false) :
    ∃ key body exports, Module.source key body exports ∈ p.direct g.trees := by
  obtain ⟨m, hm, body, hbody⟩ := linked_source hbuilt hlink
  obtain ⟨k, hk, rfl⟩ := List.getElem_of_mem hm
  have htrees := clean_trees hbuilt hlink hclean
  have hk' : k < g.trees.length := htrees.length_eq ▸ hk
  obtain ⟨f, hf⟩ := htrees.get hk hk' body hbody
  refine ⟨_, f, _, List.mem_filterMap.2 ⟨(p.modules[k], some f), ?_, Program.directModule_source hbody f⟩⟩
  rw [← hf]
  exact List.mem_iff_getElem.2 ⟨k, by rw [List.length_zip]; omega, List.getElem_zip⟩

/-- the machine comes to what direct evaluation comes to -/
theorem execute_eq (hbuilt : g.Built natives) (hlink : link g = .ok p) (hclean : p.hasErrors = false)
    (hmirrors : Mirrors host machine view) (hhost : machine.Conserves holds) (hmemory : holds (view memory) = []) :
    Agrees view (t.execute machine p (view memory))
      (Direct.execute host t.maxCallDepth (p.direct g.trees) memory) := by
  obtain ⟨_, hgood⟩ := linked_good hlink
  have hcompile := compile_eq (fun m hm => linked_made hbuilt hlink hm) hlink hclean
  let templates := g.trees.map (Option.map (Bound.Function.template true))
  obtain ⟨longest, hlongest, hfuel⟩ := Toolchain.fuel_enough t.maxCallDepth templates
  have hrunnable : ∀ m ∈ p.modules.zip g.trees, Runnable longest m := by
    intro m hm body hbody
    obtain ⟨f, hf⟩ := (List.forall₂_iff_zip.1 (clean_trees hbuilt hlink hclean)).2 hm body hbody
    refine ⟨f, hf, f.forward true, hlongest _ (List.mem_map.2 ⟨some f, ?_, rfl⟩)⟩
    rw [← hf]
    exact (List.of_mem_zip hm).2
  let start : State σ := ⟨.empty, .empty, memory⟩
  have hstart : Machine.new machine t.maxCallDepth (view memory) = start.lower view t.maxCallDepth 0 := by
    unfold Machine.new State.lower
    rw [hhost.store, Store.map_empty]
    rfl
  have honly : Run.Only (Template.Within longest) holds t.maxCallDepth 0 (start.lower view t.maxCallDepth 0) := by
    rw [← hstart]
    refine ⟨fun _ _ _ h => (nomatch h), ?_, fun c hc => ?_, rfl, rfl⟩
    · change machine.store.Only _
      rw [hhost.store]
      exact Store.only_empty
    · change c ∈ holds (view memory) at hc
      rw [hmemory] at hc
      cases hc
  have hrun := runModules_eq none hmirrors hhost hgood.wellFormed hrunnable honly hfuel
  rw [show (p.modules.zip g.trees).map (fun m => (m.1, m.2.map (Bound.Function.template true))) =
    p.modules.zip templates from List.zip_map_right.symm, Option.map_none] at hrun
  unfold Toolchain.execute Toolchain.compile Direct.execute
  rw [hcompile, hstart]
  dsimp only [Except.mapError]
  rw [hrun]
  unfold Program.direct
  cases hdirect : runModules host t.maxCallDepth ((p.modules.zip g.trees).filterMap p.directModule) none start with
  | error fault s => rfl
  | ok value s =>
    have hvalue := runModules_value hdirect (Or.inr (direct_source hbuilt hlink hclean))
    obtain ⟨v, rfl⟩ := Option.isSome_iff_exists.1 hvalue
    exact ⟨v, rfl, rfl⟩

/-- for a host of the machine that makes no functions of its own there is one of direct evaluation that does the same,
and with any such host the machine comes to the same result and exports or the same fault as direct evaluation, makes
the same calls of the host in the same order, and leaves the host with the same memory -/
theorem compiled_means {rootPath text : String} {root : Block} {loader : Loader} (hparse : parse text = .ok root)
    (hbuild : Graph.build rootPath root loader natives = .ok g) (hlink : link g = .ok p) (hclean : p.hasErrors = false)
    (hhost : machine.Conserves holds) :
    (∃ host : Direct.Host (Memory holds), Mirrors host machine Memory.memory) ∧
    ∀ {σ : Type} (host : Direct.Host σ) (view : σ → τ) (memory : σ), Mirrors host machine view →
      holds (view memory) = [] →
      Agrees (fun m => view m.1) (t.execute machine p (view memory))
          (Direct.execute host.logged t.maxCallDepth (p.direct g.trees) (memory, [])) ∧
        Agrees (fun m => (view m.1, lowerCalls m.2)) (t.execute machine.logged p (view memory, []))
          (Direct.execute host.logged t.maxCallDepth (p.direct g.trees) (memory, [])) := by
  have hbuilt := Graph.built_of_build hparse hbuild
  refine ⟨exists_mirror hhost, fun host view memory hmirrors hmemory => ⟨?_, ?_⟩⟩
  · exact execute_eq hbuilt hlink hclean hmirrors.logged hhost hmemory
  · exact execute_eq hbuilt hlink hclean hmirrors.logged_both hhost.logged hmemory

end

/-- a host with the standard functions only, which keeps the lines that are printed -/
def printing : Host (List String) :=
  StandardFunction.host (fun line lines => lines ++ [line]) (fun _ _ lines => (.error "unknown function", lines)) .empty

theorem printing_conserves : printing.Conserves fun _ => [] := by
  refine ⟨rfl, fun id arguments lines v h c hc => ?_, fun _ _ _ _ h => nomatch h⟩
  have hv : v.closures = [] := by
    cases id with
    | host number => cases h
    | standard f =>
      change f.answer arguments = .ok v at h
      unfold StandardFunction.answer at h
      split at h <;> cases h <;> rfl
  rw [hv] at hc
  cases hc

theorem compiled_means_importing : ∃ body g p, parse importing = .ok body ∧
    Graph.build "main" body library [StandardFunction.module] = .ok g ∧ link g = .ok p ∧ p.hasErrors = false ∧
    printing.Conserves (fun _ => []) ∧
    ∃ host : Direct.Host (Direct.Memory fun _ : List String => []), Direct.Mirrors host printing Direct.Memory.memory ∧
      Direct.Agrees (fun m => (m.1.memory, Direct.lowerCalls m.2))
        ((Toolchain.default.withLoader library).execute printing.logged p ([], []))
        (Direct.execute host.logged Toolchain.defaultMaxCallDepth (p.direct g.trees) (⟨[], [], by simp⟩, [])) := by
  obtain ⟨body, g, p, hparse, hbuild, _, hlink, hclean⟩ := importing_checked
  obtain ⟨⟨host, hmirrors⟩, hagrees⟩ :=
    @compiled_means _ _ g p (Toolchain.default.withLoader library) _ _ _ _ _ _ hparse hbuild hlink hclean
      printing_conserves
  exact ⟨body, g, p, hparse, hbuild, hlink, hclean, printing_conserves, host, hmirrors,
    (hagrees host Direct.Memory.memory ⟨[], [], by simp⟩ hmirrors rfl).2⟩

end TypedScript
