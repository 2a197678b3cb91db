/-
Running modules on the machine and evaluating them directly. The machine's fuel is enough for the code of the whole
program (`Toolchain.fuel`), so that what the code settles to is what the tool chain finds.

- `runModules_eq`: the machine runs the templates of bound trees to what direct evaluation finds.
-/
import TypedScript.Proofs.Bound.Program
import TypedScript.Proofs.Direct.Simulation
import TypedScript.Proofs.Machine.Ends
import TypedScript.Toolchain

namespace TypedScript

/-! ## Exports -/

/-- the variable of a name, by its place in the scope -/
theorem Scope.variableIndex?_bind (s : Scope) (name : String) :
    (s.variableIndex? name).bind s.variableAt? = s.find? name := by
  unfold variableIndex? variableAt? find?
  rw [List.find?_eq_bind_findIdx?_getElem?]

namespace Program

variable {p : Program} {m : LinkedModule}

theorem directModule_native {native : NativeModule} (h : m.module.content = .native native)
    (t : Option Bound.Function) : p.directModule (m, t) = some (.native native) := by
  unfold directModule
  rw [h]

theorem directModule_source {body : Block} (h : m.module.content = .source body) (f : Bound.Function) :
    p.directModule (m, some f) = some (.source m.module.key f (p.exported m.scopes.global)) := by
  unfold directModule
  rw [h]

end Program

namespace Direct

variable {σ τ : Type} {host : Host σ} {machine : TypedScript.Host τ} {view : σ → τ} {limit : Nat}
  {holds : τ → List (TypedScript.Closure)} {frame : FrameId} {s : State σ}

theorem load_apply (cell : Cell) (s : State σ) :
    load frame cell s =
      match s.store.load frame cell with
      | .ok v => .ok v s
      | .error fault => .error fault s := by
  change ofExcept (s.store.load frame cell) s = _
  cases s.store.load frame cell <;> rfl

/-- the exports of a module are read from the slots of its variables, and nothing changes -/
theorem collect_eq {a : Arena} {x : ScopeId} (exports : List (String × Ty)) (collected : Exports) (s : State σ)
    (h : ∀ e ∈ exports, ∃ t v, a.get? x = some t ∧ t.find? e.1 = some v) :
    match collect frame (exports.filterMap fun e =>
      ((a.get? x).bind fun t => t.find? e.1).map fun v => (e.1, v.cell)) collected s with
    | .ok exported s' => s' = s ∧ Toolchain.collect (a.get? x) frame exports (collected.map lower)
        (s.lower view limit 0) = .ok (exported.map lower)
    | .error fault s' => s' = s ∧ Toolchain.collect (a.get? x) frame exports (collected.map lower)
        (s.lower view limit 0) = .error (.runtime fault) := by
  induction exports generalizing collected with
  | nil => exact ⟨rfl, rfl⟩
  | cons e exports ih =>
    obtain ⟨name, ty⟩ := e
    obtain ⟨t, v, ht, hv⟩ := h (name, ty) List.mem_cons_self
    have hload : (s.lower view limit 0).store.load frame v.cell = (s.store.load frame v.cell).map lower :=
      Store.load_map _ _ _ _
    have hlookup : ((a.get? x).bind fun t => (t.variableIndex? name).bind t.variableAt?) = some v := by
      rw [ht, Option.bind_some, Scope.variableIndex?_bind, hv]
    rw [List.filterMap_cons, ht, Option.bind_some, hv, Option.map_some, ← ht]
    unfold Toolchain.collect collect
    rw [bind_apply, load_apply, hlookup]
    dsimp only
    rw [hload]
    cases s.store.load frame v.cell with
    | error fault => exact ⟨rfl, rfl⟩
    | ok value =>
      have hrest := ih (collected.insert name value) fun e he => h e (List.mem_cons_of_mem _ he)
      rw [Table.map_insert] at hrest
      exact hrest

/-! ## One module -/

/-- the state in which the body of a module starts -/
def opened (body : Bound.Function) (s : State σ) : State σ :=
  { s with store := s.store.newRoot.2.fill s.store.newRoot.1 (slots body []) }

theorem openModule_apply (body : Bound.Function) (s : State σ) :
    openModule body s = .ok s.store.newRoot.1 (opened body s) := rfl

/-- how the machine runs the body of a module -/
theorem evaluate_eq {longest fuel : Nat} {f : Bound.Function} (hmirrors : Mirrors host machine view)
    (hhost : machine.Conserves holds) (hf : (f.template true).Within longest)
    (hs : Run.Only (Template.Within longest) holds limit 0 (s.lower view limit 0))
    (hfuel : longest + limit * (longest + 1) < fuel) :
    match stmts host (invoke host limit limit) s.store.newRoot.1 f.body (opened f s) with
    | .ok result s' =>
      (f.template true).evaluate machine fuel (s.lower view limit 0) =
        .ok ⟨lower (result.getD .none), s.store.newRoot.1, []⟩ (s'.lower view limit 0) ∧
      Run.Only (Template.Within longest) holds limit 0 (s'.lower view limit 0)
    | .error fault s' =>
      (f.template true).evaluate machine fuel (s.lower view limit 0) = .error (.fault fault)
        (s'.lower view limit 0) := by
  let frame := s.store.newRoot.1
  let made : State σ := { s with store := s.store.newRoot.2 }
  have hopened : opened f s = { made with store := made.store.fill frame (f.locals.map fun cell => (cell, none)) } := by
    unfold opened slots
    rw [List.zip_nil_right]
    rfl
  have hsettles := settles_body hmirrors (calls_invoke hmirrors limit 0 (Nat.zero_add _)) true f frame made
  rw [← hopened] at hsettles
  have hmade : Run.Only (Template.Within longest) holds limit 0 (made.lower view limit 0) := by
    have hroot : made.store.map (Bound.Function.template false) = (s.lower view limit 0).store.newRoot.2 :=
      (congrArg Prod.snd (Store.newRoot_map _ _)).symm
    refine ⟨hs.modules, ?_, hs.memory, rfl, rfl⟩
    change (made.store.map (Bound.Function.template false)).Only _
    rw [hroot]
    exact hs.store.add rfl fun _ h => nomatch h
  have hends := Run.template_ends hhost hf frame hmade hfuel
  have hcode : Run.code machine fuel (f.template true).code frame 0 [] (made.lower view limit 0) = _ :=
    hsettles.code_eq fun m' hout => by
      rw [hout] at hends
      exact hends rfl
  have hroot : (s.lower view limit 0).store.newRoot = (frame, made.store.map (Bound.Function.template false)) :=
    Store.newRoot_map _ _
  have hstart : { s.lower view limit 0 with store := made.store.map (Bound.Function.template false) } =
      made.lower view limit 0 := rfl
  have hevaluate := Run.evaluate_eq machine fuel (f.template true) (s.lower view limit 0)
  rw [hroot] at hevaluate
  dsimp only at hevaluate
  rw [hstart, hcode] at hevaluate
  rw [hcode] at hends
  cases hstmts : stmts host (invoke host limit limit) s.store.newRoot.1 f.body (opened f s) with
  | error fault s' =>
    rw [hstmts] at hevaluate
    exact hevaluate
  | ok result s' =>
    rw [hstmts] at hevaluate hends
    exact ⟨hevaluate, hends.1⟩

/-! ## All modules -/

/-- the value of a module as the machine has it -/
def ModuleValue.lower (v : ModuleValue) : TypedScript.ModuleValue := ⟨Direct.lower v.result, v.exports.map Direct.lower⟩

/-- an export of a module is what its variable of that name holds when its body has ended -/
theorem load_of_collect {scope : Option Scope} {exports : List (String × Ty)} {collected found : TypedScript.Exports}
    {m : Machine τ} (h : Toolchain.collect scope frame exports collected m = .ok found) {name : String} {v : Value}
    (hv : found.find? name = some v) :
    collected.find? name = some v ∨
      ∃ t w, scope = some t ∧ t.find? name = some w ∧ m.store.load frame w.cell = .ok v := by
  induction exports generalizing collected with
  | nil => cases h; exact Or.inl hv
  | cons e exports ih =>
    unfold Toolchain.collect at h
    split at h
    · cases h
    · next w hw =>
      split at h
      · cases h
      · next value hload =>
        refine (ih h).elim (fun hbefore => ?_) Or.inr
        rw [Table.find?_insert] at hbefore
        split at hbefore
        · next heq =>
          subst heq
          cases hbefore
          obtain ⟨t, rfl, hfind⟩ := Option.bind_eq_some_iff.1 hw
          rw [Scope.variableIndex?_bind] at hfind
          exact Or.inr ⟨t, w, rfl, hfind, hload⟩
        · exact Or.inl hbefore

/-- the exports of a module are in cells when its body has ended -/
theorem slot?_of_collect {scope : Option Scope} {exports : List (String × Ty)} {collected found : TypedScript.Exports}
    {m : Machine τ} (h : Toolchain.collect scope frame exports collected m = .ok found) {name : String} {v : Value}
    (hv : found.find? name = some v) :
    collected.find? name = some v ∨ ∃ holder cell, m.store.slot? holder cell = some (some v) := by
  refine (load_of_collect h hv).imp_right fun ⟨_, w, _, _, hload⟩ => ?_
  obtain ⟨holder, hslot⟩ := Store.slot?_of_load hload
  exact ⟨holder, _, hslot⟩

/-- the exports of a module hold nothing that was not there when its body ended -/
theorem collect_only {P : Template → Prop} {scope : Option Scope} {exports : List (String × Ty)}
    {collected found : TypedScript.Exports} {m : Machine τ} (hm : m.store.Only P)
    (hcollected : ∀ name v, collected.find? name = some v → v.Only P)
    (h : Toolchain.collect scope frame exports collected m = .ok found) :
    ∀ name v, found.find? name = some v → v.Only P := by
  intro name v hv
  obtain hv | ⟨holder, cell, hslot⟩ := slot?_of_collect h hv
  · exact hcollected name v hv
  · exact hm.slots holder cell v hslot

theorem lower_register (module : String) (exports : Exports) (s : State σ) :
    State.lower view limit 0 { s with modules := s.modules.insert module exports } =
      (s.lower view limit 0).register module (exports.map lower) := by
  unfold State.lower Machine.register
  dsimp only
  rw [Table.map_insert]

theorem lower_registerNative (native : NativeModule) (s : State σ) :
    State.lower view limit 0 { s with
      modules := s.modules.insert native.name (.ofList (native.builtins.map fun b => (b.name, .builtin b))) } =
      (s.lower view limit 0).registerNative native := by
  rw [lower_register, Table.map_ofList, List.map_map]
  rfl

/-- how the machine runs a source module -/
theorem runSource_eq {longest fuel : Nat} {f : Bound.Function} {p : Program} {m : LinkedModule} {body : Block}
    (hmirrors : Mirrors host machine view) (hhost : machine.Conserves holds) (hp : p.arena.WellFormed)
    (hbody : m.module.content = .source body) (hf : (f.template true).Within longest)
    (hs : Run.Only (Template.Within longest) holds limit 0 (s.lower view limit 0))
    (hfuel : longest + limit * (longest + 1) < fuel) :
    match runSource host limit m.module.key f (p.exported m.scopes.global) s with
    | .ok value s' =>
      Toolchain.runModule machine fuel p m (some (f.template true)) (s.lower view limit 0) =
        (.ok (some value.lower), s'.lower view limit 0) ∧
      Run.Only (Template.Within longest) holds limit 0 (s'.lower view limit 0)
    | .error fault s' =>
      Toolchain.runModule machine fuel p m (some (f.template true)) (s.lower view limit 0) =
        (.error (.runtime fault), s'.lower view limit 0) := by
  have hevaluate := evaluate_eq hmirrors hhost hf hs hfuel
  unfold runSource Toolchain.runModule
  rw [bind_apply, openModule_apply, hbody]
  dsimp only
  rw [bind_apply]
  cases hstmts : stmts host (invoke host limit limit) s.store.newRoot.1 f.body (opened f s) with
  | error fault s' =>
    rw [hstmts] at hevaluate
    dsimp only at hevaluate ⊢
    rw [hevaluate]
    rfl
  | ok result s' =>
    rw [hstmts] at hevaluate
    obtain ⟨hevaluate, hs'⟩ := hevaluate
    dsimp only
    rw [hevaluate]
    dsimp only
    have hexported (e : String × Ty) (he : e ∈ p.arena.exports m.scopes.global) :
        ∃ t v, p.arena.get? m.scopes.global = some t ∧ t.find? e.1 = some v := by
      obtain ⟨t, v, ht, hv, _⟩ := hp.exported_find? he
      exact ⟨t, v, ht, hv⟩
    have hcollect := @collect_eq _ _ view limit s.store.newRoot.1 _ _
      (p.arena.exports m.scopes.global) .empty s' hexported
    unfold Program.exported
    rw [bind_apply]
    cases hfound : collect s.store.newRoot.1 ((p.arena.exports m.scopes.global).filterMap fun e =>
        ((p.arena.get? m.scopes.global).bind fun t => t.find? e.1).map fun v => (e.1, v.cell)) .empty s' with
    | error fault s'' =>
      rw [hfound] at hcollect
      obtain ⟨rfl, hcollect⟩ := hcollect
      change Toolchain.collect _ _ _ .empty _ = _ at hcollect
      rw [hcollect]
    | ok exported s'' =>
      rw [hfound] at hcollect
      obtain ⟨rfl, hcollect⟩ := hcollect
      change Toolchain.collect _ _ _ .empty _ = _ at hcollect
      have hregister := @lower_register _ _ view limit m.module.key exported s''
      rw [hcollect]
      refine ⟨congrArg (Prod.mk _) hregister.symm, ?_⟩
      change Run.Only _ _ _ _ (State.lower view limit 0 { s'' with
        modules := s''.modules.insert m.module.key exported })
      rw [hregister]
      have hempty (name : String) (v : Value)
          (hv : (Table.empty : TypedScript.Exports).find? name = some v) : v.Only (Template.Within longest) := by
        cases hv
      exact hs'.register (collect_only hs'.store hempty hcollect)

/-- a module that the machine can run: a source module has a bound tree whose template is within bounds -/
def Runnable (longest : Nat) (m : LinkedModule × Option Bound.Function) : Prop :=
  ∀ body, m.1.module.content = .source body → ∃ f, m.2 = some f ∧ (f.template true).Within longest

/-- the machine runs the templates of bound trees to what direct evaluation finds -/
theorem runModules_eq {longest fuel : Nat} {p : Program} {ms : List (LinkedModule × Option Bound.Function)}
    (last : Option ModuleValue) (hmirrors : Mirrors host machine view) (hhost : machine.Conserves holds)
    (hp : p.arena.WellFormed) (hms : ∀ m ∈ ms, Runnable longest m)
    (hs : Run.Only (Template.Within longest) holds limit 0 (s.lower view limit 0))
    (hfuel : longest + limit * (longest + 1) < fuel) :
    Toolchain.runModules machine fuel p (ms.map fun m => (m.1, m.2.map (Bound.Function.template true)))
        (last.map ModuleValue.lower) (s.lower view limit 0) =
      match runModules host limit (ms.filterMap p.directModule) last s with
      | .ok value s' => (.ok (value.map ModuleValue.lower), s'.lower view limit 0)
      | .error fault s' => (.error (.runtime fault), s'.lower view limit 0) := by
  induction ms generalizing last s with
  | nil => rfl
  | cons m ms ih =>
    obtain ⟨m, t⟩ := m
    obtain ⟨hm, hrest⟩ := List.forall_mem_cons.1 hms
    rw [List.map_cons, List.filterMap_cons]
    unfold Toolchain.runModules
    dsimp only
    cases hcontent : m.module.content with
    | native native =>
      have hregister := @lower_registerNative _ _ view limit native s
      rw [Program.directModule_native hcontent]
      unfold Toolchain.runModule
      rw [hcontent]
      dsimp only
      rw [← hregister]
      refine ih last hrest ?_
      rw [hregister]
      refine hs.register fun name v hv => ?_
      obtain ⟨b, _, heq⟩ := List.mem_map.1 (Table.mem_of_find?_ofList hv)
      cases heq
      exact Value.only_of_closures_nil rfl
    | source body =>
      obtain ⟨f, rfl, hwithin⟩ := hm body hcontent
      have hrun := runSource_eq hmirrors hhost hp hcontent hwithin hs hfuel
      rw [Program.directModule_source hcontent]
      dsimp only [Option.map_some]
      unfold runModules
      rw [bind_apply]
      cases hsource : runSource host limit m.module.key f (p.exported m.scopes.global) s with
      | error fault s' =>
        rw [hsource] at hrun
        rw [hrun]
      | ok value s' =>
        rw [hsource] at hrun
        obtain ⟨hrun, hs'⟩ := hrun
        rw [hrun]
        exact ih (some value) hrest hs'

end Direct

end TypedScript
