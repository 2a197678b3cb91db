/-
The code of checked modules. When a program is linked, its scopes are finished, so that the code of a source module
without diagnostics is laid down with the cells its check found (`Derived.bindBody_run`, `Derived.compileModule`).
-/
import TypedScript.Proofs.Bound.Program

namespace TypedScript

namespace Derived

variable {p : Program} {k : Nat} {m : LinkedModule} {body : Block} {bs : List Bound.Stmt} {d : Derivation}

theorem here (h : Derived p k m body bs d) : Check.Here (Check.top d.imports d.arena) (Check.start d.arena) :=
  ⟨(Check.ready_start h.wellFormed d.imports).scope, d.arena.isGlobal_newGlobal⟩

/-- the global scope of the module has the variables that the body declares, and no parameters -/
theorem global_scope (h : Derived p k m body bs d) :
    ∃ t, p.arena.get? m.scopes.global = some t ∧ t.parameters = [] ∧
      t.locals.map Variable.cell = Bound.Stmt.declaredIn bs := by
  have heffect := h.accepts.effect h.here.scope
  have hstart : (Check.start d.arena).arena.get? d.arena.scopes.size = some (.ofKind (.global [] [])) :=
    (Arena.get?_add _ _ _).trans (if_pos rfl)
  obtain ⟨t, vs, ht, hdeclared, hcells, hcount⟩ := heffect.declares _ hstart
  have hcount : t.paramCount = 0 := hcount
  refine ⟨t, ?_, ?_, ?_⟩
  · rw [h.scopes]
    exact (h.extension.old _ (Arena.lt_of_get? ht)).trans ht
  · rw [Scope.parameters, hcount, List.take_zero]
  · rw [Scope.locals, hcount, List.drop_zero, hdeclared]
    exact hcells

theorem final (h : Derived p k m body bs d) (ids : List Nat) :
    Check.Final ⟨p, m⟩ (Check.top d.imports d.arena) d.final ids := by
  refine ⟨h.extension.wellFormed.ordered, h.extension.later, fun x hx _ => h.extension.old x hx, fun id _ => ?_⟩
  dsimp only
  rw [h.scopes]

/-- the laying down of a module's code starts where its check starts -/
theorem synced (h : Derived p k m body bs d) :
    Check.Synced (Check.top d.imports d.arena) (Check.start d.arena) ⟨Table.empty.insert d.arena.scopes.size 0, 1⟩ := by
  have hstart : (Check.start d.arena).arena.get? d.arena.scopes.size = some (.ofKind (.global [] [])) :=
    (Arena.get?_add _ _ _).trans (if_pos rfl)
  refine ⟨fun x hx => ?_, ?_⟩
  · have hordered := (Check.ready_start h.wellFormed d.imports).wellFormed.ordered
    change x ∈ (Check.start d.arena).arena.chain d.arena.scopes.size at hx
    rw [Arena.chain_of_isGlobal hordered d.arena.isGlobal_newGlobal, List.mem_singleton] at hx
    subst hx
    rw [Table.find?_insert, if_pos rfl, Arena.declaredCount_of_get? hstart]
    rfl
  · change 1 = (d.arena.add _).2.scopes.size - d.arena.scopes.size
    rw [Arena.size_add]
    omega

theorem linked_imports (h : Derived p k m body bs d) :
    Check.Linked ⟨p, m⟩ d.keyOf d.imports d.arena.scopes.size := by
  intro path dependency key hd hkey
  obtain ⟨i, m', _, hlink, hm', hkey', hglobal, hlt⟩ := h.linked path dependency key hd hkey
  exact ⟨i, m', hlink, hm', hkey', hglobal, hlt⟩

/-- the cells that the code of a module gets are those that its check found -/
theorem bindBody_run (h : Derived p k m body bs d) (hnodup : (literalIds body.nodes).Nodup) :
    ∃ s, (Compile.bindBody ⟨p, m⟩ m.scopes.global Bound.moduleSignature body).run ⟨.empty, 0⟩ =
      .ok (⟨0, Bound.moduleSignature, [], Bound.Stmt.declaredIn bs, bs⟩, s) := by
  obtain ⟨body, span⟩ := body
  rw [Block.nodes] at hnodup
  obtain ⟨t, ht, hparameters, hlocals⟩ := h.global_scope
  have hp : Compile.parameterCells ⟨p, m⟩ m.scopes.global = [] := by
    unfold Compile.parameterCells
    rw [ht, Option.map_some, Option.getD_some, hparameters]
    rfl
  have hl : Compile.localCells ⟨p, m⟩ m.scopes.global = Bound.Stmt.declaredIn bs := by
    unfold Compile.localCells
    rw [ht, Option.map_some, Option.getD_some, hlocals]
  have hglobal : m.scopes.global = d.arena.scopes.size := by rw [h.scopes]
  obtain ⟨_, hrun⟩ := h.accepts.agrees h.linked_imports h.here
  obtain ⟨s, hs, _⟩ := hrun _ (h.final _) hnodup h.synced
  refine ⟨s, ?_⟩
  unfold Compile.bindBody
  rw [hp, hl, hglobal, Compile.run_bind (Compile.run_freshTemplate _), Compile.run_bind (Compile.run_setVisible _ _ _)]
  exact Compile.run_bind hs

/-- a module compiles to the template of its bound tree -/
theorem compileModule (h : Derived p k m body bs d) (hsource : m.module.content = .source body)
    (hnodup : (literalIds body.nodes).Nodup) :
    p.compileModule m =
      .ok (some ((⟨0, Bound.moduleSignature, [], Bound.Stmt.declaredIn bs, bs⟩ : Bound.Function).template true)) := by
  obtain ⟨s, hs⟩ := h.bindBody_run hnodup
  unfold Program.compileModule
  rw [hsource]
  dsimp only
  rw [Compile.template_eq _ _ _ Bound.moduleSignature, map_eq_pure_bind, Compile.run_bind hs]
  rfl

end Derived

end TypedScript
