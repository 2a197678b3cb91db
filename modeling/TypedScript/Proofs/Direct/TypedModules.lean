/-
Typed modules. Each module of a clean program is typed against the modules before it: what it imports from them has the
type that is recorded for the export, and whatever it exports itself is a variable of the recorded type that its body is
sure to give a value.

- `Derived.fit`, `Derived.typed`: a source module whose check found nothing wrong.
-/
import Mathlib.Data.List.Nodup
import TypedScript.Proofs.Bound.Program
import TypedScript.Proofs.Bound.Typed
import TypedScript.Proofs.Direct.Evaluate

namespace TypedScript

/-! ## Recorded types -/

namespace Program

variable {p : Program} {ms : List LinkedModule} {m : LinkedModule} {key name : String} {ty : Ty}

/-- the type that is recorded for an export of one of some modules -/
def exportType (p : Program) (ms : List LinkedModule) (key name : String) : Option Ty :=
  (ms.find? fun m => m.module.key = key).bind fun m => p.arena.export? m.scopes.global name

theorem exportType_of_mem (hkeys : (ms.map fun m => m.module.key).Nodup) (hm : m ∈ ms) (name : String) :
    p.exportType ms m.module.key name = p.arena.export? m.scopes.global name := by
  unfold exportType
  cases hfind : ms.find? fun m' => m'.module.key = m.module.key with
  | none => exact absurd (List.find?_eq_none.1 hfind m hm) (by simp)
  | some m' =>
    have hkey : m'.module.key = m.module.key := by simpa using List.find?_some hfind
    obtain rfl := List.inj_on_of_nodup_map hkeys (List.mem_of_find?_eq_some hfind) hm hkey
    rfl

theorem exists_of_exportType (h : p.exportType ms key name = some ty) :
    ∃ m ∈ ms, m.module.key = key ∧ p.arena.export? m.scopes.global name = some ty := by
  obtain ⟨m, hfind, hexport⟩ := Option.bind_eq_some_iff.1 h
  exact ⟨m, List.mem_of_find?_eq_some hfind, by simpa using List.find?_some hfind, hexport⟩

/-- an export is a variable with a cell of the recorded type -/
theorem exported_type (hp : p.arena.WellFormed) {global : ScopeId} {e : String × Cell} (he : e ∈ p.exported global) :
    ∃ s v, p.arena.get? global = some s ∧ s.find? e.1 = some v ∧ v.cell = e.2 ∧
      p.arena.typeOf? e.2.id = some v.ty ∧ p.arena.export? global e.1 = some v.ty := by
  obtain ⟨export', hexport, hmap⟩ := List.mem_filterMap.1 he
  obtain ⟨v, hv, rfl⟩ := Option.map_eq_some_iff.1 hmap
  obtain ⟨s, hs, hfind⟩ := Option.bind_eq_some_iff.1 hv
  obtain ⟨t, w, ht, hw, hty⟩ := hp.exported_find? hexport
  obtain rfl : s = t := Option.some.inj (hs.symm.trans ht)
  obtain rfl : v = w := Option.some.inj (hfind.symm.trans hw)
  refine ⟨s, v, hs, hfind, rfl, hp.typeOf? hs (Arena.mem_of_find? hfind), ?_⟩
  rw [hty]
  exact hp.export? hexport

theorem exists_exported (hp : p.arena.WellFormed) {global : ScopeId} (h : p.arena.export? global name = some ty) :
    ∃ cell, (name, cell) ∈ p.exported global := by
  have hmem := Arena.mem_of_export? h
  obtain ⟨s, v, hs, hv, _⟩ := hp.exported_find? hmem
  refine ⟨v.cell, List.mem_filterMap.2 ⟨_, hmem, ?_⟩⟩
  rw [hs, Option.bind_some, hv]
  rfl

end Program

/-! ## Source modules -/

/-- a source module that is typed, where some modules stand before it -/
structure TypedModule (p : Program) (before : List LinkedModule) (m : LinkedModule) (f : Bound.Function) : Prop where
  body : Bound.TypedStmts p.arena.typeOf? (p.exportType before) none f.locals [] f.body
  exported : ∀ e ∈ p.exported m.scopes.global, e.2 ∈ Bound.Stmt.assignedIn f.body

theorem Bound.Stmt.assignedIn_declaredIn {bs : List Bound.Stmt} {cell : Cell} (h : cell ∈ Bound.Stmt.assignedIn bs) :
    cell ∈ Bound.Stmt.declaredIn bs := by
  induction bs with
  | nil => exact h
  | cons b bs ih =>
    rcases List.mem_append.1 h with h | h
    · exact List.mem_append_left _ (Bound.Stmt.assigned_declared h)
    · exact List.mem_append_right _ (ih h)

theorem Check.top_scope (imports : Imports) (a : Arena) : (Check.top imports a).scope = a.scopes.size := rfl

theorem Check.get?_start (a : Arena) : (Check.start a).arena.get? a.scopes.size = some (.ofKind (.global [] [])) :=
  (Arena.get?_add _ _ _).trans (if_pos rfl)

theorem Check.signature?_start (a : Arena) : (Check.start a).arena.signature? a.scopes.size = none := by
  unfold Arena.signature?
  rw [Check.get?_start]
  rfl

namespace Derived

variable {p : Program} {k : Nat} {m : LinkedModule} {body : Block} {bs : List Bound.Stmt} {d : Derivation}

theorem global_eq (hd : Derived p k m body bs d) : m.scopes.global = d.arena.scopes.size := by
  rw [hd.scopes]

/-- where the check of a module starts, no name means anything -/
theorem lookup?_start (hd : Derived p k m body bs d) (name : String) :
    (Check.start d.arena).arena.lookup? (Check.top d.imports d.arena).scope name = none := by
  have hready := Check.ready_start hd.wellFormed d.imports
  cases hv : (Check.start d.arena).arena.lookup? (Check.top d.imports d.arena).scope name with
  | none => rfl
  | some v =>
    obtain ⟨x, hx, s, hs, hmem⟩ := Arena.mem_of_lookup? hv
    have hglobal : (Check.start d.arena).arena.isGlobal d.arena.scopes.size = true := d.arena.isGlobal_newGlobal
    rw [Check.top_scope, Arena.chain_of_isGlobal hready.wellFormed.ordered hglobal] at hx
    obtain rfl := List.mem_singleton.1 hx
    rw [Check.get?_start] at hs
    cases hs
    cases hmem

/-- where the check of a module starts, no name means a variable -/
theorem sees (hd : Derived p k m body bs d) :
    Check.Sees (Check.top d.imports d.arena) (Check.start d.arena) [] (Bound.Stmt.usesIn bs) := by
  have hready := Check.ready_start hd.wellFormed d.imports
  refine ⟨hready, fun name v hv => ?_, fun _ h => (nomatch h)⟩
  rw [hd.lookup?_start name] at hv
  cases hv

/-- where the check of a module starts, it sees nothing but the exports of the modules before it -/
theorem seen {P : Ty → Prop} (hd : Derived p k m body bs d) (hp : p.arena.WellFormed) (hkeys : p.order.Nodup)
    (hbefore : ∀ i m', i < k → p.modules[i]? = some m' → ∀ e ∈ p.arena.exports m'.scopes.global, P e.2) :
    Check.Seen P (p.exportType (p.modules.take k)) d.keyOf (Check.top d.imports d.arena) (Check.start d.arena) := by
  have hnew := Arena.extension_newGlobal hd.wellFormed
  refine ⟨hd.sees.place, fun name v hv => ?_, fun signature hsignature => ?_, fun _ path dependency key hd' hkey => ?_⟩
  · rw [hd.lookup?_start name] at hv
    cases hv
  · have hnone := Check.signature?_start d.arena
    rw [← Check.top_scope d.imports, hsignature] at hnone
    cases hnone
  · obtain ⟨i, m', hi, _, hm', rfl, rfl, hlt⟩ := hd.linked path dependency key hd' hkey
    refine ⟨hlt, fun e he => ?_⟩
    have hexports : (Check.start d.arena).arena.exports m'.scopes.global = p.arena.exports m'.scopes.global := by
      rw [(hd.adds.trans hd.extension).exports hlt]
      exact hnew.exports hlt
    rw [hexports] at he
    have hmem : m' ∈ p.modules.take k := List.mem_of_getElem? ((List.getElem?_take_of_lt hi).trans hm')
    have hkeys' : ((p.modules.take k).map fun m => m.module.key).Nodup := by
      rw [List.map_take]
      exact hkeys.sublist (List.take_sublist _ _)
    refine ⟨hbefore i m' hi hm' e he, ?_⟩
    rw [Program.exportType_of_mem hkeys' hmem]
    exact hp.export? he

/-- the body of a module is sure to give a value to each variable that the module exports -/
theorem exported_assigned (hd : Derived p k m body bs d) (hp : p.arena.WellFormed) :
    ∀ e ∈ p.exported m.scopes.global, e.2 ∈ Bound.Stmt.assignedIn bs := by
  intro e he
  have hready := Check.ready_start hd.wellFormed d.imports
  have hlater := (hd.accepts.effect hready.scope).later
  have hsize := Nat.lt_of_lt_of_le hready.scope hlater.size
  rw [Check.top_scope] at hsize
  rw [hd.global_eq] at he
  obtain ⟨s, v, hs, hv, hcell, _, hexport⟩ := Program.exported_type hp he
  have hmem := Arena.mem_of_export? hexport
  rw [hd.extension.exports hsize] at hmem
  rcases hd.accepts.exported hready.scope hready.scope _ hmem with hold | hnew
  · change _ ∈ (Check.start d.arena).arena.exports d.arena.scopes.size at hold
    rw [Arena.exports_eq (Check.get?_start d.arena) rfl] at hold
    cases hold
  · obtain ⟨s', v', hs', hv', hassigned⟩ := hnew
    obtain ⟨t, ht, hst⟩ := hd.extension.later.scope _ s' hs'
    obtain rfl : s = t := Option.some.inj (hs.symm.trans ht)
    obtain rfl : v = v' := Option.some.inj (hv.symm.trans (hst.find? hv'))
    exact hcell ▸ hassigned

/-- the statements of a source module whose check found nothing wrong fit their types, and what it exports is of the
kind that the exports of the modules before it are -/
theorem fit {P : Ty → Prop} (hP : Ty.Kind P) (hd : Derived p k m body bs d) (hp : p.arena.WellFormed)
    (hkeys : p.order.Nodup) (hclean : p.arena.diagnostics m.scopes.global = []) (hplain : ∀ x ∈ body.nodes, x.Plain)
    (hbefore : ∀ i m', i < k → p.modules[i]? = some m' → ∀ e ∈ p.arena.exports m'.scopes.global, P e.2) :
    Bound.FitStmts p.arena.typeOf? P (p.exportType (p.modules.take k)) none bs ∧
      ∀ e ∈ p.arena.exports m.scopes.global, P e.2 := by
  rw [hd.global_eq] at hclean
  have hend : Check.Finished p.arena (Check.top d.imports d.arena).global d.final := ⟨hp, hd.extension.later, hclean⟩
  have hnodes : ∀ x ∈ Stmt.nodesOf body.body, x.Plain := by
    obtain ⟨body, span⟩ := body
    rw [Block.nodes] at hplain
    exact hplain
  obtain ⟨hfit, hkinds⟩ := hd.accepts.fit hP hd.keyed hnodes (hd.seen hp hkeys hbefore) hend
  rw [Check.top_scope, Check.signature?_start] at hfit
  refine ⟨hfit, fun e he => ?_⟩
  obtain ⟨cell, hcell⟩ := Program.exists_exported hp (hp.export? he)
  obtain ⟨_, v, _, _, _, htype, hexport⟩ := Program.exported_type hp hcell
  have hty : v.ty = e.2 := Option.some.inj (hexport.symm.trans (hp.export? he))
  rw [← hty]
  exact hkinds cell (Bound.Stmt.assignedIn_declaredIn (hd.exported_assigned hp _ hcell)) _ htype

/-- a source module whose check found nothing wrong is typed -/
theorem typed (hd : Derived p k m body bs d) (hp : p.arena.WellFormed) (hkeys : p.order.Nodup)
    (hclean : p.arena.diagnostics m.scopes.global = []) (hstrict : ∀ x ∈ body.nodes, x.Strict)
    (hconfined : Bound.Stmt.confinedIn bs = true)
    (hbefore : ∀ i m', i < k → p.modules[i]? = some m' → ∀ e ∈ p.arena.exports m'.scopes.global, e.2.hasAny = false) :
    TypedModule p (p.modules.take k) m ⟨0, Bound.moduleSignature, [], Bound.Stmt.declaredIn bs, bs⟩ := by
  obtain ⟨hfit, _⟩ := hd.fit Ty.kind_plain hp hkeys hclean (fun x hx => (hstrict x hx).plain) hbefore
  have hcovered := hd.accepts.covered hd.keyed hconfined hd.sees
  have hends : ∀ f ∈ Bound.Stmt.literalsIn bs, f.Ends := by
    obtain ⟨body, span⟩ := body
    rw [Block.nodes] at hstrict
    exact hd.accepts.ends fun x hx => (hstrict x hx).returns
  exact ⟨hfit.typed hcovered (fun _ h => h) hends, hd.exported_assigned hp⟩

end Derived

end TypedScript
