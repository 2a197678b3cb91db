/-
Names mean the same to the check and to code. The check looks a name up in scopes that are still growing; code is laid
down when all scopes are finished, and counts again how many variables of each scope have been declared. `Synced` says
that the two are at the same point: for each scope around the place, as many variables count as declared as the check
has declared. At such a point a name leads to the same variable both ways (`resolve?_eq`), a declaration to the same
cell (`place?_declared`), and whatever the check accepts binds to the same tree (`AcceptsExpr.agrees`,
`AcceptsStmts.agrees`).
-/
import Mathlib.Data.List.Basic
import TypedScript.Proofs.Bound.Compile
import TypedScript.Proofs.Bound.Effect
import TypedScript.Proofs.Typing.Derivation

namespace TypedScript

/-! ## Finished scopes -/

namespace Compile

variable {F : Arena} {x : ScopeId} {s t : Scope} {name : String}

theorem place?_of_get? (ht : F.get? x = some t) :
    place? F x name = (t.variableIndex? name).bind fun i => (t.variableAt? i).map fun v => (i, v.cell) := by
  unfold place?
  simp only [ht, Option.bind_eq_bind, Option.bind_some, Option.pure_def, Option.map_eq_bind]
  rfl

/-- the variable of a name among the first ones of a finished scope is the one the name had in the growing scope -/
theorem visible_place (name : String) (ht : F.get? x = some t) (h : s.Later t) :
    (match place? F x name with
      | some (index, cell) => if index < s.declared.length then some cell else none
      | none => none) = (s.find? name).map Variable.cell := by
  obtain ⟨more, hmore⟩ := h.declared
  rw [place?_of_get? ht]
  unfold Scope.variableIndex? Scope.variableAt? Scope.find?
  rw [← hmore, List.findIdx?_append, List.find?_eq_bind_findIdx?_getElem?]
  cases hi : s.declared.findIdx? fun v => v.cell.name = name with
  | some i =>
    obtain ⟨hlt, _⟩ := List.findIdx?_eq_some_iff_getElem.1 hi
    simp [List.getElem?_append_left hlt, hlt]
  | none =>
    cases hj : more.findIdx? fun v => v.cell.name = name with
    | none => simp
    | some j =>
      simp only [Option.map_some, Option.none_or, Option.bind_some, Option.bind_none, Option.map_none]
      cases (s.declared ++ more)[j + s.declared.length]? with
      | none => rfl
      | some v => exact if_neg (by omega)

/-- a name leads to the variable that the check finds for it, where as many variables count as declared as the check has
declared -/
theorem resolve?_eq (name : String) {a : Arena} {visible : Table ScopeId Nat} {scope : ScopeId} (hlater : a.Later F)
    (hordered : F.Ordered) (hscope : scope < a.scopes.size)
    (hvisible : ∀ x ∈ a.chain scope, (visible.find? x).getD 0 = a.declaredCount x) :
    resolve? F visible scope name = (a.lookup? scope name).map Variable.cell := by
  have ha := hlater.ordered hordered
  unfold resolve? Arena.lookup?
  rw [hlater.chain hordered hscope, List.map_findSome?, ← List.head?_filterMap, ← List.head?_filterMap]
  refine congrArg List.head? (List.filterMap_congr fun x hx => ?_)
  obtain ⟨s, hs⟩ := Arena.get?_of_lt (Nat.lt_of_le_of_lt (Arena.le_of_mem_chain ha hscope hx) hscope)
  obtain ⟨t, ht, hst⟩ := hlater.scope x s hs
  have hplace := visible_place name ht hst
  simp only [hvisible x hx, Arena.declaredCount_of_get? hs, Function.comp_apply, hs, Option.bind_some]
  exact hplace

/-- a name that was just declared has its place in the finished scope -/
theorem place?_declared {a : Arena} {scope : ScopeId} {ty : Ty} (hs : a.get? scope = some s)
    (hnew : a.hasVariable scope name = false) (hlater : (a.extend scope name ty).Later F) :
    place? F scope name = some (s.declared.length, ⟨a.nextCell, name⟩) := by
  obtain ⟨t, ht, hst⟩ := hlater.scope scope { s with declared := s.declared ++ [⟨ty, ⟨a.nextCell, name⟩⟩] } (by
    rw [Arena.get?_extend, if_pos rfl, hs]
    rfl)
  obtain ⟨more, hmore⟩ := hst.declared
  have hnone : s.declared.findIdx? (fun v => v.cell.name = name) = none := by
    unfold Arena.hasVariable Scope.find? at hnew
    rw [hs] at hnew
    rw [List.findIdx?_eq_none_iff]
    simpa using hnew
  rw [place?_of_get? ht]
  unfold Scope.variableIndex? Scope.variableAt?
  rw [← hmore, List.append_assoc, List.findIdx?_append, hnone]
  simp [List.findIdx?_cons]

theorem run_freshTemplate (c : Progress) :
    freshTemplate.run c = .ok (c.nextTemplate, { c with nextTemplate := c.nextTemplate + 1 }) := rfl

theorem run_setVisible (scope : ScopeId) (count : Nat) (c : Progress) :
    (setVisible scope count).run c = .ok ((), { c with visible := c.visible.insert scope count }) := rfl

theorem run_bind {α β : Type} {y : Compile α} {f : α → Compile β} {c d : Progress} {v : α} (h : y.run c = .ok (v, d)) :
    (y >>= f).run c = (f v).run d := by
  rw [StateT.run_bind, h]
  rfl

end Compile

/-! ## The same point -/

namespace Check

variable {α β : Type} {keyOf : String → Option String} {job : Compile.Job} {p : Place} {r r' r'' : Record}
  {cells cells' : List Cell} {ids ids' : List Nat}

/-- the place is in a scope, of a module -/
structure Here (p : Place) (r : Record) : Prop where
  scope : p.scope < r.arena.scopes.size
  module : r.arena.isGlobal p.global = true

theorem Here.later (h : Here p r) (hl : r.arena.Later r'.arena) : Here p r' :=
  ⟨Nat.lt_of_lt_of_le h.scope hl.size, hl.isGlobal_of h.module⟩

/-- as much code has been laid down as has been checked when `r` is built -/
structure Synced (p : Place) (r : Record) (s : Compile.Progress) : Prop where
  visible : ∀ x ∈ r.arena.chain p.scope, (s.visible.find? x).getD 0 = r.arena.declaredCount x
  next : s.nextTemplate = r.arena.scopes.size - p.global

/-- the program of a job is what has become of `r`: only the scopes around the place may have changed since, and the
literals with the numbers have their scopes -/
structure Final (job : Compile.Job) (p : Place) (r : Record) (ids : List Nat) : Prop where
  ordered : job.program.arena.Ordered
  later : r.arena.Later job.program.arena
  closed : ∀ x < r.arena.scopes.size, x ∉ r.arena.chain p.scope → job.program.arena.get? x = r.arena.get? x
  functions : ∀ id ∈ ids, job.module.scopes.functions.find? id = r.functions.find? id

/-- the imports of a job's module lead to the scopes that the check took for them, all of them of earlier modules -/
def Linked (job : Compile.Job) (keyOf : String → Option String) (imports : Imports) (global : ScopeId) : Prop :=
  ∀ path dependency key, imports.find? path = some dependency → keyOf path = some key →
    ∃ i m, job.module.links.find? path = some i ∧ job.program.modules[i]? = some m ∧ m.module.key = key ∧
      m.scopes.global = dependency ∧ dependency < global

theorem Final.mono (h : Final job p r ids') (hids : ∀ id ∈ ids, id ∈ ids') : Final job p r ids :=
  ⟨h.ordered, h.later, h.closed, fun id hid => h.functions id (hids id hid)⟩

/-- a program that is final after a part is final before it -/
theorem Final.before (h : Final job p r' (ids ++ ids')) (he : Effect p.scope cells ids' r r')
    (hscope : p.scope < r.arena.scopes.size) (hdisjoint : ∀ id ∈ ids, id ∉ ids') : Final job p r ids := by
  have hchain := he.later.chain (h.later.ordered h.ordered) hscope
  refine ⟨h.ordered, he.later.trans h.later, fun x hx hout => ?_, fun id hid => ?_⟩
  · have hne : x ≠ p.scope := by
      rintro rfl
      exact hout (Arena.mem_chain_self ((he.later.trans h.later).ordered h.ordered) hscope)
    rw [h.closed x (Nat.lt_of_lt_of_le hx he.later.size) (by rw [hchain]; exact hout), he.frame x hx hne]
  · rw [h.functions id (List.mem_append_left _ hid), he.functions id (hdisjoint id hid)]

/-- binding a part while its code is laid down gives `v` and leads to the same point as checking it -/
def Agrees (job : Compile.Job) (p : Place) (cells : List Cell) (ids : List Nat) (y : Compile α) (r : Record) (v : α)
    (r' : Record) : Prop :=
  Here p r → Effect p.scope cells ids r r' ∧ ∀ s, Final job p r' ids → ids.Nodup → Synced p r s →
    ∃ s', y.run s = .ok (v, s') ∧ Synced p r' s'

protected theorem Agrees.pure (v : α) (r : Record) : Agrees job p [] [] (pure v : Compile α) r v r :=
  fun _ => ⟨.refl _ _, fun s _ _ hs => ⟨s, rfl, hs⟩⟩

protected theorem Agrees.bind {y : Compile α} {f : α → Compile β} {v : α} {w : β} (hy : Agrees job p cells ids y r v r')
    (hf : Agrees job p cells' ids' (f v) r' w r'') :
    Agrees job p (cells ++ cells') (ids ++ ids') (y >>= f) r w r'' := by
  intro hr
  obtain ⟨he, hrun⟩ := hy hr
  obtain ⟨he', hrun'⟩ := hf (hr.later he.later)
  refine ⟨he.trans he', fun s hfinal hnodup hs => ?_⟩
  obtain ⟨hnodup₁, hnodup₂, hdisjoint⟩ := List.nodup_append.1 hnodup
  have hbefore : Final job p r' ids :=
    hfinal.before he' (hr.later he.later).scope fun id hid hid' => hdisjoint id hid id hid' rfl
  obtain ⟨s₁, hs₁, hsync₁⟩ := hrun s hbefore hnodup₁ hs
  obtain ⟨s₂, hs₂, hsync₂⟩ := hrun' s₁ (hfinal.mono fun id hid => List.mem_append_right _ hid) hnodup₂ hsync₁
  exact ⟨s₂, (Compile.run_bind hs₁).trans hs₂, hsync₂⟩

/-- a part, and then a result made of what it gives -/
theorem Agrees.map {y : Compile α} {v : α} (hy : Agrees job p cells ids y r v r') (f : α → β) :
    Agrees job p cells ids (y >>= fun v => pure (f v)) r (f v) r' := by
  have h : Agrees job p (cells ++ []) (ids ++ []) (y >>= fun v => pure (f v)) r (f v) r' :=
    hy.bind (Agrees.pure (f v) r')
  rwa [List.append_nil, List.append_nil] at h

/-- a part that has fewer literals in it -/
theorem Agrees.widen {y : Compile α} {v : α} (h : Agrees job p cells ids y r v r') (hids : ∀ id ∈ ids, id ∈ ids')
    (hnodup : ids'.Nodup → ids.Nodup) : Agrees job p cells ids' y r v r' := by
  intro hr
  obtain ⟨he, hrun⟩ := h hr
  exact ⟨he.widen hids, fun s hfinal hn hs => hrun s (hfinal.mono hids) (hnodup hn) hs⟩

/-- in a program that is final, a point has the chain of every earlier one -/
theorem Synced.chain (hl : r.arena.Later r'.arena) (hfinal : Final job p r' ids) (hr : Here p r) :
    r'.arena.chain p.scope = r.arena.chain p.scope :=
  hl.chain (hfinal.later.ordered hfinal.ordered) hr.scope

/-- whether the place is inside a condition's body makes no difference -/
theorem Agrees.conditional {y : Compile α} {v : α}
    (h : Agrees job { p with conditional := true } cells ids y r v r') : Agrees job p cells ids y r v r' := by
  intro hr
  obtain ⟨he, hrun⟩ := h ⟨hr.scope, hr.module⟩
  refine ⟨he, fun s hfinal hnodup hs => ?_⟩
  obtain ⟨s', hs', hsync⟩ := hrun s ⟨hfinal.ordered, hfinal.later, hfinal.closed, hfinal.functions⟩ hnodup
    ⟨hs.visible, hs.next⟩
  exact ⟨s', hs', hsync.visible, hsync.next⟩

/-- an export after a part makes no difference -/
theorem Agrees.exported {y : Compile α} {v : α} (h : Agrees job p cells ids y r v r')
    (he : Effect p.scope [] [] r' r'') (hsize : r''.arena.scopes.size = r'.arena.scopes.size) :
    Agrees job p cells ids y r v r'' := by
  intro hr
  obtain ⟨heffect, hrun⟩ := h hr
  have hall := heffect.trans he
  rw [List.append_nil, List.append_nil] at hall
  refine ⟨hall, fun s hfinal hnodup hs => ?_⟩
  have hr' := hr.later heffect.later
  have hbefore : Final job p r' ids :=
    Final.before (by rw [List.append_nil]; exact hfinal) he hr'.scope fun _ _ h => absurd h List.not_mem_nil
  obtain ⟨s', hs', hsync⟩ := hrun s hbefore hnodup hs
  refine ⟨s', hs', fun x hx => ?_, by rw [hsync.next, hsize]⟩
  rw [Synced.chain he.later hfinal hr'] at hx
  have hordered := hbefore.later.ordered hbefore.ordered
  obtain ⟨t, ht⟩ := Arena.get?_of_lt
    (Nat.lt_of_le_of_lt (Arena.le_of_mem_chain hordered hr'.scope hx) hr'.scope)
  rw [hsync.visible x hx, Arena.declaredCount_of_get? ht]
  by_cases hxp : x = p.scope
  · subst hxp
    obtain ⟨u, vs, hu, hd, hcells, _⟩ := he.declares t ht
    rw [Arena.declaredCount_of_get? hu, hd, List.map_eq_nil_iff.1 hcells, List.append_nil]
  · rw [Arena.declaredCount, he.frame x (Arena.lt_of_get? ht) hxp, ht]
    rfl

/-! ## Names -/

theorem agrees_resolve {name : String} {v : Variable} (hv : r.arena.lookup? p.scope name = some v) :
    Agrees job p [] [] (Compile.resolve job p.scope name) r v.cell r := by
  refine fun hr => ⟨.refl _ _, fun s hfinal _ hs => ⟨s, ?_, hs⟩⟩
  have hresolve := Compile.resolve?_eq name hfinal.later hfinal.ordered hr.scope hs.visible
  rw [hv] at hresolve
  unfold Compile.resolve
  rw [StateT.run_bind]
  simp only [StateT.run_get, pure_bind]
  rw [hresolve]
  rfl

theorem agrees_declare (job : Compile.Job) {scope : ScopeId} (hp : scope = p.scope) {name : String}
    {ty : Ty} {position : Position} {cell : Cell} (h : newVariable scope name ty position r = (some cell, r')) :
    Agrees job p [cell] [] (Compile.declare job scope name) r cell r' := by
  subst hp
  intro hr
  have heffect := newVariable_effect h
  refine ⟨heffect, fun s hfinal _ hs => ?_⟩
  have hchain := Synced.chain heffect.later hfinal hr
  obtain ⟨hnew, rfl, rfl⟩ := newVariable_eq h
  obtain ⟨t, ht⟩ := Arena.get?_of_lt hr.scope
  have hplace := Compile.place?_declared ht hnew hfinal.later
  refine ⟨{ s with visible := s.visible.insert p.scope (t.declared.length + 1) }, ?_, fun x hx => ?_, hs.next.trans ?_⟩
  · unfold Compile.declare
    rw [hplace]
    rfl
  · rw [hchain] at hx
    simp only [Table.find?_insert]
    split
    · next hxp =>
      subst hxp
      rw [Arena.declaredCount, Arena.get?_extend, if_pos rfl, ht]
      simp
    · next hne =>
      rw [hs.visible x hx, Arena.declaredCount, Arena.declaredCount, Arena.get?_extend, if_neg hne]
  · simp [Arena.extend]

theorem agrees_imports (job : Compile.Job) {span : Span} {names : List (String × Ty)} {cells : List (String × Cell)}
    (htop : p.atTop = true) (h : AcceptsImports p span r names cells r') :
    Agrees job p (cells.map Prod.snd) [] (Compile.bindImports job p.scope (names.map Prod.fst)) r cells r' := by
  induction h with
  | nil => exact Agrees.pure _ _
  | cons declared _ ih =>
    have hdeclare := agrees_declare job (Place.scope_of_atTop htop).symm declared
    rw [← Place.scope_of_atTop htop] at hdeclare
    exact hdeclare.bind (ih.map _)

/-! ## Imports -/

theorem importedNames_fst {p : Place} {path : String} {dependency : ScopeId} {span : Span} {names : List String}
    (h : ∀ name ∈ names, (r.arena.export? dependency name).isSome = true) :
    (importedNames p path dependency span names r).1.map Prod.fst = names := by
  induction names with
  | nil => rfl
  | cons name names ih =>
    obtain ⟨ty, hty⟩ := Option.isSome_iff_exists.1 (h name List.mem_cons_self)
    have htail : ∀ name' ∈ names, (r.arena.export? dependency name').isSome = true :=
      fun name' hname => h name' (List.mem_cons_of_mem name hname)
    have hrun : (importedNames p path dependency span (name :: names) r).1 =
        (name, ty) :: (importedNames p path dependency span names r).1 := by
      rw [importedNames, get_bind_run, hty]
      exact congrArg Prod.fst (bind_run (importedNames_run htail))
    rw [hrun, List.map_cons, ih htail]

/-- code imports the names that the check declares -/
theorem importedNames_eq (p : Place) (path : String) {dependency : ScopeId} (span : Span) {names : Option (List String)}
    (hfound : ∀ asked, names = some asked → ∀ name ∈ asked, (r.arena.export? dependency name).isSome = true) :
    Compile.importedNames (r.arena.exports dependency) names =
      (importedAs p path dependency span r names).map Prod.fst := by
  cases names with
  | none => rfl
  | some asked =>
    have hfound := hfound asked rfl
    rw [importedAs, importedNames_fst hfound, Compile.importedNames, List.filter_eq_self]
    intro name hname
    have hexport := hfound name hname
    unfold Arena.export? at hexport
    rw [List.any_eq_true]
    obtain ⟨ty, hty⟩ := Option.isSome_iff_exists.1 hexport
    obtain ⟨before, after, hall, _⟩ := List.lookup_eq_some_iff.1 hty
    exact ⟨(name, ty), by rw [hall]; simp, by simp⟩

/-- directly in the body of a module, the exports of earlier modules are final -/
theorem Final.exports (hfinal : Final job p r' ids) (he : Effect p.scope cells [] r r') (hr : Here p r)
    (htop : p.atTop = true) {x : ScopeId} (hx : x < p.global) :
    job.program.arena.exports x = r.arena.exports x := by
  have hscope := Place.scope_of_atTop htop
  have hend : Final job p r' [] := hfinal.mono fun _ h => absurd h List.not_mem_nil
  have hbefore : Final job p r [] := Final.before hend he hr.scope fun _ h => absurd h List.not_mem_nil
  have hout : x ∉ r.arena.chain p.scope := by
    rw [hscope, Arena.chain_of_isGlobal (hbefore.later.ordered hbefore.ordered) hr.module, List.mem_singleton]
    exact Nat.ne_of_lt hx
  unfold Arena.exports
  rw [hbefore.closed x (Nat.lt_trans hx (hscope ▸ hr.scope)) hout]

theorem agrees_use {path key : String} {names : Option (List String)} {dependency : ScopeId} {span : Span}
    {cells : List (String × Cell)} (hlinked : Linked job keyOf p.imports p.global) (htop : p.atTop = true)
    (hdependency : p.imports.find? path = some dependency) (hkey : keyOf path = some key)
    (hfound : ∀ asked, names = some asked → ∀ name ∈ asked, (r.arena.export? dependency name).isSome = true)
    (himports : AcceptsImports p span r (importedAs p path dependency span r names) cells r') :
    Agrees job p (cells.map Prod.snd) [] (Compile.bindStmt job p.scope (.use path names span)) r
    (.use key cells) r' := by
  intro hr
  obtain ⟨i, m, hlink, hm, rfl, rfl, hearlier⟩ := hlinked path dependency key hdependency hkey
  obtain ⟨heffect, hrun⟩ := (agrees_imports job htop himports).map (Bound.Stmt.use m.module.key) hr
  refine ⟨heffect, fun s hfinal hnodup hs => ?_⟩
  have hexports := hfinal.exports heffect hr htop hearlier
  obtain ⟨s', hs', hsync⟩ := hrun s hfinal hnodup hs
  refine ⟨s', ?_, hsync⟩
  unfold Compile.bindStmt Compile.linkedModule
  simp only [hlink, Option.bind_some, hm, pure_bind, hexports, importedNames_eq p path span hfound]
  exact hs'

/-! ## Function literals -/

/-- the scope of a literal when its parameters are declared -/
structure Opened (p : Place) (scope : ScopeId) (r declared : Record) : Prop where
  new : scope = r.arena.scopes.size
  size : declared.arena.scopes.size = r.arena.scopes.size + 1
  later : r.arena.Later declared.arena
  parent : declared.arena.parent? scope = some p.scope

theorem opened_params {id : Nat} {signature : Signature} {scope : ScopeId} {opened declared : Record}
    {params : List Parameter} (hopen : openScope p id signature r = (scope, opened))
    (hparams : AcceptsParams scope opened params cells declared) : Opened p scope r declared := by
  obtain ⟨hlater, hsize, _⟩ := hparams.effect
  have hparent : opened.arena.parent? scope = some p.scope :=
    Arena.parent?_eq_some_iff.2 ⟨_, signature, (opened_get? hopen scope).trans (if_pos rfl), rfl⟩
  have hlt : scope < opened.arena.scopes.size := by
    obtain ⟨s, _, hs, _⟩ := Arena.parent?_eq_some_iff.1 hparent
    exact Arena.lt_of_get? hs
  have hopened := openScope_eq hopen
  refine ⟨hopened.1, ?_, ?_, (hlater.parent? hlt).trans hparent⟩
  · rw [hsize, hopened.2, Arena.size_add]
  · refine Arena.Later.trans ?_ hlater
    rw [hopened.2]
    exact Arena.later_add _ _

theorem Opened.lt {scope : ScopeId} {declared : Record} (h : Opened p scope r declared) :
    scope < declared.arena.scopes.size := by
  rw [h.size, h.new]
  exact Nat.lt_succ_self _

theorem Opened.chain {scope : ScopeId} {declared : Record} (h : Opened p scope r declared)
    (hl : declared.arena.Later r'.arena) (hordered : r'.arena.Ordered) :
    r'.arena.chain scope = scope :: r'.arena.chain p.scope :=
  Arena.chain_of_parent? hordered ((hl.parent? h.lt).trans h.parent)

theorem Opened.here {scope : ScopeId} {declared : Record} (h : Opened p scope r declared) (hr : Here p r) :
    Here { p with scope } declared :=
  ⟨h.lt, h.later.isGlobal_of hr.module⟩

/-- what code is laid down for knows the scope of a literal as soon as it is opened -/
theorem literal_final {id : Nat} {signature : Signature} {scope : ScopeId} {opened declared : Record}
    {params : List Parameter} (hr : Here p r) (hopen : openScope p id signature r = (scope, opened))
    (hparams : AcceptsParams scope opened params cells declared) (hbody : Effect scope cells' ids declared r')
    (hid : id ∉ ids) (hfinal : Final job p r' (id :: ids)) :
    Compile.functionScope job id = pure scope ∧ Compile.parameterCells job scope = cells ∧
      Compile.localCells job scope = cells' ∧ Final job { p with scope } r' ids := by
  obtain ⟨_, _, hfunctions, _⟩ := hparams.effect
  have hopened := opened_params hopen hparams
  have hall := literal_effect hr.scope hopen hparams hbody
  have hordered := hfinal.later.ordered hfinal.ordered
  have hfound : job.module.scopes.functions.find? id = some scope := by
    rw [hfinal.functions id List.mem_cons_self, hbody.functions id hid, hfunctions, (openScope_eq hopen).2,
      hopened.new, Table.find?_insert, if_pos rfl]
  have hout : scope ∉ r'.arena.chain p.scope := by
    intro hmem
    rw [Synced.chain hall.later hfinal hr] at hmem
    have hle := Arena.le_of_mem_chain (hall.later.ordered hordered) hr.scope hmem
    rw [hopened.new] at hle
    exact absurd hr.scope (Nat.not_lt.2 hle)
  obtain ⟨t, ht, htparams, htlocals⟩ := literal_scope hopen hparams hbody
  have hget := (hfinal.closed scope (Nat.lt_of_lt_of_le hopened.lt hbody.later.size) hout).trans ht
  refine ⟨?_, ?_, ?_, hfinal.ordered, hfinal.later, fun x hx hnot => hfinal.closed x hx fun hmem => hnot ?_,
    fun id' hid' => hfinal.functions id' (List.mem_cons_of_mem _ hid')⟩
  · unfold Compile.functionScope
    rw [hfound]
  · unfold Compile.parameterCells
    rw [hget]
    exact htparams
  · unfold Compile.localCells
    rw [hget]
    exact htlocals
  · rw [hopened.chain hbody.later hordered]
    exact List.mem_cons_of_mem _ hmem

/-- the point at which the body of a literal starts -/
theorem synced_literal {id : Nat} {signature : Signature} {scope : ScopeId} {opened declared : Record}
    {params : List Parameter} {s : Compile.Progress} (hr : Here p r) (hordered : declared.arena.Ordered)
    (hopen : openScope p id signature r = (scope, opened))
    (hparams : AcceptsParams scope opened params cells declared) (hs : Synced p r s) :
    Synced { p with scope } declared ⟨s.visible.insert scope cells.length, s.nextTemplate + 1⟩ := by
  obtain ⟨_, _, _, hframe, hdeclares⟩ := hparams.effect
  have hget := opened_get? hopen
  have hopened := opened_params hopen hparams
  obtain ⟨t, vs, ht, hd, hcells, _⟩ := hdeclares _ ((hget scope).trans (if_pos rfl))
  refine ⟨fun x hx => ?_, ?_⟩
  · simp only [Table.find?_insert]
    split
    · next hxs =>
      subst hxs
      rw [Arena.declaredCount_of_get? ht, hd, ← hcells]
      simp [Scope.ofKind]
    · next hne =>
      rw [hopened.chain (.refl _) hordered, hopened.later.chain hordered hr.scope] at hx
      rcases List.mem_cons.1 hx with rfl | hx
      · exact absurd rfl hne
      · rw [hs.visible x hx, Arena.declaredCount, Arena.declaredCount, hframe x (Ne.symm hne), hget,
          if_neg (Ne.symm hne)]
  · change s.nextTemplate + 1 = declared.arena.scopes.size - p.global
    obtain ⟨_, hglobal, _⟩ := Arena.isGlobal_iff.1 hr.module
    rw [hs.next, hopened.size]
    exact (Nat.succ_sub (Nat.le_of_lt (Arena.lt_of_get? hglobal))).symm

theorem agrees_function {id : Nat} {params : List Parameter} {result : Note} {body : List Stmt} {span bodySpan : Span}
    {scope : ScopeId} {opened declared : Record} {bs : List Bound.Stmt}
    (hopen : openScope p id ⟨params.map fun param => .ofNote param.note, .ofNote result⟩ r = (scope, opened))
    (hparams : AcceptsParams scope opened params cells declared)
    (hbody : Agrees job { p with scope } (Bound.Stmt.declaredIn bs) ids (Compile.bindStmts job scope body) declared bs
      r') :
    Agrees job p [] (id :: ids) (Compile.bindExpr job p.scope (.function id params result ⟨body, bodySpan⟩ span)) r
      (.function ⟨scope - p.global, ⟨params.map fun param => .ofNote param.note, .ofNote result⟩, cells,
        Bound.Stmt.declaredIn bs, bs⟩) r' := by
  intro hr
  have hopened := opened_params hopen hparams
  obtain ⟨heffect, hrun⟩ := hbody (hopened.here hr)
  refine ⟨literal_effect hr.scope hopen hparams heffect, fun s hfinal hnodup hs => ?_⟩
  obtain ⟨hid, hnodup⟩ := List.nodup_cons.1 hnodup
  obtain ⟨hscope, hcells, hlocals, hfinal'⟩ := literal_final hr hopen hparams heffect hid hfinal
  have hordered := hfinal.later.ordered hfinal.ordered
  obtain ⟨s', hs', hsync⟩ := hrun _ hfinal' hnodup (synced_literal hr (heffect.later.ordered hordered) hopen hparams hs)
  have hnumber : s.nextTemplate = scope - p.global := by rw [hs.next, hopened.new]
  refine ⟨s', ?_, fun x hx => hsync.visible x ?_, hsync.next⟩
  · unfold Compile.bindExpr Compile.bindBody
    simp only [hscope, hcells, hlocals, pure_bind, bind_assoc]
    rw [Compile.run_bind (Compile.run_freshTemplate s), Compile.run_bind (Compile.run_setVisible _ _ _),
      Compile.run_bind hs', hnumber]
    rfl
  · change x ∈ r'.arena.chain scope
    rw [hopened.chain heffect.later hordered]
    exact List.mem_cons_of_mem _ hx

/-! ## Trees -/

mutual

theorem AcceptsExpr.agrees {p : Place} {e : Expr} {ty : Ty} {b : Bound.Expr} {r r' : Record}
    (hlinked : Linked job keyOf p.imports p.global) (h : AcceptsExpr keyOf p r e ty b r') :
    Agrees job p [] (literalIds e.nodes) (Compile.bindExpr job p.scope e) r b r' := by
  cases e with
  | number value span => cases h; exact .pure _ _
  | text value span => cases h; exact .pure _ _
  | truth value span => cases h; exact .pure _ _
  | ident name span =>
    cases h with
    | ident _ found => exact (agrees_resolve found).map _
  | self span => cases h; exact .pure _ _
  | list items span =>
    cases items with
    | nil => cases h
    | cons first rest =>
      cases h with
      | list _ head used tail agree =>
        unfold Compile.bindExpr Compile.bindExprs
        simp only [bind_assoc, pure_bind]
        rw [Expr.nodes, Expr.nodesOf, literalIds_cons, literalIds_append]
        exact (head.agrees hlinked).bind ((tail.agrees hlinked).map fun bs => Bound.Expr.list (_ :: bs))
  | function id params result body span =>
    cases body with
    | mk body bodySpan =>
      cases h with
      | function _ _ opens parameters inside =>
        rw [Expr.nodes, Block.nodes, literalIds_cons]
        exact agrees_function opens parameters (inside.agrees hlinked)
  | call callee arguments span =>
    cases h with
    | call _ given function used fits =>
      unfold Compile.bindExpr
      rw [Expr.nodes, literalIds_cons, literalIds_append]
      refine ((given.agrees hlinked).bind ((function.agrees hlinked).map fun b => Bound.Expr.call b _)).widen ?_ ?_
      · exact fun id hid => List.mem_append_right _ ((List.perm_append_comm).mem_iff.1 hid)
      · exact fun hnodup => (List.perm_append_comm).nodup_iff.1 hnodup
  | assign target assigned span =>
    cases h with
    | assign _ nameSpan accepted used found fits =>
      unfold Compile.bindExpr Compile.assignee
      refine ((accepted.agrees hlinked).bind ((agrees_resolve found).map fun cell => Bound.Expr.assign cell _)).widen
        ?_ ?_
      · simp [Expr.nodes, Node.literal?]
      · simp [Expr.nodes, Node.literal?]
  | binary operator left right span =>
    cases h with
    | binary _ onLeft usedLeft onRight usedRight known fits =>
      unfold Compile.bindExpr Compile.operator
      simp only [known, pure_bind]
      rw [Expr.nodes, literalIds_cons, literalIds_append]
      exact (onLeft.agrees hlinked).bind ((onRight.agrees hlinked).map fun b => Bound.Expr.binary _ _ b)
  | subscript target index span =>
    cases h with
    | subscript _ onTarget usedTarget onIndex usedIndex fits =>
      unfold Compile.bindExpr
      rw [Expr.nodes, literalIds_cons, literalIds_append]
      exact (onTarget.agrees hlinked).bind ((onIndex.agrees hlinked).map fun b => Bound.Expr.subscript _ b)
termination_by structural e

theorem AcceptsExprs.agrees {p : Place} {es : List Expr} {tys : List (Ty × Span)} {bs : List Bound.Expr}
    {r r' : Record} (hlinked : Linked job keyOf p.imports p.global) (h : AcceptsExprs keyOf p r es tys bs r') :
    Agrees job p [] (literalIds (Expr.nodesOf es)) (Compile.bindExprs job p.scope es) r bs r' := by
  cases es with
  | nil => cases h; exact .pure _ _
  | cons e es =>
    cases h with
    | cons head used tail =>
      unfold Compile.bindExprs
      rw [Expr.nodesOf, literalIds_append]
      exact (head.agrees hlinked).bind ((tail.agrees hlinked).map fun bs => _ :: bs)
termination_by structural es

theorem AcceptsDeclaration.agrees {p : Place} {d : Declaration} {ty : Ty} {cell : Cell} {b : Bound.Expr}
    {r r' : Record} (hlinked : Linked job keyOf p.imports p.global) (h : AcceptsDeclaration keyOf p r d ty cell b r') :
    Agrees job p [cell] (literalIds d.nodes) (Compile.bindDeclaration job p.scope d) r (.declare cell b) r' := by
  cases d with
  | mk name note initial span =>
    cases h with
    | mk _ accepted used fits declared =>
      unfold Compile.bindDeclaration
      refine ((accepted.agrees hlinked).bind ((agrees_declare job rfl declared).map fun cell =>
        Bound.Stmt.declare cell _)).widen ?_ ?_
      · simp [Declaration.nodes]
      · simp [Declaration.nodes]
termination_by structural d

theorem AcceptsStmt.agrees {p : Place} {s : Stmt} {b : Bound.Stmt} {r r' : Record}
    (hlinked : Linked job keyOf p.imports p.global) (h : AcceptsStmt keyOf p r s b r') :
    Agrees job p b.declared (literalIds s.nodes) (Compile.bindStmt job p.scope s) r b r' := by
  cases s with
  | cond condition body span =>
    cases body with
    | mk body bodySpan =>
      cases h with
      | cond _ _ test used fits inside =>
        have hinside := inside.agrees (p := { p with conditional := true }) hlinked
        unfold Compile.bindStmt
        rw [Stmt.nodes, Block.nodes, literalIds_cons, literalIds_append]
        exact (test.agrees hlinked).bind (hinside.conditional.map fun bs => Bound.Stmt.cond _ bs)
  | declare d =>
    cases h with
    | declare declared =>
      rw [Stmt.nodes, literalIds_cons]
      exact declared.agrees hlinked
  | giveBack value span =>
    cases value with
    | none => cases h; exact .pure _ _
    | some e =>
      cases h with
      | giveBack _ given used fits =>
        rw [Stmt.nodes, literalIds_cons]
        exact (given.agrees hlinked).map fun b => Bound.Stmt.giveBack (some b)
  | eval e span =>
    cases h with
    | eval _ evaluated =>
      rw [Stmt.nodes, literalIds_cons]
      exact (evaluated.agrees hlinked).map Bound.Stmt.eval
  | pub d span =>
    cases h with
    | pub _ top declared exported =>
      rw [Stmt.nodes, literalIds_cons]
      exact (declared.agrees hlinked).exported (addExport_effect exported) (addExport_size exported)
  | use path names span =>
    cases h with
    | use _ top linked named found imports => exact agrees_use hlinked top linked named found imports
termination_by structural s

theorem AcceptsStmts.agrees {p : Place} {ss : List Stmt} {bs : List Bound.Stmt} {r r' : Record}
    (hlinked : Linked job keyOf p.imports p.global) (h : AcceptsStmts keyOf p r ss bs r') :
    Agrees job p (Bound.Stmt.declaredIn bs) (literalIds (Stmt.nodesOf ss)) (Compile.bindStmts job p.scope ss) r bs r'
    := by
  cases ss with
  | nil => cases h; exact .pure _ _
  | cons s ss =>
    cases h with
    | cons head tail =>
      unfold Compile.bindStmts
      rw [Stmt.nodesOf, literalIds_append]
      exact (head.agrees hlinked).bind ((tail.agrees hlinked).map fun bs => _ :: bs)
termination_by structural ss

end

end Check

end TypedScript
