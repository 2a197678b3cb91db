/-
Checking one module. The scopes of the modules checked before stay as they are (`Arena.Extension`), and if nothing is
found wrong with the module, its whole body is accepted.

- `Check.module_extension`, `Arena.extension_newNative`: source and native modules only add scopes.
- `Check.module_accepts`: the body of a clean module is accepted.
-/
import TypedScript.Proofs.Typing.Sound

namespace TypedScript

/-! ## More scopes -/

namespace Arena

variable {a b c : Arena} {x : ScopeId}

/-- an arena, and one with more scopes behind its own -/
structure Extension (a b : Arena) : Prop where
  wellFormed : b.WellFormed
  later : a.Later b
  old : ∀ x < a.scopes.size, b.get? x = a.get? x

theorem Extension.refl (h : a.WellFormed) : Extension a a := ⟨h, .refl a, fun _ _ => rfl⟩

theorem Extension.trans (h : Extension a b) (h' : Extension b c) : Extension a c :=
  ⟨h'.wellFormed, h.later.trans h'.later,
    fun x hx => (h'.old x (Nat.lt_of_lt_of_le hx h.later.size)).trans (h.old x hx)⟩

theorem Extension.diagnostics (h : Extension a b) (hx : a.isGlobal x = true) : b.diagnostics x = a.diagnostics x := by
  have ha := h.later.ordered h.wellFormed.ordered
  obtain ⟨s, exports, hs, hk⟩ := diagnostics_of_isGlobal ha hx
  obtain ⟨t, exports', ht, hk'⟩ := diagnostics_of_isGlobal h.wellFormed.ordered (h.later.isGlobal_of hx)
  rw [h.old x (lt_of_get? hs), hs] at ht
  cases ht
  rw [hk] at hk'
  exact (ScopeKind.global.inj hk').2.symm

theorem Extension.exports (h : Extension a b) (hx : x < a.scopes.size) : b.exports x = a.exports x := by
  unfold Arena.exports
  rw [h.old x hx]

theorem isGlobal_newGlobal (a : Arena) : a.newGlobal.2.isGlobal a.scopes.size = true :=
  isGlobal_iff.2 ⟨.ofKind (.global [] []), (get?_add _ _ _).trans (if_pos rfl), rfl⟩

theorem extension_newGlobal (h : a.WellFormed) : Extension a a.newGlobal.2 :=
  ⟨h.add (Or.inl ⟨[], rfl⟩), later_add _ _,
    fun _ hx => (get?_add _ _ _).trans (if_neg (Nat.ne_of_lt hx))⟩

/-- moves in new scopes only -/
theorem Extension.moves {inner module : ScopeId} {base : Nat} (h : Extension a b)
    (hm : Moves inner module base b c) (hbase : a.scopes.size ≤ base) (hinner : a.scopes.size ≤ inner)
    (hmodule : a.scopes.size ≤ module) : Extension a c :=
  ⟨hm.wellFormed, h.later.trans hm.later, fun x hx =>
    (hm.frame x (Nat.lt_of_lt_of_le hx hbase) (Nat.ne_of_lt (Nat.lt_of_lt_of_le hx hinner))
      (Nat.ne_of_lt (Nat.lt_of_lt_of_le hx hmodule))).trans (h.old x hx)⟩

/-! ## Native modules -/

theorem hasVariable_iff {name : String} :
    a.hasVariable x name = true ↔ ∃ s v, a.get? x = some s ∧ s.find? name = some v := by
  unfold hasVariable
  rw [Option.isSome_iff_exists]
  constructor
  · rintro ⟨v, hv⟩
    obtain ⟨s, hs, hfind⟩ := Option.bind_eq_some_iff.1 hv
    exact ⟨s, v, hs, hfind⟩
  · rintro ⟨s, v, hs, hfind⟩
    exact ⟨v, Option.bind_eq_some_iff.2 ⟨s, hs, hfind⟩⟩

/-- a variable of each name is exported -/
def AllExported (a : Arena) (x : ScopeId) : Prop :=
  ∀ name, a.hasVariable x name = true → (a.export? x name).isSome = true

/-- a global scope, with what it exports -/
theorem exports_of_isGlobal (hx : a.isGlobal x = true) :
    ∃ s found, a.get? x = some s ∧ s.kind = .global (a.exports x) found := by
  obtain ⟨⟨kind, declared, count⟩, hs, hg⟩ := isGlobal_iff.1 hx
  cases kind with
  | global exports found => exact ⟨_, found, hs, by rw [exports_eq hs rfl]⟩
  | «local» parent signature => cases hg

theorem Later.export? (h : a.Later b) (hx : a.isGlobal x = true) {name : String}
    (he : (a.export? x name).isSome = true) : (b.export? x name).isSome = true := by
  obtain ⟨s, found, hs, hk⟩ := exports_of_isGlobal hx
  obtain ⟨t, ht, hst⟩ := h.scope x s hs
  obtain ⟨t', found', ht', hk'⟩ := exports_of_isGlobal (h.isGlobal_of hx)
  rw [ht] at ht'
  cases ht'
  have hlater := hst.kind
  rw [hk, hk'] at hlater
  cases hlater with
  | global hexports hf =>
    obtain ⟨more, hmore⟩ := hexports
    unfold Arena.export? at he ⊢
    rw [← hmore, List.lookup_append]
    cases hl : (a.exports x).lookup name with
    | none => rw [hl] at he; cases he
    | some ty => rfl

theorem hasVariable_update {id : ScopeId} {f : Scope → Scope} (hf : ∀ s, (f s).declared = s.declared)
    (name : String) : (a.update id f).hasVariable x name = a.hasVariable x name := by
  unfold hasVariable
  rw [get?_update]
  split
  · cases a.get? x with
    | none => rfl
    | some s =>
      simp only [Option.map_some, Option.bind_some]
      unfold Scope.find?
      rw [hf s]
  · rfl

theorem hasVariable_report (id : ScopeId) (position : Position) (text name : String) :
    (a.report id position text).hasVariable x name = a.hasVariable x name := by
  refine hasVariable_update (fun s => ?_) name
  split <;> rfl

theorem hasVariable_addExport (id : ScopeId) (exported : String) (ty : Ty) (position : Position) (name : String) :
    (a.addExport id exported ty position).2.hasVariable x name = a.hasVariable x name := by
  unfold addExport
  split
  · exact hasVariable_report _ _ _ _
  split
  · exact hasVariable_report _ _ _ _
  · refine hasVariable_update (fun s => ?_) name
    split <;> rfl

theorem hasVariable_extend {name : String} {ty : Ty} {other : String}
    (h : (a.extend x name ty).hasVariable x other = true) : other = name ∨ a.hasVariable x other = true := by
  unfold hasVariable at h ⊢
  rw [get?_extend, if_pos rfl] at h
  cases hs : a.get? x with
  | none => rw [hs] at h; cases h
  | some s =>
    rw [hs] at h
    simp only [Option.map_some, Option.bind_some] at h ⊢
    unfold Scope.find? at h ⊢
    rw [List.find?_append] at h
    cases hold : s.declared.find? fun v => v.cell.name = other with
    | some v => exact Or.inr rfl
    | none =>
      rw [hold, Option.none_or, List.find?_cons] at h
      split at h
      · next heq => exact Or.inl (of_decide_eq_true heq).symm
      · cases h

theorem export?_addExport (hx : a.isGlobal x = true) (h : a.WellFormed) (name : String) (ty : Ty)
    (position : Position) : ((a.addExport x name ty position).2.export? x name).isSome = true := by
  unfold addExport
  split
  · next hold =>
    have hreport : Moves x x 0 a (a.report x position ("'" ++ name ++ "' is already exported")) :=
      moves_report h (root_of_isGlobal h.ordered hx) _ _
    exact hreport.later.export? hx hold
  · rw [if_neg (by simp [hx])]
    obtain ⟨s, found, hs, hk⟩ := exports_of_isGlobal hx
    unfold export?
    rw [exports_eq (s := { s with kind := .global (a.exports x ++ [(name, ty)]) found }) (by
      rw [get?_update, if_pos rfl, hs, Option.map_some, hk]) rfl, List.lookup_append]
    cases (a.exports x).lookup name <;> simp

/-- the export of a builtin: where a variable of the name was there before, it is exported, and the export is refused -/
theorem moves_exportBuiltin {base : Nat} (h : a.WellFormed) (hx : a.isGlobal x = true) (hall : a.AllExported x)
    (name : String) (ty : Ty) (position : Position) :
    Moves x x base (a.newVariable x name ty position).2
      ((a.newVariable x name ty position).2.addExport x name ty position).2 := by
  have hnew : Moves x x base a (a.newVariable x name ty position).2 :=
    moves_newVariable h (root_of_isGlobal h.ordered hx) (Or.inl rfl) name ty position
  have hroot := root_of_isGlobal hnew.wellFormed.ordered (hnew.later.isGlobal_of hx)
  cases hvar : a.hasVariable x name with
  | true =>
    have hexported := hnew.later.export? hx (hall name hvar)
    unfold addExport
    rw [if_pos hexported]
    exact moves_report hnew.wellFormed hroot _ _
  | false =>
    refine moves_addExport hnew.wellFormed hroot (Or.inl rfl) (fun t ht => ?_) position
    obtain ⟨s, hs, _⟩ := isGlobal_iff.1 hx
    obtain ⟨t', ht', hfind⟩ := find?_extend hvar hs ty
    rw [newVariable_of_not_hasVariable hvar, ht'] at ht
    cases ht
    exact ⟨_, hfind, rfl⟩

/-- one more builtin of a native module -/
theorem moves_builtin {base : Nat} (h : a.WellFormed) (hx : a.isGlobal x = true) (hall : a.AllExported x)
    (name : String) (ty : Ty) (position : Position) :
    Moves x x base a ((a.newVariable x name ty position).2.addExport x name ty position).2 ∧
      ((a.newVariable x name ty position).2.addExport x name ty position).2.AllExported x := by
  have hnew : Moves x x base a (a.newVariable x name ty position).2 :=
    moves_newVariable h (root_of_isGlobal h.ordered hx) (Or.inl rfl) name ty position
  have hg := hnew.later.isGlobal_of hx
  have hadd : Moves x x base _ _ := moves_exportBuiltin h hx hall name ty position
  refine ⟨hnew.trans hadd, fun other hother => ?_⟩
  have hkept := fun he => hadd.later.export? hg (hnew.later.export? hx (hall other he))
  rw [hasVariable_addExport] at hother
  cases hvar : a.hasVariable x name with
  | true =>
    rw [newVariable_of_hasVariable hvar, hasVariable_report] at hother
    exact hkept hother
  | false =>
    rw [newVariable_of_not_hasVariable hvar] at hother
    rcases hasVariable_extend hother with rfl | hother
    · exact export?_addExport hg hnew.wellFormed other ty position
    · exact hkept hother

theorem moves_builtins {base : Nat} (exports : List (String × Ty)) (h : a.WellFormed) (hx : a.isGlobal x = true)
    (hall : a.AllExported x) :
    Moves x x base a
      (exports.foldl (fun a e => ((a.newVariable x e.1 e.2 .null).2.addExport x e.1 e.2 .null).2) a) := by
  induction exports generalizing a with
  | nil => exact .refl h
  | cons e exports ih =>
    have hboth : Moves x x base a _ ∧ _ := moves_builtin h hx hall e.1 e.2 .null
    obtain ⟨hmoves, hall'⟩ := hboth
    exact hmoves.trans (ih hmoves.wellFormed (hmoves.later.isGlobal_of hx) hall')

theorem allExported_newGlobal (a : Arena) : a.newGlobal.2.AllExported a.scopes.size := by
  intro name hname
  obtain ⟨s, v, hs, hfind⟩ := hasVariable_iff.1 hname
  unfold newGlobal at hs
  rw [get?_add, if_pos rfl] at hs
  cases hs
  cases hfind

theorem moves_newNative (h : a.WellFormed) (exports : List (String × Ty)) :
    Moves a.scopes.size a.scopes.size a.scopes.size a.newGlobal.2 (a.newNative exports).2 :=
  moves_builtins exports (extension_newGlobal h).wellFormed a.isGlobal_newGlobal a.allExported_newGlobal

/-- a native module only adds a scope -/
theorem extension_newNative (h : a.WellFormed) (exports : List (String × Ty)) :
    Extension a (a.newNative exports).2 ∧ (a.newNative exports).2.isGlobal a.scopes.size = true := by
  have hmoves := moves_newNative h exports
  exact ⟨(extension_newGlobal h).moves hmoves (Nat.le_refl _) (Nat.le_refl _) (Nat.le_refl _),
    hmoves.later.isGlobal_of a.isGlobal_newGlobal⟩

/-! ### Clean native modules -/

/-- what is exported is a variable of the scope -/
theorem export?_of_not_hasVariable (h : a.WellFormed) {name : String} (hname : a.hasVariable x name = false) :
    a.export? x name = none := by
  cases hexport : a.export? x name with
  | none => rfl
  | some ty =>
    obtain ⟨s, v, hs, hv, _⟩ := h.exported_find? (mem_of_export? hexport)
    rw [hasVariable_iff.2 ⟨s, v, hs, hv⟩] at hname
    cases hname

theorem exports_addExport (hx : a.isGlobal x = true) {name : String} (hnew : a.export? x name = none) (ty : Ty)
    (position : Position) : (a.addExport x name ty position).2.exports x = a.exports x ++ [(name, ty)] := by
  obtain ⟨s, found, hs, hk⟩ := exports_of_isGlobal hx
  unfold addExport
  rw [if_neg (by simp [hnew]), if_neg (by simp [hx])]
  exact exports_eq (s := { s with kind := .global (a.exports x ++ [(name, ty)]) found }) (by
    rw [get?_update, if_pos rfl, hs, Option.map_some, hk]) rfl

/-- in a clean module a builtin has a name of its own -/
theorem builtin_clean (h : a.WellFormed) (hx : a.isGlobal x = true) {name : String} {ty : Ty} {position : Position}
    (hlater : (a.newVariable x name ty position).2.Later b) (hb : b.Ordered) (hclean : b.diagnostics x = []) :
    a.hasVariable x name = false := by
  cases hvar : a.hasVariable x name with
  | false => rfl
  | true =>
    have hroot := root_of_isGlobal h.ordered hx
    have hreport : Moves x x 0 a (a.report x position ("'" ++ name ++ "' is already declared")) :=
      moves_report h hroot _ _
    rw [newVariable_of_hasVariable hvar] at hlater
    exact absurd (hlater.clean hb (hreport.later.isGlobal_of hx) hclean) (report_unclean h hroot hx _ _)

/-- a clean native module exports its builtins in their order -/
theorem builtins_clean (exports : List (String × Ty)) (h : a.WellFormed) (hx : a.isGlobal x = true)
    (hall : a.AllExported x)
    (hclean : (exports.foldl (fun a e => ((a.newVariable x e.1 e.2 .null).2.addExport x e.1 e.2 .null).2)
      a).diagnostics x = []) :
    (exports.foldl (fun a e => ((a.newVariable x e.1 e.2 .null).2.addExport x e.1 e.2 .null).2) a).exports x =
      a.exports x ++ exports := by
  induction exports generalizing a with
  | nil => exact (List.append_nil _).symm
  | cons e exports ih =>
    obtain ⟨name, ty⟩ := e
    have hnew : Moves x x 0 a (a.newVariable x name ty .null).2 :=
      moves_newVariable h (root_of_isGlobal h.ordered hx) (Or.inl rfl) name ty .null
    have hadd : Moves x x 0 _ _ := moves_exportBuiltin h hx hall name ty .null
    have hboth : Moves x x 0 a _ ∧ _ := moves_builtin h hx hall name ty .null
    obtain ⟨hmoves, hall'⟩ := hboth
    have hx' := hmoves.later.isGlobal_of hx
    have hrest : Moves x x 0 _ _ := moves_builtins exports hmoves.wellFormed hx' hall'
    have hvar := builtin_clean h hx (hadd.later.trans hrest.later) hrest.wellFormed.ordered hclean
    have hold : (a.newVariable x name ty .null).2.exports x = a.exports x := by
      rw [newVariable_of_not_hasVariable hvar]
      exact exports_extend _ _ _ _ _
    have hnone : (a.newVariable x name ty .null).2.export? x name = none := by
      have hnone := export?_of_not_hasVariable h hvar
      unfold export? at hnone ⊢
      rw [hold]
      exact hnone
    rw [List.foldl_cons, ih hmoves.wellFormed hx' hall' hclean, exports_addExport (hnew.later.isGlobal_of hx) hnone,
      hold, List.append_assoc, List.singleton_append]

theorem newNative_clean (h : a.WellFormed) {exports : List (String × Ty)}
    (hclean : (a.newNative exports).2.diagnostics a.scopes.size = []) :
    (a.newNative exports).2.exports a.scopes.size = exports := by
  have hnone : a.newGlobal.2.exports a.scopes.size = [] :=
    exports_eq ((get?_add _ _ _).trans (if_pos rfl)) rfl
  have hexports := builtins_clean exports (extension_newGlobal h).wellFormed a.isGlobal_newGlobal
    a.allExported_newGlobal hclean
  rw [hnone] at hexports
  exact hexports

end Arena

/-! ## Source modules -/

namespace Check

variable {keyOf : String → Option String} {imports : Imports} {arena : Arena} {body : Block}

/-- directly in the body of a module whose global scope is the next one of an arena -/
def top (imports : Imports) (arena : Arena) : Place := ⟨imports, arena.scopes.size, arena.scopes.size, false⟩

/-- what has been built when the check of a module starts -/
def start (arena : Arena) : Record := ⟨arena.newGlobal.2, .empty⟩

/-- what has been built when the check of a module is over -/
def finish (imports : Imports) (arena : Arena) (body : Block) : Record :=
  past (block (top imports arena) body) (start arena)

theorem checkModule_eq (arena : Arena) (body : Block) (imports : Imports) :
    checkModule arena body imports =
      (⟨arena.scopes.size, (finish imports arena body).functions⟩, (finish imports arena body).arena) := rfl

theorem ready_start (h : arena.WellFormed) (imports : Imports) : Ready (top imports arena) (start arena) := by
  have hnew := Arena.extension_newGlobal h
  have hglobal := arena.isGlobal_newGlobal
  refine ⟨hnew.wellFormed, ?_, Arena.root_of_isGlobal hnew.wellFormed.ordered hglobal, hglobal⟩
  change arena.scopes.size < (arena.add _).2.scopes.size
  rw [Arena.size_add]
  exact Nat.lt_succ_self _

/-- a source module only adds scopes -/
theorem module_extension (h : arena.WellFormed) (hkeyed : Keyed keyOf imports) (body : Block) :
    Arena.Extension arena (finish imports arena body).arena ∧
      (finish imports arena body).arena.isGlobal arena.scopes.size = true := by
  obtain ⟨body, span⟩ := body
  have hready := ready_start h imports
  obtain ⟨hstep, _⟩ := sound_stmts (K := False) (p := top imports arena) hkeyed body (start arena) False.elim hready
  have hfinish : finish imports arena ⟨body, span⟩ = (stmts (top imports arena) body (start arena)).2 := by
    unfold finish past block
    rfl
  rw [hfinish]
  have hsize : arena.scopes.size ≤ (start arena).arena.scopes.size := Nat.le_of_lt hready.scope
  exact ⟨(Arena.extension_newGlobal h).moves hstep.moves hsize (Nat.le_refl _) (Nat.le_refl _),
    hstep.moves.later.isGlobal_of hready.global⟩

/-- the body of a clean module is accepted -/
theorem module_accepts (h : arena.WellFormed) (hkeyed : Keyed keyOf imports) (hop : ∀ x ∈ body.nodes, x.OperatorKnown)
    (hclean : (finish imports arena body).arena.diagnostics arena.scopes.size = []) :
    ∃ bs, AcceptsStmts keyOf (top imports arena) (start arena) body.body bs (finish imports arena body) := by
  obtain ⟨body, span⟩ := body
  rw [Block.nodes] at hop
  obtain ⟨_, haccepts⟩ := sound_stmts (K := True) (p := top imports arena) hkeyed body (start arena) (fun _ => hop)
    (ready_start h imports)
  have hfinish : finish imports arena ⟨body, span⟩ = (stmts (top imports arena) body (start arena)).2 := by
    unfold finish past block
    rfl
  rw [hfinish] at hclean ⊢
  exact haccepts trivial hclean

end Check

end TypedScript
