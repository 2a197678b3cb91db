/-
The error type stands for what was reported, and for nothing else. Whatever a check finds is the error type or has no
error type in it, a module with nothing reported has no error type at all, and no report compares the error type with
anything. A program whose modules are clean then has no error type, as long as the host's builtins have none.

- `Program.excused_extended`: the types of a program with one more checked module.
- `error_types_reported`: the check of a module in any arena, and all modules of a clean program.
-/
import TypedScript.Proofs.TypeSoundness
import TypedScript.Proofs.Typing.Errors

namespace TypedScript

/-- a type of a scope: of a variable or an export, or its function's own -/
inductive Scope.Has (s : Scope) : Ty → Prop
  | declared {v : Variable} (hv : v ∈ s.declared) : s.Has v.ty
  | exported {exports : List (String × Ty)} {found : List Diagnostic} {e : String × Ty}
      (hk : s.kind = .global exports found) (he : e ∈ exports) : s.Has e.2
  | signature {parent : ScopeId} {signature : Signature} (hk : s.kind = .local parent signature) : s.Has signature.ty

theorem Scope.Excused.has {R : Prop} {s : Scope} {ty : Ty} (h : s.Excused R) (hty : s.Has ty) : ty.Excused R := by
  cases hty with
  | declared hv => exact h.declared _ hv
  | exported hk he => exact h.exports _ _ hk _ he
  | signature hk => exact .of_clean (h.signature _ _ hk)

/-- a type that the check of a module finds: of an expression, or of a scope that is made for the module -/
inductive Finds (arena : Arena) (body : Block) (imports : Imports) : Ty → Prop
  | expression {e : Expr} {ty : Ty} (h : .typed e ty ∈ (tracedModule arena body imports).events) :
      Finds arena body imports ty
  | scope {x : ScopeId} {s : Scope} {ty : Ty} (hx : arena.scopes.size ≤ x)
      (hs : (tracedModule arena body imports).record.arena.get? x = some s) (hty : s.Has ty) :
      Finds arena body imports ty

theorem Finds.excused {arena : Arena} {imports : Imports} {body : Block} {ty : Ty} (h : Finds arena body imports ty)
    (himports : Traced.Sound arena imports) : ty.Excused ((tracedModule arena body imports).diagnostics ≠ []) := by
  obtain ⟨_, _, hscopes, hevents⟩ := tracedModule_reports himports body
  cases h with
  | expression h => exact hevents _ h
  | scope hx hs hty => exact (hscopes _ _ hx hs).has hty

namespace Program

variable {g : Graph} {p q : Program} {places : Table Nat Nat} {ts : List (Option Bound.Function)}
  {links : List (String × Nat)}

/-- the builtins of the native modules of a program have no error type -/
def PlainNatives (p : Program) : Prop :=
  ∀ m ∈ p.modules, ∀ native, m.module.content = .native native → ∀ b ∈ native.builtins, b.signature.ty.hasError = false

/-- what is imported from a program without error types -/
theorem sound_importsOf (hp : p.arena.Excused False) (links : List (String × Nat)) :
    Traced.Sound p.arena (p.importsOf links) := by
  intro path dependency _ e he
  exact Ty.excused_false_iff.1 (hp.exports dependency e he)

/-- one more clean module -/
theorem excused_add (h : p.Good places ts) (hlinks : ∀ l ∈ links, l.2 < p.modules.length) {m : Module}
    (hp : p.arena.Excused False) (hclean : (p.add m links).arena.diagnostics p.arena.scopes.size = [])
    (hnative : ∀ native, m.content = .native native → ∀ b ∈ native.builtins, b.signature.ty.hasError = false) :
    (p.add m links).arena.Excused False := by
  obtain ⟨hextension, _⟩ := extension_add h.wellFormed hlinks m
  rw [add_eq] at hclean hextension ⊢
  unfold scopesOf at hclean hextension ⊢
  cases hcontent : m.content with
  | native native =>
    refine hp.newNative fun e he => ?_
    obtain ⟨b, hb, rfl⟩ := List.mem_map.1 he
    exact .of_clean (hnative native hcontent b hb)
  | source body =>
    rw [hcontent] at hclean hextension
    dsimp only at hclean hextension ⊢
    rw [tracedModule_eq] at hclean hextension ⊢
    obtain ⟨hdiagnostics, _, hscopes, _⟩ := tracedModule_reports (sound_importsOf hp links) body
    intro x s hs
    rcases Nat.lt_or_ge x p.arena.scopes.size with hx | hx
    · exact hp x s ((hextension.old x hx).symm.trans hs)
    · exact (hscopes x s hx hs).mono fun hne => hne (hdiagnostics.symm.trans hclean)

/-- what a clean program with one more module has, the program without it has, and so has the module -/
theorem excused_extended (h : p.Good places ts) (hlinks : ∀ l ∈ links, l.2 < p.modules.length) (m : Module)
    (hp : (∀ m ∈ p.modules, p.arena.diagnostics m.scopes.global = []) → p.PlainNatives → p.arena.Excused False)
    (hclean : ∀ m' ∈ (p.add m links).modules, (p.add m links).arena.diagnostics m'.scopes.global = [])
    (hnatives : (p.add m links).PlainNatives) : (p.add m links).arena.Excused False := by
  obtain ⟨hextension, _⟩ := extension_add h.wellFormed hlinks m
  have hmodules : (p.add m links).modules = p.modules ++
      [⟨m, (scopesOf p.arena m (p.importsOf links)).1, .ofList links⟩] := rfl
  rw [hmodules] at hclean
  unfold PlainNatives at hnatives
  rw [hmodules] at hnatives
  -- a module that is clean now was clean when the one behind it was not checked yet
  refine excused_add h hlinks (hp (fun m' hm => ?_) fun m' hm => hnatives m' (List.mem_append_left _ hm)) ?_
    (hnatives _ List.mem_concat_self)
  · obtain ⟨k, hk⟩ := List.getElem?_of_mem hm
    obtain ⟨t, ht⟩ := h.exists_tree hk
    rw [← hextension.diagnostics (h.checked k m' t hk ht).global]
    exact hclean m' (List.mem_append_left _ hm)
  · have hlast := hclean _ List.mem_concat_self
    rw [global_scopesOf] at hlast
    exact hlast

end Program

/-- In any arena, with imports whose exports have no error type: the check of a module finds only types that are the
error type or have no error type in them, and no error type at all where it reports nothing; what it reports compares
only types without the error type. A linked program with nothing reported has no error type in any scope. -/
theorem error_types_reported :
    (∀ (arena : Arena) (body : Block) (imports : Imports), Traced.Sound arena imports →
      let o := tracedModule arena body imports
      checkModule arena body imports = (⟨arena.scopes.size, o.record.functions⟩, o.record.arena) ∧
      o.record.arena.diagnostics arena.scopes.size = o.diagnostics ∧
      o.events.filterMap Event.expr? = body.checked ∧
      (∀ ty, Finds arena body imports ty → ty = .error ∨ ty.hasError = false) ∧
      (o.diagnostics = [] → ∀ ty, Finds arena body imports ty → ty.hasError = false) ∧
      ∀ position c, .complaint position c ∈ o.events → ∀ ty ∈ c.types, ty.hasError = false) ∧
    ∀ (g : Graph) (p : Program), link g = .ok p → p.hasErrors = false → p.PlainNatives →
      ∀ x s ty, p.arena.get? x = some s → s.Has ty → ty.hasError = false := by
  refine ⟨fun arena body imports himports => ?_, fun g p hlink hclean hnatives x s ty hs hty => ?_⟩
  · obtain ⟨hdiagnostics, hexprs, _, hevents⟩ := tracedModule_reports himports body
    refine ⟨tracedModule_eq arena body imports, hdiagnostics, hexprs, fun ty hty => ?_, fun hnone ty hty => ?_,
      fun position c hc => hevents _ hc⟩
    · exact (hty.excused himports).symm.imp_left And.left
    · exact (hty.excused himports).resolve_right fun h => h.2 hnone
  · have hexcused : p.arena.Excused False :=
      linked_keeps (P := fun p => (∀ m ∈ p.modules, p.arena.diagnostics m.scopes.global = []) → p.PlainNatives →
          p.arena.Excused False)
        (fun _ _ x s hs => by simp [Program.empty, Arena.get?, Arena.empty] at hs)
        (fun _ _ _ _ m hgood hlinks hp => Program.excused_extended hgood hlinks m hp) hlink
        (fun m hm => diagnostics_of_hasErrors hclean hm) hnatives
    exact Ty.excused_false_iff.1 ((hexcused x s hs).has hty)

theorem sound_printer : Traced.Sound (printer .empty) (Table.empty.insert "io" 0) := by
  intro path dependency hpath
  rw [Table.find?_insert] at hpath
  split at hpath
  · cases hpath
    decide
  · cases hpath

theorem error_types_reported_halving :
    (∀ ty, Finds (printer .empty) shouting (Table.empty.insert "io" 0) ty → ty = .error ∨ ty.hasError = false) ∧
    (tracedModule (printer .empty) shouting (Table.empty.insert "io" 0)).diagnostics =
      [⟨.null, "'missing' is not declared"⟩] ∧
    (∀ ty, Finds (printer .empty) ⟨shouting.body.take 2, .null⟩ (Table.empty.insert "io" 0) ty → ty.hasError = false) ∧
    ∃ body g p s v, parse halving = .ok body ∧ Graph.build "main" body halvingLibrary [doubles] = .ok g ∧
      link g = .ok p ∧ p.hasErrors = false ∧ p.PlainNatives ∧ p.arena.get? 0 = some s ∧ v ∈ s.declared ∧
      v.ty.hasError = false := by
  obtain ⟨_, _, _, hfinds, _⟩ := error_types_reported.1 (printer .empty) shouting _ sound_printer
  obtain ⟨_, _, _, _, hclean, _⟩ :=
    error_types_reported.1 (printer .empty) ⟨shouting.body.take 2, .null⟩ _ sound_printer
  refine ⟨hfinds, by decide +kernel, hclean (by decide +kernel), ?_⟩
  have hchecks : (assembled "main" halving halvingLibrary [doubles]).any (fun x => !x.2.2.hasErrors &&
      (x.2.2.arena.get? 0).any fun s => s.declared.any fun _ => true) = true := by
    set_option maxRecDepth 100000 in decide +kernel
  obtain ⟨⟨body, g, p⟩, hassembled, hall⟩ := (Option.any_eq_true _ _).1 hchecks
  obtain ⟨hparse, hbuild, hlink⟩ := assembled_eq hassembled
  simp only [Bool.and_eq_true, Bool.not_eq_true'] at hall
  obtain ⟨hclean, hscope⟩ := hall
  have hnatives : p.PlainNatives := by
    intro m hm native hcontent b hb
    obtain ⟨hprovided, _⟩ := (linked_made (Graph.built_of_build hparse hbuild) hlink hm).native native hcontent
    obtain rfl := List.mem_singleton.1 hprovided
    obtain rfl := List.mem_singleton.1 hb
    rfl
  obtain ⟨s, hs, hdeclared⟩ := (Option.any_eq_true _ _).1 hscope
  obtain ⟨v, hv, _⟩ := List.any_eq_true.1 hdeclared
  exact ⟨body, g, p, s, v, hparse, hbuild, hlink, hclean, hnatives, hs, hv,
    error_types_reported.2 g p hlink hclean hnatives 0 s v.ty hs (.declared hv)⟩

end TypedScript
