/-
Types are kept. A program in which nothing was found wrong, which says nowhere `Any`, whose function literals end with
what they give back and which uses a variable that is declared inside the body of a condition only there, comes to a
value whose exports have the types that are recorded for them, or to one of the few faults that types do not exclude.

The modules run one after the other, each against those before it. Where the modules so far export what is recorded for
them, the next one finds what it imports, leaves the variables that it exports with values of their types, and so
exports what is recorded for it.

- `Program.typedAt`: the modules of a program are typed against the modules before them.
- `Direct.safe_runModules`: direct evaluation of typed modules.
- `runs_well_typed`: the run of a program on the machine.
-/
import TypedScript.Proofs.CompilerCorrectness
import TypedScript.Proofs.Direct.Sound
import TypedScript.Proofs.Direct.TypedModules

namespace TypedScript

/-! ## Typed programs -/

/-- the tree of a source module -/
def Module.body? (m : Module) : Option Block :=
  match m.content with
  | .source body => some body
  | .native _ => none

theorem Module.body?_source {m : Module} {body : Block} (h : m.content = .source body) : m.body? = some body := by
  unfold body?
  rw [h]

/-- a builtin of one of some native modules -/
def Provided (natives : List NativeModule) (b : Builtin) : Prop := ∃ native ∈ natives, b ∈ native.builtins

namespace Program

variable {natives : List NativeModule} {g : Graph} {p : Program} {k : Nat} {m : LinkedModule}
  {t : Option Bound.Function} {before : List LinkedModule}

/-- a native module of a clean program exports its builtins under its name -/
theorem native_exports (hbuilt : g.Built natives) (hlink : link g = .ok p) (hclean : p.hasErrors = false)
    {native : NativeModule} (hm : m ∈ p.modules) (hcontent : m.module.content = .native native) :
    native ∈ natives ∧ m.module.key = native.name ∧ p.arena.exports m.scopes.global = native.exports := by
  obtain ⟨_, hgood⟩ := linked_good hlink
  obtain ⟨k, hk⟩ := List.mem_iff_getElem?.1 hm
  obtain ⟨t, ht⟩ := hgood.exists_tree hk
  obtain ⟨hprovided, hkey⟩ := (linked_made hbuilt hlink hm).native native hcontent
  exact ⟨hprovided, hkey, (hgood.checked k m t hk ht).builtins native hcontent (diagnostics_of_hasErrors hclean hm)⟩

/-- what a native module exports is one of its builtins, with the type that it is declared with -/
theorem builtin_of_export {φ : Type} {native : NativeModule} (hp : p.arena.WellFormed)
    (hexports : p.arena.exports m.scopes.global = native.exports) {name : String} {v : Value φ}
    (hv : (Table.ofList (native.builtins.map fun b => (b.name, Value.builtin b))).find? name = some v) :
    ∃ b ∈ native.builtins, v = .builtin b ∧ p.arena.export? m.scopes.global name = some b.signature.ty := by
  obtain ⟨b, hb, heq⟩ := List.mem_map.1 (Table.mem_of_find?_ofList hv)
  cases heq
  have hmem : (b.name, b.signature.ty) ∈ p.arena.exports m.scopes.global := by
    rw [hexports]
    exact List.mem_map.2 ⟨b, hb, rfl⟩
  exact ⟨b, hb, rfl, hp.export? hmem⟩

/-- the trees of a clean program fit their types, where no annotation mentions `Any`; and if all that native modules
export is of a kind, so is all that any module exports -/
theorem fitAt {P : Ty → Prop} (hP : Ty.Kind P) (hbuilt : g.Built natives) (hlink : link g = .ok p)
    (hclean : p.hasErrors = false) (hsignatures : ∀ native ∈ natives, ∀ b ∈ native.builtins, P b.signature.ty)
    (hnodes : ∀ m ∈ p.modules, ∀ body ∈ m.module.body?, ∀ x ∈ body.nodes, x.Plain)
    (hm : p.modules[k]? = some m) (ht : g.trees[k]? = some t) :
    (∀ f ∈ t, Bound.FitStmts p.arena.typeOf? P (p.exportType (p.modules.take k)) none f.body) ∧
      ∀ e ∈ p.arena.exports m.scopes.global, P e.2 := by
  obtain ⟨_, hgood⟩ := linked_good hlink
  -- what a module imports is of the kind because the modules before it export nothing else
  induction k using Nat.strongRecOn generalizing m t with
  | ind k ih =>
    have hmem := List.mem_of_getElem? hm
    have hnothing := diagnostics_of_hasErrors hclean hmem
    obtain ⟨native, hcontent, rfl⟩ | ⟨body, bs, d, hcontent, _, hd, rfl⟩ :=
      clean_module (linked_made hbuilt hlink hmem) hnothing (hgood.checked k m t hm ht)
    · obtain ⟨hprovided, _, hexports⟩ := native_exports hbuilt hlink hclean hmem hcontent
      refine ⟨fun _ h => (nomatch h), fun e he => ?_⟩
      rw [hexports] at he
      obtain ⟨b, hb, rfl⟩ := List.mem_map.1 he
      exact hsignatures native hprovided b hb
    · have hbefore : ∀ i m', i < k → p.modules[i]? = some m' → ∀ e ∈ p.arena.exports m'.scopes.global, P e.2 := by
        intro i m' hi hm'
        obtain ⟨t', ht'⟩ := hgood.exists_tree hm'
        exact (ih i hi hm' ht').2
      obtain ⟨hfit, hkinds⟩ := hd.fit hP hgood.wellFormed (linked_keys hbuilt hlink) hnothing
        (hnodes m hmem body (Module.body?_source hcontent)) hbefore
      refine ⟨fun f hf => ?_, hkinds⟩
      cases hf
      exact hfit

/-- what is asked of a program that is to keep to its types: no annotation and no native signature mentions `Any`, each
function literal that gives something ends with a value given back, and no variable that is declared inside the body of
a condition is used behind that body -/
structure Strict (natives : List NativeModule) (g : Graph) (p : Program) : Prop where
  signatures : ∀ native ∈ natives, ∀ b ∈ native.builtins, b.signature.ty.hasAny = false
  nodes : ∀ m ∈ p.modules, ∀ body ∈ m.module.body?, ∀ x ∈ body.nodes, x.Strict
  confined : ∀ t ∈ g.trees, ∀ f ∈ t, f.confined = true

instance (natives : List NativeModule) (g : Graph) (p : Program) : Decidable (p.Strict natives g) :=
  decidable_of_iff
    ((∀ native ∈ natives, ∀ b ∈ native.builtins, b.signature.ty.hasAny = false) ∧
      (∀ m ∈ p.modules, ∀ body ∈ m.module.body?, ∀ x ∈ body.nodes, x.Strict) ∧
      ∀ t ∈ g.trees, ∀ f ∈ t, f.confined = true)
    ⟨fun h => ⟨h.1, h.2.1, h.2.2⟩, fun h => ⟨h.signatures, h.nodes, h.confined⟩⟩

/-- a module and its bound tree are typed against the modules before it -/
inductive TypedAt (natives : List NativeModule) (p : Program) (before : List LinkedModule) :
    LinkedModule × Option Bound.Function → Prop
  | native {m : LinkedModule} {t : Option Bound.Function} {native : NativeModule}
      (content : m.module.content = .native native) (provided : native ∈ natives) (key : m.module.key = native.name)
      (exports : p.arena.exports m.scopes.global = native.exports) : TypedAt natives p before (m, t)
  | source {m : LinkedModule} {body : Block} {f : Bound.Function} (content : m.module.content = .source body)
      (typed : TypedModule p before m f) : TypedAt natives p before (m, some f)

theorem typedAt (hbuilt : g.Built natives) (hlink : link g = .ok p) (hclean : p.hasErrors = false)
    (hstrict : p.Strict natives g) (hm : p.modules[k]? = some m) (ht : g.trees[k]? = some t) :
    TypedAt natives p (p.modules.take k) (m, t) := by
  obtain ⟨_, hgood⟩ := linked_good hlink
  have hmem := List.mem_of_getElem? hm
  have hnothing := diagnostics_of_hasErrors hclean hmem
  obtain ⟨native, hcontent, rfl⟩ | ⟨body, bs, d, hcontent, _, hd, rfl⟩ :=
    clean_module (linked_made hbuilt hlink hmem) hnothing (hgood.checked k m t hm ht)
  · obtain ⟨hprovided, hkey, hexports⟩ := native_exports hbuilt hlink hclean hmem hcontent
    exact .native hcontent hprovided hkey hexports
  · have hplain : ∀ i m', i < k → p.modules[i]? = some m' →
        ∀ e ∈ p.arena.exports m'.scopes.global, e.2.hasAny = false := by
      intro i m' _ hm'
      obtain ⟨t', ht'⟩ := hgood.exists_tree hm'
      exact (fitAt Ty.kind_plain hbuilt hlink hclean hstrict.signatures
        (fun m hm body hbody x hx => (hstrict.nodes m hm body hbody x hx).plain) hm' ht').2
    exact .source hcontent (hd.typed hgood.wellFormed (linked_keys hbuilt hlink) hnothing
      (hstrict.nodes m hmem body (Module.body?_source hcontent)) (hstrict.confined _ (List.mem_of_getElem? ht) _ rfl)
      hplain)

end Program

/-! ## Runs of typed modules -/

namespace Direct

variable {σ : Type} {types : Nat → Option Ty} {known : Builtin → Prop} {holds : σ → List (Closure Bound.Function)}
  {ok : σ → Prop} {host : Host σ} {s : State σ} {frame : FrameId} {p : Program} {m : LinkedModule}
  {before : List LinkedModule} {natives : List NativeModule}

/-- a module exports the names that are recorded for it, with values of the types that are recorded -/
structure Recorded (types : Nat → Option Ty) (known : Builtin → Prop) (p : Program) (m : LinkedModule)
    (exports : Exports) : Prop where
  each : ∀ name ty, p.arena.export? m.scopes.global name = some ty → ∃ v, exports.find? name = some v
  typed : ∀ name v, exports.find? name = some v →
    ∃ ty, p.arena.export? m.scopes.global name = some ty ∧ HasType types known ty v

/-- what is recorded once one more module has run -/
theorem exportType_append {key name : String} {ty : Ty} (h : p.exportType (before ++ [m]) key name = some ty) :
    key = m.module.key ∧ p.arena.export? m.scopes.global name = some ty ∨ p.exportType before key name = some ty := by
  unfold Program.exportType at h ⊢
  rw [List.find?_append] at h
  cases hfind : before.find? fun m => m.module.key = key with
  | some m' =>
    rw [hfind] at h
    exact Or.inr h
  | none =>
    rw [hfind, Option.none_or, List.find?_singleton] at h
    split at h
    · next hkey => exact Or.inl ⟨(of_decide_eq_true hkey).symm, h⟩
    · cases h

/-- a module is registered under a key that no module before it has -/
theorem safe_register (hinv : Invariant (typing types known) holds ok s)
    (hexporting : Exporting types known (p.exportType before) s)
    (hnew : m.module.key ∉ before.map fun m => m.module.key)
    {exports : Exports} (hrecorded : Recorded types known p m exports)
    (hvalid : ∀ name v, exports.find? name = some v → ∀ c ∈ v.closures, Valid types s.store c) :
    Safe (register m.module.key exports) s fun _ s' =>
      Invariant (typing types known) holds ok s' ∧ Exporting types known (p.exportType (before ++ [m])) s' := by
  refine ⟨hinv.register _ hvalid, fun module name ty hty => ?_⟩
  unfold export?
  rw [Table.find?_insert]
  rcases exportType_append hty with ⟨rfl, hexport⟩ | hold
  · rw [if_pos rfl]
    obtain ⟨v, hv⟩ := hrecorded.each name ty hexport
    obtain ⟨ty', hty', htype⟩ := hrecorded.typed name v hv
    rw [hexport, Option.some.injEq] at hty'
    exact ⟨v, hv, hty' ▸ htype⟩
  · obtain ⟨m', hm', rfl, _⟩ := Program.exists_of_exportType hold
    have hother : m.module.key ≠ m'.module.key := by
      intro heq
      rw [heq] at hnew
      exact hnew (List.mem_map.2 ⟨m', hm', rfl⟩)
    rw [if_neg hother]
    exact hexporting _ name ty hold

/-- the exports of a module are values of the types of their variables -/
theorem safe_collect (hinv : Invariant (typing types known) holds ok s)
    {exports : List (String × Cell)} {collected : Exports}
    (hexports : ∀ e ∈ exports, s.store.Initialised frame e.2.id ∧ ∃ ty, types e.2.id = some ty) :
    Safe (collect frame exports collected) s fun found s' => s' = s ∧
      (∀ name, (∃ v, collected.find? name = some v) ∨ name ∈ exports.map Prod.fst → ∃ v, found.find? name = some v) ∧
      ∀ name v, found.find? name = some v → collected.find? name = some v ∨
        ∃ cell ty, (name, cell) ∈ exports ∧ types cell.id = some ty ∧ Good types known s.store ty v := by
  induction exports generalizing collected with
  | nil => exact ends_pure ⟨rfl, fun _ h => h.resolve_right List.not_mem_nil, fun _ _ h => Or.inl h⟩
  | cons e exports ih =>
    obtain ⟨name, cell⟩ := e
    obtain ⟨⟨hready, ty, hty⟩, hrest⟩ := List.forall_mem_cons.1 hexports
    unfold collect
    refine ends_bind.2 ((safe_load hinv hready hty).imp fun v s' hload => ?_)
    obtain ⟨rfl, hgood⟩ := hload
    refine (ih hrest).imp fun found s' hfound => ?_
    obtain ⟨rfl, hall, honly⟩ := hfound
    refine ⟨rfl, fun other hother => hall other ?_, fun other w hw => ?_⟩
    · rw [Table.find?_insert]
      rcases hother with hold | hmem
      · split
        · exact Or.inl ⟨v, rfl⟩
        · exact Or.inl hold
      · rcases List.mem_cons.1 hmem with rfl | hmem
        · exact Or.inl ⟨v, if_pos rfl⟩
        · exact Or.inr hmem
    · rcases honly other w hw with hcollected | ⟨cell', ty', hmem, hfresh⟩
      · rw [Table.find?_insert] at hcollected
        split at hcollected
        · next heq =>
          cases heq
          cases hcollected
          exact Or.inr ⟨cell, ty, List.mem_cons_self, hty, hgood⟩
        · exact Or.inl hcollected
      · exact Or.inr ⟨cell', ty', List.mem_cons_of_mem _ hmem, hfresh⟩

/-- a native module exports its builtins -/
theorem recorded_native {native : NativeModule} (hp : p.arena.WellFormed) (hprovided : native ∈ natives)
    (hexports : p.arena.exports m.scopes.global = native.exports) :
    Recorded types (Provided natives) p m (.ofList (native.builtins.map fun b => (b.name, .builtin b))) := by
  refine ⟨fun name ty hty => ?_, fun name v hv => ?_⟩
  · have hmem := Arena.mem_of_export? hty
    rw [hexports] at hmem
    obtain ⟨b, hb, heq⟩ := List.mem_map.1 hmem
    cases heq
    exact Table.exists_find?_ofList (List.mem_map.2 ⟨_, List.mem_map.2 ⟨b, hb, rfl⟩, rfl⟩)
  · obtain ⟨b, hb, rfl, hexport⟩ := Program.builtin_of_export hp hexports hv
    exact ⟨_, hexport, Or.inr ⟨b, rfl, rfl, native, hprovided, hb⟩⟩

/-- a source module runs to exports as they are recorded -/
theorem safe_runSource (hhost : host.Sound types known holds ok) (hp : p.arena.WellFormed) {limit : Nat}
    {f : Bound.Function} (htypes : p.arena.typeOf? = types) (htyped : TypedModule p before m f)
    (hinv : Invariant (typing types known) holds ok s) (hexporting : Exporting types known (p.exportType before) s)
    (hnew : m.module.key ∉ before.map fun m => m.module.key) :
    Safe (runSource host limit m.module.key f (p.exported m.scopes.global)) s fun value s' =>
      Invariant (typing types known) holds ok s' ∧ Exporting types known (p.exportType (before ++ [m])) s' ∧
        Recorded types known p m value.exports := by
  subst htypes
  unfold runSource
  refine ends_bind.2 ((safe_openModule hinv f).imp fun frame s₁ hopened => ?_)
  obtain ⟨hkeeps, hin⟩ := hopened
  have hbody :=
    safe_stmts hhost (safe_invoke hhost limit limit) htyped.body hkeeps.invariant (hexporting.keeps hkeeps) hin
  refine ends_bind.2 (hbody.imp fun result s₂ hran => ?_)
  obtain ⟨hkeeps', hout⟩ := hran
  cases result with
  | some v =>
    obtain ⟨_, hnone, _⟩ := hout
    cases hnone
  | none =>
    have hready (e : String × Cell) (he : e ∈ p.exported m.scopes.global) :
        s₂.store.Initialised frame e.2.id ∧ ∃ ty, p.arena.typeOf? e.2.id = some ty := by
      obtain ⟨_, v, _, _, _, htype, _⟩ := Program.exported_type hp he
      exact ⟨hout _ (htyped.exported e he), _, htype⟩
    refine ends_bind.2 ((safe_collect hkeeps'.invariant hready).imp fun found s₃ hcollected => ?_)
    obtain ⟨rfl, hall, honly⟩ := hcollected
    have hfresh {name : String} {v : Val} (hv : found.find? name = some v) :
        ∃ cell ty, (name, cell) ∈ p.exported m.scopes.global ∧ p.arena.typeOf? cell.id = some ty ∧
          Good p.arena.typeOf? known s₃.store ty v := by
      rcases honly name v hv with hnone | hfound
      · cases hnone
      · exact hfound
    have hrecorded : Recorded p.arena.typeOf? known p m found := by
      refine ⟨fun name ty hty => ?_, fun name v hv => ?_⟩
      · obtain ⟨cell, hcell⟩ := Program.exists_exported hp hty
        exact hall name (Or.inr (List.mem_map.2 ⟨_, hcell, rfl⟩))
      · obtain ⟨cell, ty, hcell, htype, hgood⟩ := hfresh hv
        obtain ⟨_, w, _, _, _, hw, hexport⟩ := Program.exported_type hp hcell
        rw [htype, Option.some.injEq] at hw
        exact ⟨ty, hw ▸ hexport, hgood.type⟩
    refine ends_bind.2 ((safe_register hkeeps'.invariant ((hexporting.keeps hkeeps).keeps hkeeps') hnew hrecorded
      fun name v hv => ?_).imp fun _ s₄ hregistered => ?_)
    · obtain ⟨_, _, _, _, hgood⟩ := hfresh hv
      exact hgood.valid
    · exact ends_pure ⟨hregistered.1, hregistered.2, hrecorded⟩

/-- typed modules run one after the other, and the value is that of the last one if it is a source module -/
theorem safe_runModules (hhost : host.Sound p.arena.typeOf? (Provided natives) holds ok) (hp : p.arena.WellFormed)
    {limit : Nat} {ms : List (LinkedModule × Option Bound.Function)} {last : Option ModuleValue}
    (hms : ∀ i m, ms[i]? = some m → p.TypedAt natives (before ++ (ms.take i).map Prod.fst) m)
    (hkeys : ((before ++ ms.map Prod.fst).map fun m => m.module.key).Nodup)
    (hinv : Invariant (typing p.arena.typeOf? (Provided natives)) holds ok s)
    (hexporting : Exporting p.arena.typeOf? (Provided natives) (p.exportType before) s) :
    Safe (runModules host limit (ms.filterMap p.directModule) last) s fun value _ =>
      (ms = [] → value = last) ∧ ∀ m body, ms.getLast? = some m → m.1.module.content = .source body →
        ∃ v, value = some v ∧ Recorded p.arena.typeOf? (Provided natives) p m.1 v.exports := by
  induction ms generalizing before last s with
  | nil => exact ends_pure ⟨fun _ => rfl, fun _ _ h => by cases h⟩
  | cons m ms ih =>
    obtain ⟨m, t⟩ := m
    have hhead : p.TypedAt natives before (m, t) := by simpa using hms 0 _ rfl
    have htail : ∀ i m', ms[i]? = some m' → p.TypedAt natives ((before ++ [m]) ++ (ms.take i).map Prod.fst) m' := by
      intro i m' hm'
      simpa using hms (i + 1) m' hm'
    have hkeys' : (((before ++ [m]) ++ ms.map Prod.fst).map fun m => m.module.key).Nodup := by simpa using hkeys
    have hnew : m.module.key ∉ before.map fun m => m.module.key := by
      rw [List.map_append, List.map_append] at hkeys'
      have hfront := (List.nodup_append.1 (List.nodup_append.1 hkeys').1).2.2
      exact fun hmem => hfront _ hmem _ (by simp) rfl
    cases hhead with
    | native content provided key exports =>
      rw [List.filterMap_cons, Program.directModule_native content]
      unfold runModules
      refine ends_bind.2 ?_
      rw [← key]
      refine (safe_register hinv hexporting hnew (recorded_native hp provided exports) fun name v hv => ?_).imp
        fun _ s₁ hregistered => ?_
      · obtain ⟨b, _, heq⟩ := List.mem_map.1 (Table.mem_of_find?_ofList hv)
        cases heq
        exact fun c hc => absurd hc List.not_mem_nil
      · refine (ih htail hkeys' hregistered.1 hregistered.2).imp fun value s₂ hran =>
          ⟨fun h => absurd h (List.cons_ne_nil _ _), ?_⟩
        intro m' body hlast hsource
        cases ms with
        | nil =>
          obtain rfl : (m, t) = m' := by simpa using hlast
          rw [content] at hsource
          cases hsource
        | cons m₁ ms => exact hran.2 m' body (by simpa using hlast) hsource
    | source content typed =>
      rw [List.filterMap_cons, Program.directModule_source content]
      unfold runModules
      refine ends_bind.2 ((safe_runSource hhost hp rfl typed hinv hexporting hnew).imp fun v s₁ hsource => ?_)
      refine (ih htail hkeys' hsource.1 hsource.2.1).imp fun value s₂ hran =>
        ⟨fun h => absurd h (List.cons_ne_nil _ _), ?_⟩
      intro m' body hlast hbody
      cases ms with
      | nil =>
        obtain rfl : (m, _) = m' := by simpa using hlast
        exact ⟨v, hran.1 rfl, hsource.2.2⟩
      | cons m₁ ms => exact hran.2 m' body (by simpa using hlast) hbody

end Direct

/-! ## Runs of programs -/

section

open Direct

variable {σ τ : Type} {natives : List NativeModule} {g : Graph} {p : Program} {t : Toolchain}
  {host : Direct.Host σ} {machine : Host τ} {view : σ → τ} {holds : τ → List Closure}
  {held : σ → List (Closure Bound.Function)} {ok : σ → Prop} {memory : σ}

/-- a run comes to a value that exports what is recorded for a module, or to one of the faults that types do not
exclude -/
def KeepsTypes (natives : List NativeModule) (p : Program) (m : LinkedModule) :
    Except ToolchainError ModuleValue → Prop
  | .ok value => ∃ exports : Direct.Exports, value.exports = exports.map lower ∧
      Recorded p.arena.typeOf? (Provided natives) p m exports
  | .error e => ∃ fault, e = .runtime fault ∧ fault.Allowed

/-- direct evaluation of the modules of a typed program, where it starts -/
theorem safe_program (hbuilt : g.Built natives) (hlink : link g = .ok p) (hclean : p.hasErrors = false)
    (hstrict : p.Strict natives g) (hhost : host.Sound p.arena.typeOf? (Provided natives) held ok)
    (hheld : held memory = []) (hok : ok memory) (limit : Nat) {m : LinkedModule} {body : Block}
    (hroot : p.root? = some m) (hbody : m.module.content = .source body) :
    Safe (runModules host limit (p.direct g.trees) none) ⟨.empty, .empty, memory⟩ fun value _ =>
      ∃ v, value = some v ∧ Recorded p.arena.typeOf? (Provided natives) p m v.exports := by
  obtain ⟨_, hgood⟩ := linked_good hlink
  have hfirst : (p.modules.zip g.trees).map Prod.fst = p.modules := List.map_fst_zip (Nat.le_of_eq hgood.length.symm)
  have hms (i : Nat) (x : LinkedModule × Option Bound.Function) (hx : (p.modules.zip g.trees)[i]? = some x) :
      p.TypedAt natives ([] ++ ((p.modules.zip g.trees).take i).map Prod.fst) x := by
    obtain ⟨hm, ht⟩ := List.getElem?_zip_eq_some.1 hx
    rw [List.map_take, hfirst]
    exact Program.typedAt hbuilt hlink hclean hstrict hm ht
  have hkeys : (([] ++ (p.modules.zip g.trees).map Prod.fst).map fun (m : LinkedModule) => m.module.key).Nodup := by
    rw [hfirst]
    exact linked_keys hbuilt hlink
  refine (safe_runModules hhost hgood.wellFormed hms hkeys (invariant_empty hheld hok) fun _ _ _ h => by cases h).imp
    fun value _ hran => ?_
  have hlast : ((p.modules.zip g.trees).map Prod.fst).getLast? = some m := by
    rw [hfirst]
    exact hroot
  rw [List.getLast?_map] at hlast
  obtain ⟨x, hx, rfl⟩ := Option.map_eq_some_iff.1 hlast
  exact hran.2 x body hx hbody

/-- a typed program keeps to its types on the machine: whatever number of calls may be open, and whatever the host does
that answers as its functions are declared and makes none of its own, the run comes to a value whose exports have the
types that are recorded for the root module, or divides by zero, opens too many calls or is refused by the host -/
theorem runs_well_typed {rootPath text : String} {root : Block} {loader : Loader} (hparse : parse text = .ok root)
    (hbuild : Graph.build rootPath root loader natives = .ok g) (hlink : link g = .ok p) (hclean : p.hasErrors = false)
    (hstrict : p.Strict natives g) (hconserves : machine.Conserves holds) (hmirrors : Mirrors host machine view)
    (hhost : host.Sound p.arena.typeOf? (Provided natives) held ok) (hholds : holds (view memory) = [])
    (hheld : held memory = []) (hok : ok memory) :
    ∃ m, p.root? = some m ∧ KeepsTypes natives p m (t.execute machine p (view memory)).1 := by
  have hbuilt := Graph.built_of_build hparse hbuild
  obtain ⟨m, _, body, hroot, _, hmodule, hbody⟩ := linked_root hbuilt hlink
  rw [← hmodule] at hbody
  have hsafe := safe_program hbuilt hlink hclean hstrict hhost hheld hok t.maxCallDepth hroot hbody
  have hagrees := @execute_eq _ _ _ g p t _ _ _ _ _ hbuilt hlink hclean hmirrors hconserves hholds
  refine ⟨m, hroot, ?_⟩
  unfold Direct.execute at hagrees
  unfold Safe Ends at hsafe
  cases hran : runModules host t.maxCallDepth (p.direct g.trees) none ⟨.empty, .empty, memory⟩ with
  | error fault s =>
    rw [hran] at hagrees hsafe
    rw [show t.execute machine p (view memory) = _ from hagrees]
    exact ⟨fault, rfl, hsafe⟩
  | ok value s =>
    rw [hran] at hagrees hsafe
    obtain ⟨v, rfl, hrecorded⟩ := hsafe
    obtain ⟨w, hw, hexecute⟩ := hagrees
    obtain rfl := Option.some.inj hw
    rw [hexecute]
    exact ⟨v.exports, rfl, hrecorded⟩

end

/-! ## A program with a function of the host -/

/-- a native module whose one function gives twice a number -/
def doubles : NativeModule := ⟨"doubles", [⟨.host 0, "double", ⟨[.int], .int⟩⟩]⟩

/-- the text of a root module that calls its own functions, those of another text and those of the host -/
def halving : String :=
  "use \"doubles\"; use \"lib\" (apply);
  pub let half := fn(n: Int): Int { return n / double(1); };
  if half(3) < 2 { let three := 3; double(three); }
  pub let seven := apply(half, 14);"

def halvingLibrary : Loader :=
  .memory (Loader.insert .empty "lib" "pub let apply := fn(f: (Int) => Int, n: Int): Int { return f(n); };")

/-- what is put together from a text -/
def assembled (rootPath text : String) (loader : Loader) (natives : List NativeModule) :
    Option (Block × Graph × Program) := do
  let body ← (parse text).toOption
  let g ← (Graph.build rootPath body loader natives).toOption
  let p ← (link g).toOption
  return (body, g, p)

theorem assembled_eq {rootPath text : String} {loader : Loader} {natives : List NativeModule} {body : Block} {g : Graph}
    {p : Program} (h : assembled rootPath text loader natives = some (body, g, p)) :
    parse text = .ok body ∧ Graph.build rootPath body loader natives = .ok g ∧ link g = .ok p := by
  have toOption {ε α : Type} {x : Except ε α} {a : α} (h : x.toOption = some a) : x = .ok a := by
    cases x with
    | ok b => cases h; rfl
    | error e => cases h
  unfold assembled at h
  obtain ⟨body, hbody, h⟩ := Option.bind_eq_some_iff.1 h
  obtain ⟨g, hg, h⟩ := Option.bind_eq_some_iff.1 h
  obtain ⟨p, hp, h⟩ := Option.bind_eq_some_iff.1 h
  cases h
  exact ⟨toOption hbody, toOption hg, toOption hp⟩

theorem halving_strict : (assembled "main" halving halvingLibrary [doubles]).any (fun x =>
    !x.2.2.hasErrors && decide (x.2.2.Strict [doubles] x.2.1)) = true := by
  set_option maxRecDepth 100000 in decide +kernel

/-- twice a number -/
def twice {φ : Type} : List (Value φ) → Except String (Value φ)
  | [.int n] => .ok (.int (n + n))
  | _ => .error "expected a single Int argument"

/-- a host that gives twice a number and counts its calls -/
def doubling : Host Nat := ⟨fun _ arguments calls => (twice arguments, calls + 1), .empty⟩

/-- the same host for direct evaluation -/
def Direct.doubling : Direct.Host Nat := ⟨fun _ arguments calls => (twice arguments, calls + 1)⟩

theorem exists_of_twice {φ : Type} {arguments : List (Value φ)} {v : Value φ} (h : twice arguments = .ok v) :
    ∃ n, v = .int n := by
  unfold twice at h
  split at h
  · cases h
    exact ⟨_, rfl⟩
  · cases h

theorem doubling_conserves : doubling.Conserves fun _ => [] := by
  refine ⟨rfl, fun id arguments calls v h c hc => ?_, fun _ _ _ _ h => absurd h List.not_mem_nil⟩
  obtain ⟨n, rfl⟩ := exists_of_twice h
  cases hc

theorem doubling_mirrors : Direct.Mirrors Direct.doubling doubling id := by
  intro id arguments calls
  refine Prod.ext ?_ rfl
  change twice (arguments.map Direct.lower) = (twice arguments).map Direct.lower
  rcases arguments with _ | ⟨v, _ | ⟨w, rest⟩⟩
  · rfl
  · cases v <;> rfl
  · cases v <;> rfl

/-- the host answers as its function is declared, whatever the types of the program's variables are -/
theorem doubling_sound (types : Nat → Option Ty) :
    Direct.doubling.Sound types (Provided [doubles]) (fun _ => []) fun _ => True := by
  refine ⟨⟨fun id arguments calls v h c hc => ?_, fun _ _ _ _ h => absurd h List.not_mem_nil⟩,
    fun b hb arguments calls _ _ => ⟨trivial, fun v hv => ?_⟩⟩
  · obtain ⟨n, rfl⟩ := exists_of_twice h
    cases hc
  · obtain ⟨native, hnative, hmem⟩ := hb
    obtain rfl := List.mem_singleton.1 hnative
    obtain rfl := List.mem_singleton.1 hmem
    exact Direct.hasType_int.2 (exists_of_twice hv)

theorem runs_well_typed_halving : ∃ body g p m, parse halving = .ok body ∧
    Graph.build "main" body halvingLibrary [doubles] = .ok g ∧ link g = .ok p ∧ p.hasErrors = false ∧
    p.Strict [doubles] g ∧ doubling.Conserves (fun _ => []) ∧ Direct.Mirrors Direct.doubling doubling id ∧
    Direct.doubling.Sound p.arena.typeOf? (Provided [doubles]) (fun _ => []) (fun _ => True) ∧ p.root? = some m ∧
    KeepsTypes [doubles] p m (Toolchain.default.execute doubling p 0).1 := by
  obtain ⟨⟨body, g, p⟩, hassembled, hchecks⟩ := (Option.any_eq_true _ _).1 halving_strict
  obtain ⟨hparse, hbuild, hlink⟩ := assembled_eq hassembled
  obtain ⟨hclean, hstrict⟩ := Bool.and_eq_true_iff.1 hchecks
  replace hclean : p.hasErrors = false := by simpa using hclean
  replace hstrict : p.Strict [doubles] g := of_decide_eq_true hstrict
  have hsound := doubling_sound p.arena.typeOf?
  obtain ⟨m, hroot, hkeeps⟩ := @runs_well_typed _ _ _ g p Toolchain.default _ _ _ _ _ _ 0 _ _ _ _ hparse hbuild hlink
    hclean hstrict doubling_conserves doubling_mirrors hsound rfl rfl trivial
  exact ⟨body, g, p, m, hparse, hbuild, hlink, hclean, hstrict, doubling_conserves, doubling_mirrors, hsound, hroot,
    hkeeps⟩

end TypedScript
