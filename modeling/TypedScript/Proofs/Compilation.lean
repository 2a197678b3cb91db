/-
Checked programs compile. A graph that is built from texts and has no rings is linked, and where nothing is found wrong
with the modules of its program, code is laid down for all of them.

- `compile_eq`: the templates of a clean program are those of its bound trees.
- `checked_compiles`: from the text of the root module to the templates without an internal fault.
-/
import TypedScript.Proofs.Bound.Template
import TypedScript.Proofs.Linking.Link
import TypedScript.Proofs.Tree.Reading

namespace TypedScript

variable {natives : List NativeModule} {g : Graph} {p : Program} {k : Nat} {m : LinkedModule}
  {t : Option Bound.Function}

theorem diagnostics_of_hasErrors (h : p.hasErrors = false) (hm : m ∈ p.modules) :
    p.arena.diagnostics m.scopes.global = [] := by
  have hm' := List.any_eq_false.1 h m hm
  unfold Arena.hasErrors at hm'
  simpa using hm'

/-- what is known of the modules of a clean program and their bound trees, module by module -/
theorem linked_forall₂ {P : LinkedModule → Option Bound.Function → Prop} (h : link g = .ok p)
    (hP : ∀ k m t, p.modules[k]? = some m → Checked p k m t → P m t) : List.Forall₂ P p.modules g.trees := by
  obtain ⟨_, hgood⟩ := linked_good h
  refine List.forall₂_iff_get.2 ⟨hgood.length.symm, fun k hk hk' => ?_⟩
  have hm := List.getElem?_eq_getElem hk
  exact hP k _ _ hm (hgood.checked k _ _ hm (List.getElem?_eq_getElem hk'))

/-- a module of a clean program is a native one, which has no bound tree, or has the tree that its check found -/
theorem clean_module (hmade : Graph.Made natives m.module) (hclean : p.arena.diagnostics m.scopes.global = [])
    (hchecked : Checked p k m t) :
    (∃ native, m.module.content = .native native ∧ t = none) ∨
      ∃ body bs d, m.module.content = .source body ∧ (literalIds body.nodes).Nodup ∧ Derived p k m body bs d ∧
        t = some ⟨0, Bound.moduleSignature, [], Bound.Stmt.declaredIn bs, bs⟩ := by
  cases hcontent : m.module.content with
  | native native =>
    refine Or.inl ⟨native, rfl, hchecked.native ?_⟩
    unfold Module.isNative
    rw [hcontent]
  | source body =>
    obtain ⟨text, hparse⟩ := hmade.source body hcontent
    obtain ⟨bs, d, hd, ht⟩ := hchecked.source body hcontent (parse_operators hparse) hclean
    exact Or.inr ⟨body, bs, d, rfl, nodup_literalIds_of_parse hparse, hd, ht⟩

theorem mapM_of_forall₂ {α β γ ε : Type} {f : α → Except ε γ} {t : β → γ} {xs : List α} {ys : List β}
    (h : List.Forall₂ (fun x y => f x = .ok (t y)) xs ys) : xs.mapM f = .ok (ys.map t) := by
  induction h with
  | nil => rfl
  | cons hx _ ih =>
    rw [List.mapM_cons, hx, ih]
    rfl

/-- the templates of a clean program are those of its bound trees -/
theorem compile_eq (hmade : ∀ m ∈ p.modules, Graph.Made natives m.module) (hlink : link g = .ok p)
    (hclean : p.hasErrors = false) :
    p.compile = .ok (g.trees.map (Option.map (Bound.Function.template true))) := by
  refine mapM_of_forall₂ (linked_forall₂ hlink fun k m t hm hchecked => ?_)
  have hmem := List.mem_of_getElem? hm
  obtain ⟨native, hcontent, rfl⟩ | ⟨body, bs, d, hcontent, hnodup, hd, rfl⟩ :=
    clean_module (hmade m hmem) (diagnostics_of_hasErrors hclean hmem) hchecked
  · unfold Program.compileModule
    rw [hcontent]
    rfl
  · exact hd.compileModule hcontent hnodup

/-- the program of a graph that is built from texts and has no rings is put together; if nothing is found wrong with any
module of it, every source module has a template, and no native module has one -/
theorem checked_compiles {rootPath text : String} {root : Block} {loader : Loader} (hparse : parse text = .ok root)
    (hbuild : Graph.build rootPath root loader natives = .ok g) (hcycles : g.detectCycles = .ok ()) :
    ∃ p, link g = .ok p ∧ (p.hasErrors = false → ∃ templates, p.compile = .ok templates ∧
      List.Forall₂ (fun m template => template.isSome = !m.module.isNative) p.modules templates) := by
  have hbuilt := Graph.built_of_build hparse hbuild
  obtain ⟨p, hlink⟩ := link_ok hbuilt hcycles
  refine ⟨p, hlink, fun hclean => ⟨_, compile_eq (fun m hm => linked_made hbuilt hlink hm) hlink hclean, ?_⟩⟩
  rw [List.forall₂_map_right_iff]
  refine linked_forall₂ hlink fun k m t hm hchecked => ?_
  have hmem := List.mem_of_getElem? hm
  unfold Module.isNative
  obtain ⟨native, hcontent, rfl⟩ | ⟨body, bs, d, hcontent, _, _, rfl⟩ :=
    clean_module (linked_made hbuilt hlink hmem) (diagnostics_of_hasErrors hclean hmem) hchecked
  · rw [hcontent]
    rfl
  · rw [hcontent]
    rfl

/-- the text of a root module that imports a native module and another text -/
def importing : String :=
  "use \"std\"; use \"lib\" (twice);
  let f := fn(n: Int): Int { if n < 1 { return 0; } return self(n - 1) + twice(n); };
  print(f(3));"

def library : Loader := .memory (Loader.insert .empty "lib" "pub let twice := fn(n: Int): Int { return n * 2; };")

theorem importing_clean : (match parse importing with
    | .ok body =>
      match Graph.build "main" body library [StandardFunction.module] with
      | .ok g => g.detectCycles.isOk && (match link g with | .ok p => !p.hasErrors | .error _ => false)
      | .error _ => false
    | .error _ => false) = true := by
  set_option maxRecDepth 100000 in decide +kernel

/-- the program of the two texts -/
theorem importing_checked : ∃ body g p, parse importing = .ok body ∧
    Graph.build "main" body library [StandardFunction.module] = .ok g ∧ g.detectCycles = .ok () ∧ link g = .ok p ∧
      p.hasErrors = false := by
  have hclean := importing_clean
  split at hclean
  · next body hparse =>
    split at hclean
    · next g hbuild =>
      obtain ⟨hcycles, hlink⟩ := Bool.and_eq_true_iff.1 hclean
      split at hlink
      · next p hp =>
        refine ⟨body, g, p, hparse, hbuild, ?_, hp, by simpa using hlink⟩
        cases h : g.detectCycles with
        | ok => rfl
        | error e => rw [h] at hcycles; cases hcycles
      · cases hlink
    · cases hclean
  · cases hclean

theorem checked_compiles_importing : ∃ body g p templates, parse importing = .ok body ∧
    Graph.build "main" body library [StandardFunction.module] = .ok g ∧ g.detectCycles = .ok () ∧ link g = .ok p ∧
      p.hasErrors = false ∧ p.compile = .ok templates ∧
        List.Forall₂ (fun m template => template.isSome = !m.module.isNative) p.modules templates := by
  obtain ⟨body, g, p, hparse, hbuild, hcycles, hlink, hclean⟩ := importing_checked
  obtain ⟨q, hq, hcompiles⟩ := checked_compiles hparse hbuild hcycles
  obtain rfl : p = q := Except.ok.inj (hlink.symm.trans hq)
  obtain ⟨templates, hcompile, hall⟩ := hcompiles hclean
  exact ⟨body, g, p, templates, hparse, hbuild, hcycles, hlink, hclean, hcompile, hall⟩

end TypedScript
