/-
Function literals, their scopes and their templates. Reading a text numbers its literals in the order of their `fn`s.
The check and the laying down of code come to them in the order of evaluation instead, each with a count of its own: one
opens scopes, the other gives out templates. The two counts go together, so that the `k`th literal in that order has the
`k`th scope behind the module's own and the `k`th template behind the module's own.

- `checkModule_hasScopes`: the scopes of a module's literals.
- `Derived.templates`: the templates of a module and its scopes.
- `literals_correspond`: the literals of a text, in the text, in the scopes and in the templates.
-/
import TypedScript.Proofs.Bound.Opened
import TypedScript.Proofs.Bound.Template
import TypedScript.Proofs.Bound.Templates
import TypedScript.Proofs.NameResolution
import TypedScript.Proofs.Tree.Words

namespace TypedScript

/-! ## Scopes -/

/-- exports of earlier modules stay what they are -/
theorem Imports.exports_extension {imports : Imports} {a b : Arena} (hbefore : imports.Before a.scopes.size)
    (h : Arena.Extension a b) : imports.exports b = imports.exports a := by
  funext path
  unfold Imports.exports
  cases hpath : imports.find? path with
  | none => rfl
  | some dependency =>
    rw [Option.map_some, Option.map_some, h.exports (hbefore path dependency hpath)]

/-- the scopes that the check of a clean module makes -/
theorem checkModule_hasScopes {arena : Arena} {imports : Imports} {body : Block} (hwf : arena.WellFormed)
    (hbefore : imports.Before arena.scopes.size) (hop : ∀ x ∈ body.nodes, x.OperatorKnown)
    (hnodup : (literalIds body.nodes).Nodup)
    (hclean : (checkModule arena body imports).2.diagnostics (checkModule arena body imports).1.global = []) :
    (checkModule arena body imports).2.scopes.size = arena.scopes.size + 1 + (body.literals none).length ∧
      body.HasScopes (imports.exports arena) (checkModule arena body imports).2 (checkModule arena body imports).1 := by
  rw [Check.checkModule_eq] at hclean ⊢
  have hkeyed : Check.Keyed some imports := fun path _ _ => ⟨path, rfl⟩
  obtain ⟨hextension, _⟩ := Check.module_extension hwf hkeyed body
  obtain ⟨bs, hbs⟩ := Check.module_accepts hwf hkeyed hop hclean
  -- the module as a program of its own, of which only the scopes matter
  let job : Compile.Job := ⟨⟨(Check.finish imports arena body).arena, []⟩,
    ⟨.ofSource "" body, ⟨arena.scopes.size, (Check.finish imports arena body).functions⟩, .empty⟩⟩
  have hall : Arena.Extension (Check.finish imports arena body).arena job.program.arena := .refl hextension.wellFormed
  have hscopes := hbs.hasScopes hwf hbefore hall rfl hnodup
  rw [Imports.exports_extension hbefore hextension] at hscopes
  exact hscopes

/-! ## Templates -/

namespace Derived

variable {p : Program} {i : Nat} {m : LinkedModule} {body : Block} {bs : List Bound.Stmt} {d : Derivation}

/-- the scopes of a module in the program that it is linked into -/
theorem hasScopes (h : Derived p i m body bs d) (hnodup : (literalIds body.nodes).Nodup) :
    body.HasScopes (d.imports.exports p.arena) p.arena m.scopes := by
  have hbefore : d.imports.Before d.arena.scopes.size := by
    intro path dependency hpath
    obtain ⟨key, hkey⟩ := h.keyed path dependency hpath
    obtain ⟨_, _, _, _, _, _, _, hlt⟩ := h.linked path dependency key hpath hkey
    exact hlt
  have hextension : Arena.Extension d.final.arena (⟨p, m⟩ : Compile.Job).program.arena := h.extension
  exact (h.accepts.hasScopes h.wellFormed hbefore hextension h.scopes hnodup).2

/-- the templates of a module, the `k`th for the `k`th scope of the module -/
theorem templates (h : Derived p i m body bs d) (hsource : m.module.content = .source body)
    (hnodup : (literalIds body.nodes).Nodup) : ∃ root, p.compileModule m = .ok (some root) ∧
      root.all.map Template.id = List.range ((body.literals none).length + 1) ∧
      (∀ k t, root.all[k]? = some t → ∃ s, p.arena.get? (m.scopes.global + k) = some s ∧
        t.Reserves (s.parameters.map Variable.cell) (s.locals.map Variable.cell)) ∧
      ∀ k (l : Literal), (body.literals none)[k]? = some l → ∃ t before after, root.all[k + 1]? = some t ∧
        (Compile.template ⟨p, m⟩ (m.scopes.global + k + 1) false l.body).run before = .ok (t, after) := by
  have hscopes := h.hasScopes hnodup
  have hcompile := h.compileModule hsource hnodup
  obtain ⟨body', after, hsource', hrun⟩ := Program.compileModule_some hcompile
  obtain rfl : body = body' := ModuleContent.source.inj (hsource.symm.trans hsource')
  obtain ⟨hids, heach, hreserves⟩ := Compile.template_numbers none true body _ _ hrun
  generalize Bound.Function.template true _ = root at hcompile hids heach hreserves
  have hcells {x : ScopeId} {s : Scope} {t : Template} (hs : p.arena.get? x = some s)
      (ht : t.Reserves (Compile.parameterCells ⟨p, m⟩ x) (Compile.localCells ⟨p, m⟩ x)) :
      t.Reserves (s.parameters.map Variable.cell) (s.locals.map Variable.cell) := by
    unfold Compile.parameterCells Compile.localCells at ht
    rw [hs] at ht
    exact ht
  -- each literal has its template where its scope is
  have hliteral {k : Nat} {l : Literal} {t : Template} (hl : (body.literals none)[k]? = some l)
      (ht : (Template.allPushed root.code)[k]? = some t) : ∃ s before after,
        p.arena.get? (m.scopes.global + k + 1) = some s ∧
        t.Reserves (s.parameters.map Variable.cell) (s.locals.map Variable.cell) ∧
        (Compile.template ⟨p, m⟩ (m.scopes.global + k + 1) false l.body).run before = .ok (t, after) := by
    obtain ⟨hk, rfl⟩ := List.getElem?_eq_some_iff.1 hl
    obtain ⟨hk', rfl⟩ := List.getElem?_eq_some_iff.1 ht
    obtain ⟨x, before, after, hfound, hrun, hreserves⟩ := (List.forall₂_iff_get.1 heach).2 k hk hk'
    have hscope := hscopes.literals k _ hl
    obtain rfl : m.scopes.global + k + 1 = x := Option.some.inj (hscope.found.symm.trans hfound)
    obtain ⟨s, _, hs, _⟩ := hscope.scope
    exact ⟨s, before, after, hs, hcells hs hreserves, hrun⟩
  have hlength := heach.length_eq
  refine ⟨root, hcompile, by rw [hids, List.range_eq_range'], fun k t hk => ?_, fun k l hl => ?_⟩
  · rw [Template.all_eq] at hk
    cases k with
    | zero =>
      cases hk
      obtain ⟨s, hs, _⟩ := hscopes.global
      exact ⟨s, hs, hcells hs hreserves⟩
    | succ k =>
      obtain ⟨hlt, _⟩ := List.getElem?_eq_some_iff.1 hk
      rw [List.length_cons, ← hlength] at hlt
      have hlt := Nat.lt_of_succ_lt_succ hlt
      obtain ⟨s, _, _, hs, hreserves, _⟩ := hliteral (List.getElem?_eq_getElem hlt) hk
      exact ⟨s, hs, hreserves⟩
  · obtain ⟨hlt, _⟩ := List.getElem?_eq_some_iff.1 hl
    rw [hlength] at hlt
    have ht := List.getElem?_eq_getElem hlt
    obtain ⟨_, before, after, _, _, hrun⟩ := hliteral hl ht
    exact ⟨_, before, after, by rw [Template.all_eq]; exact ht, hrun⟩

end Derived

/-- The literals of a text have the numbers from zero on in the order of the text's `fn`s. Where the check finds nothing
wrong with the module, it makes one scope for each number, behind the global one and in the order of evaluation: in the
scope of the innermost literal around, with the parameters in their order and then what the body declares, the bodies of
conditions with it and the literals in it left out. Linked into a program, the module compiles to a template that
together with all those nested in it has the numbers from zero on, once each. The `k`th of them is the template of the
`k`th scope and its literal, and its code makes a cell for each variable of that scope that is no parameter, in their
order, and no cell behind these. -/
theorem literals_correspond {source : String} {body : Block} (hparse : parse source = .ok body) :
    (∃ tokens, tokenize source = .ok tokens ∧ body.nodes.filterMap Node.numbered? =
      (tokens.filter fun t => t.kind = .fnWord).mapIdx fun k t => (k, t.span.start)) ∧
    ((body.literals none).map Literal.number).Perm (List.range (body.literals none).length) ∧
    (∀ arena imports, arena.WellFormed → Imports.Before imports arena.scopes.size →
      let checked := checkModule arena body imports
      checked.2.diagnostics checked.1.global = [] →
        checked.2.scopes.size = arena.scopes.size + 1 + (body.literals none).length ∧
        body.HasScopes (imports.exports arena) checked.2 checked.1) ∧
    ∀ g p m, link g = .ok p → m ∈ p.modules → m.module.content = .source body →
      p.arena.diagnostics m.scopes.global = [] →
      (∃ imports : Imports, (∀ path dependency, imports.find? path = some dependency → ∃ i m',
          m.links.find? path = some i ∧ p.modules[i]? = some m' ∧ m'.scopes.global = dependency) ∧
        body.HasScopes (imports.exports p.arena) p.arena m.scopes) ∧
      ∃ root, p.compileModule m = .ok (some root) ∧
        root.all.map Template.id = List.range ((body.literals none).length + 1) ∧
        (∀ k t, root.all[k]? = some t → ∃ s, p.arena.get? (m.scopes.global + k) = some s ∧
          t.Reserves (s.parameters.map Variable.cell) (s.locals.map Variable.cell)) ∧
        ∀ k (l : Literal), (body.literals none)[k]? = some l → ∃ t before after, root.all[k + 1]? = some t ∧
          (Compile.template ⟨p, m⟩ (m.scopes.global + k + 1) false l.body).run before = .ok (t, after) := by
  have hop := parse_operators hparse
  have hnodup := nodup_literalIds_of_parse hparse
  refine ⟨literals_in_order hparse, ?_, fun arena imports hwf hbefore => checkModule_hasScopes hwf hbefore hop hnodup,
    fun g p m hlink hm hsource hclean => ?_⟩
  · obtain ⟨n, hids⟩ := parse_numbered hparse
    have hperm := body.literals_perm none
    rw [hids] at hperm
    have hlength := hperm.length_eq
    rw [List.length_map, List.length_range] at hlength
    rw [hlength]
    exact hperm
  · obtain ⟨_, hgood⟩ := linked_good hlink
    obtain ⟨i, hi, rfl⟩ := List.getElem_of_mem hm
    obtain ⟨tree, htree⟩ := hgood.exists_tree (List.getElem?_eq_getElem hi)
    have hchecked := hgood.checked i _ tree (List.getElem?_eq_getElem hi) htree
    obtain ⟨bs, d, hd, _⟩ := hchecked.source body hsource hop hclean
    refine ⟨⟨d.imports, fun path dependency hpath => ?_, hd.hasScopes hnodup⟩, hd.templates hsource hnodup⟩
    obtain ⟨key, hkey⟩ := hd.keyed path dependency hpath
    obtain ⟨j, m', _, hlink, hm', _, hglobal, _⟩ := hd.linked path dependency key hpath hkey
    exact ⟨j, m', hlink, hm', hglobal⟩

/-- the text of a literal that is called with another one, which is evaluated first -/
def calling : String := "let x := fn(f: () => Int): Int { return f(); }(fn(): Int { let y := 1; return y; });"

theorem calling_clean : (match parse calling with
    | .ok body => (body.literals none).map Literal.number == [1, 0] && (Program.alone body).arena.diagnostics 0 == []
    | .error _ => false) = true := by
  set_option maxRecDepth 100000 in decide +kernel

/-- the second literal of the text has the first scope and the first template -/
theorem literals_correspond_calling : ∃ g p m body, link g = .ok p ∧ m ∈ p.modules ∧ m.module.content = .source body ∧
    parse calling = .ok body ∧ (body.literals none).map Literal.number = [1, 0] ∧
    m.scopes.functions.find? 1 = some 1 ∧ m.scopes.functions.find? 0 = some 2 ∧
    ∃ root, p.compileModule m = .ok (some root) ∧ root.all.map Template.id = [0, 1, 2] := by
  have hclean := calling_clean
  cases hparse : parse calling with
  | error e => rw [hparse] at hclean; cases hclean
  | ok body =>
    rw [hparse] at hclean
    obtain ⟨horder, hclean⟩ := Bool.and_eq_true_iff.1 hclean
    have horder := eq_of_beq horder
    have hclean := eq_of_beq hclean
    let g : Graph := ((⟨#[], .empty, 0⟩ : Graph).add (.ofSource "main" body)).2
    have hlink : link g = .ok (Program.alone body) := rfl
    obtain ⟨_, _, hchecks, hlinked⟩ := literals_correspond hparse
    obtain ⟨_, hscopes⟩ := hchecks .empty .empty Arena.wellFormed_empty (fun _ _ h => nomatch h) hclean
    obtain ⟨_, root, hcompile, hids, _⟩ := hlinked g _ _ hlink (List.mem_singleton_self _) rfl hclean
    have hlength : (body.literals none).length = 2 := by
      rw [← List.length_map (f := Literal.number), horder]
      rfl
    rw [hlength] at hids
    obtain ⟨first, second, hliterals⟩ := List.length_eq_two.1 hlength
    rw [hliterals] at horder
    injection horder with hfirst horder
    injection horder with hsecond _
    have hnumbers : (body.literals none).map Literal.number = [1, 0] := by
      rw [hliterals]
      simp [hfirst, hsecond]
    refine ⟨g, Program.alone body, _, body, hlink, List.mem_singleton_self _, rfl, rfl, hnumbers, ?_, ?_,
      root, hcompile, hids⟩
    · have hscope := (hscopes.literals 0 first (by rw [hliterals]; rfl)).found
      rw [hfirst] at hscope
      exact hscope
    · have hscope := (hscopes.literals 1 second (by rw [hliterals]; rfl)).found
      rw [hsecond] at hscope
      exact hscope

end TypedScript
