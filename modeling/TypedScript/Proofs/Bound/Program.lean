/-
The bound trees of a program. While the modules of a graph are linked, each is checked against those before it;
`Graph.trees` follows the linking and keeps the bound tree that the check finds for each source module. What is known of
a module when it has been checked stays true while further modules are checked (`Checked.extend`), so that in the end it
is known of every module of the program (`linked_good`).
-/
import TypedScript.Proofs.Bound.Agreement
import TypedScript.Proofs.Linking.Link
import TypedScript.Proofs.Typing.Module

namespace TypedScript

/-! ## Tables made of lists -/

namespace Table

variable {κ α β : Type} [DecidableEq κ]

theorem find?_foldl_insert (f : α → β) (entries : List (κ × α)) (t : Table κ α) (u : Table κ β)
    (h : ∀ key, u.find? key = (t.find? key).map f) (key : κ) :
    ((entries.map fun e => (e.1, f e.2)).foldl (fun t e => t.insert e.1 e.2) u).find? key =
      ((entries.foldl (fun t e => t.insert e.1 e.2) t).find? key).map f := by
  induction entries generalizing t u with
  | nil => exact h key
  | cons e entries ih =>
    refine ih (t.insert e.1 e.2) (u.insert e.1 (f e.2)) fun key' => ?_
    rw [find?_insert, find?_insert, h key']
    split <;> rfl

/-- the values of a table are those of another one, changed -/
theorem find?_ofList_map (f : α → β) (entries : List (κ × α)) (key : κ) :
    (ofList (entries.map fun e => (e.1, f e.2))).find? key = ((ofList entries).find? key).map f :=
  find?_foldl_insert f entries empty empty (fun _ => rfl) key

end Table

/-! ## Trees -/

namespace Program

/-- the key of the module that an import's path leads to -/
def keyOf (p : Program) (links : List (String × Nat)) (path : String) : Option String :=
  ((Table.ofList links).find? path).bind fun i => (p.modules[i]?).map fun m => m.module.key

/-- the bound tree that the check of a module finds; a native module has none -/
def bindModule (p : Program) (m : Module) (links : List (String × Nat)) : Option Bound.Function :=
  match m.content with
  | .source body => Check.bindModule (p.keyOf links) p.arena (p.importsOf links) body
  | .native _ => none

/-- a program with one more module, checked -/
def add (p : Program) (m : Module) (links : List (String × Nat)) : Program :=
  let (scopes, arena) := scopesOf p.arena m (p.importsOf links)
  ⟨arena, p.modules ++ [⟨m, scopes, .ofList links⟩]⟩

/-- the bound trees that are found while the modules of nodes are checked one after the other -/
def trees (g : Graph) : List Nat → Table Nat Nat → Program → List (Option Bound.Function)
  | [], _, _ => []
  | i :: order, places, p =>
    match g.node? i with
    | none => []
    | some node =>
      match linksOf g places node.children with
      | .error _ => []
      | .ok links =>
        p.bindModule node.module links :: trees g order (places.insert i p.modules.length) (p.add node.module links)

end Program

/-- the bound trees of the source modules of a graph, in the order of the modules of its program -/
def Graph.trees (g : Graph) : List (Option Bound.Function) :=
  match g.topologicalOrder with
  | .ok order => Program.trees g order .empty .empty
  | .error _ => []

/-! ## Checked modules -/

/-- how a source module was checked: in the arena of those before it, with its imports at hand, and what was built -/
structure Derivation where
  arena : Arena
  imports : Imports
  keyOf : String → Option String
  final : Check.Record

/-- the body of the `k`th module of a program is accepted, and its bound tree has the statements -/
structure Derived (p : Program) (k : Nat) (m : LinkedModule) (body : Block) (bs : List Bound.Stmt) (d : Derivation) :
    Prop where
  wellFormed : d.arena.WellFormed
  accepts : Check.AcceptsStmts d.keyOf (Check.top d.imports d.arena) (Check.start d.arena) body.body bs d.final
  scopes : m.scopes = ⟨d.arena.scopes.size, d.final.functions⟩
  adds : Arena.Extension d.arena d.final.arena
  extension : Arena.Extension d.final.arena p.arena
  keyed : Check.Keyed d.keyOf d.imports
  linked : ∀ path dependency key, d.imports.find? path = some dependency → d.keyOf path = some key →
    ∃ i m', i < k ∧ m.links.find? path = some i ∧ p.modules[i]? = some m' ∧ m'.module.key = key ∧
      m'.scopes.global = dependency ∧ dependency < d.arena.scopes.size

/-- what is known of the `k`th module of a program and its bound tree -/
structure Checked (p : Program) (k : Nat) (m : LinkedModule) (t : Option Bound.Function) : Prop where
  global : p.arena.isGlobal m.scopes.global = true
  native : m.module.isNative = true → t = none
  builtins : ∀ native, m.module.content = .native native → p.arena.diagnostics m.scopes.global = [] →
    p.arena.exports m.scopes.global = native.exports
  source : ∀ body, m.module.content = .source body → (∀ x ∈ body.nodes, x.OperatorKnown) →
    p.arena.diagnostics m.scopes.global = [] → ∃ bs d, Derived p k m body bs d ∧
      t = some ⟨0, Bound.moduleSignature, [], Bound.Stmt.declaredIn bs, bs⟩

theorem getElem?_of_prefix {α : Type} {xs ys : List α} (h : xs <+: ys) {i : Nat} {x : α} (hx : xs[i]? = some x) :
    ys[i]? = some x := by
  obtain ⟨more, rfl⟩ := h
  obtain ⟨hi, _⟩ := List.getElem?_eq_some_iff.1 hx
  rw [List.getElem?_append_left hi, hx]

/-- what is known of a module stays true while further modules are checked -/
theorem Checked.extend {p q : Program} {k : Nat} {m : LinkedModule} {t : Option Bound.Function} (h : Checked p k m t)
    (harena : Arena.Extension p.arena q.arena) (hmodules : p.modules <+: q.modules) : Checked q k m t := by
  have hdiagnostics := harena.diagnostics h.global
  refine ⟨harena.later.isGlobal_of h.global, h.native, fun native hnative hclean => ?_,
    fun body hsource hop hclean => ?_⟩
  · rw [hdiagnostics] at hclean
    rw [harena.exports (Arena.lt_of_isGlobal h.global)]
    exact h.builtins native hnative hclean
  · rw [hdiagnostics] at hclean
    obtain ⟨bs, d, hd, ht⟩ := h.source body hsource hop hclean
    refine ⟨bs, d, ⟨hd.wellFormed, hd.accepts, hd.scopes, hd.adds, hd.extension.trans harena, hd.keyed,
      fun path dependency key hp hk => ?_⟩, ht⟩
    obtain ⟨i, m', hi, hlink, hm', hrest⟩ := hd.linked path dependency key hp hk
    exact ⟨i, m', hi, hlink, getElem?_of_prefix hmodules hm', hrest⟩

/-- what is known while modules are linked -/
structure Program.Good (p : Program) (places : Table Nat Nat) (ts : List (Option Bound.Function)) : Prop where
  wellFormed : p.arena.WellFormed
  places : ∀ child place, places.find? child = some place → place < p.modules.length
  length : ts.length = p.modules.length
  checked : ∀ k m t, p.modules[k]? = some m → ts[k]? = some t → Checked p k m t

theorem Program.Good.exists_tree {p : Program} {places : Table Nat Nat} {ts : List (Option Bound.Function)}
    (h : p.Good places ts) {k : Nat} {m : LinkedModule} (hm : p.modules[k]? = some m) : ∃ t, ts[k]? = some t := by
  obtain ⟨hk, _⟩ := List.getElem?_eq_some_iff.1 hm
  exact ⟨_, List.getElem?_eq_getElem (h.length ▸ hk)⟩

/-! ### One more module -/

namespace Program

theorem linksOf_lt {g : Graph} {places : Table Nat Nat} {n : Nat}
    (h : ∀ child place, places.find? child = some place → place < n) {children : List (String × Nat)}
    {links : List (String × Nat)} (hl : linksOf g places children = .ok links) : ∀ l ∈ links, l.2 < n := by
  intro l hmem
  obtain ⟨child, _, hplace⟩ := mem_linksOf hl hmem
  exact h child l.2 hplace

/-- the imports of a module are the global scopes of the modules that its links lead to -/
theorem importsOf_find? {p : Program} {links : List (String × Nat)} (h : ∀ l ∈ links, l.2 < p.modules.length)
    {path : String} {dependency : ScopeId} (hd : (p.importsOf links).find? path = some dependency) :
    ∃ i m, (Table.ofList links).find? path = some i ∧ p.modules[i]? = some m ∧ m.scopes.global = dependency := by
  have hmap : links.filterMap (fun l => (p.modules[l.2]?).map fun m => (l.1, m.scopes.global)) =
      links.map fun l => (l.1, ((p.modules[l.2]?).map fun m => m.scopes.global).getD 0) := by
    rw [← List.filterMap_eq_map]
    refine List.filterMap_congr fun l hl => ?_
    simp [List.getElem?_eq_getElem (h l hl)]
  have hfind := Table.find?_ofList_map (fun i => ((p.modules[i]?).map fun m => m.scopes.global).getD 0) links path
  unfold importsOf at hd
  rw [hmap, hfind] at hd
  obtain ⟨i, hi, hglobal⟩ := Option.map_eq_some_iff.1 hd
  have hlt := h _ (Table.mem_of_find?_ofList hi)
  refine ⟨i, p.modules[i], hi, List.getElem?_eq_getElem hlt, ?_⟩
  rw [List.getElem?_eq_getElem hlt] at hglobal
  exact hglobal

theorem keyed {p : Program} {links : List (String × Nat)} (h : ∀ l ∈ links, l.2 < p.modules.length) :
    Check.Keyed (p.keyOf links) (p.importsOf links) := by
  intro path dependency hd
  obtain ⟨i, m, hi, hm, _⟩ := importsOf_find? h hd
  refine ⟨m.module.key, ?_⟩
  unfold keyOf
  rw [hi, Option.bind_some, hm, Option.map_some]

variable {p : Program} {places : Table Nat Nat} {ts : List (Option Bound.Function)} {links : List (String × Nat)}

theorem add_eq (p : Program) (m : Module) (links : List (String × Nat)) :
    p.add m links = ⟨(scopesOf p.arena m (p.importsOf links)).2,
      p.modules ++ [⟨m, (scopesOf p.arena m (p.importsOf links)).1, .ofList links⟩]⟩ := rfl

theorem global_scopesOf (arena : Arena) (m : Module) (imports : Imports) :
    (scopesOf arena m imports).1.global = arena.scopes.size := by
  unfold scopesOf
  cases m.content <;> rfl

/-- checking a module only adds scopes -/
theorem extension_add (h : p.arena.WellFormed) (hlinks : ∀ l ∈ links, l.2 < p.modules.length) (m : Module) :
    Arena.Extension p.arena (p.add m links).arena ∧
      (p.add m links).arena.isGlobal (scopesOf p.arena m (p.importsOf links)).1.global = true := by
  rw [add_eq]
  unfold scopesOf
  cases m.content with
  | source body => exact Check.module_extension h (keyed hlinks) body
  | native native => exact Arena.extension_newNative h native.exports

theorem linked_add (h : p.Good places ts) (hlinks : ∀ l ∈ links, l.2 < p.modules.length) (m : Module) {path : String}
    {dependency : ScopeId} {key : String} (hd : (p.importsOf links).find? path = some dependency)
    (hkey : p.keyOf links path = some key) :
    ∃ i m', i < p.modules.length ∧ (Table.ofList links).find? path = some i ∧ (p.add m links).modules[i]? = some m' ∧
      m'.module.key = key ∧ m'.scopes.global = dependency ∧ dependency < p.arena.scopes.size := by
  obtain ⟨i, m', hi, hm', rfl⟩ := importsOf_find? hlinks hd
  obtain ⟨hlt, _⟩ := List.getElem?_eq_some_iff.1 hm'
  have hkey' : m'.module.key = key := by
    unfold keyOf at hkey
    rw [hi, Option.bind_some, hm', Option.map_some] at hkey
    exact Option.some.inj hkey
  have hlt' : i < ts.length := by
    rw [h.length]
    exact hlt
  have hglobal := (h.checked i m' _ hm' (List.getElem?_eq_getElem hlt')).global
  exact ⟨i, m', hlt, hi, getElem?_of_prefix (List.prefix_append _ _) hm', hkey', rfl, Arena.lt_of_isGlobal hglobal⟩

theorem checked_add (h : p.Good places ts) (hlinks : ∀ l ∈ links, l.2 < p.modules.length) (m : Module) :
    Checked (p.add m links) p.modules.length ⟨m, (scopesOf p.arena m (p.importsOf links)).1, .ofList links⟩
      (p.bindModule m links) := by
  obtain ⟨hextension, hglobal⟩ := extension_add h.wellFormed hlinks m
  refine ⟨hglobal, fun hnative => ?_, fun native hnative hclean => ?_, fun body hsource hop hclean => ?_⟩
  · unfold bindModule
    unfold Module.isNative at hnative
    cases hc : m.content with
    | source body => rw [hc] at hnative; cases hnative
    | native native => rfl
  · dsimp only at hnative hclean
    have hscopes : scopesOf p.arena m (p.importsOf links) =
        (⟨p.arena.scopes.size, .empty⟩, (p.arena.newNative native.exports).2) := by
      unfold scopesOf
      rw [hnative]
      rfl
    rw [add_eq, hscopes] at hclean ⊢
    exact Arena.newNative_clean h.wellFormed hclean
  · dsimp only at hsource hclean
    have hscopes : scopesOf p.arena m (p.importsOf links) =
        (⟨p.arena.scopes.size, (Check.finish (p.importsOf links) p.arena body).functions⟩,
          (Check.finish (p.importsOf links) p.arena body).arena) := by
      unfold scopesOf
      rw [hsource]
      rfl
    rw [add_eq, hscopes] at hclean
    obtain ⟨hadds, _⟩ := Check.module_extension h.wellFormed (keyed hlinks) body
    obtain ⟨bs, hbs⟩ := Check.module_accepts h.wellFormed (keyed hlinks) hop hclean
    refine ⟨bs, ⟨p.arena, p.importsOf links, p.keyOf links, Check.finish (p.importsOf links) p.arena body⟩,
      ⟨h.wellFormed, hbs, by rw [hscopes], hadds, ?_, keyed hlinks, fun path dependency key hd hkey => ?_⟩, ?_⟩
    · rw [add_eq, hscopes]
      exact .refl hadds.wellFormed
    · exact linked_add h hlinks m hd hkey
    · unfold bindModule
      rw [hsource]
      have hbind := hbs.bind
      obtain ⟨body, span⟩ := body
      change Check.bindModule (p.keyOf links) p.arena (p.importsOf links) ⟨body, span⟩ = _
      unfold Check.bindModule Check.bindBlock
      exact Option.bind_eq_some_iff.2 ⟨bs, hbind, rfl⟩

theorem Good.add (h : p.Good places ts) (hlinks : ∀ l ∈ links, l.2 < p.modules.length) (i : Nat) (m : Module) :
    (p.add m links).Good (places.insert i p.modules.length) (ts ++ [p.bindModule m links]) := by
  obtain ⟨hextension, _⟩ := extension_add h.wellFormed hlinks m
  have hlength : (p.add m links).modules.length = p.modules.length + 1 := by
    rw [add_eq, List.length_append]
    rfl
  refine ⟨hextension.wellFormed, fun child place hplace => ?_, ?_, fun k m' t hm' ht => ?_⟩
  · rw [hlength]
    rw [Table.find?_insert] at hplace
    split at hplace
    · cases hplace; exact Nat.lt_succ_self _
    · exact Nat.lt_succ_of_lt (h.places child place hplace)
  · rw [List.length_append, h.length, hlength]
    rfl
  · by_cases hk : k < p.modules.length
    · rw [add_eq, List.getElem?_append_left hk] at hm'
      rw [List.getElem?_append_left (by rw [h.length]; exact hk)] at ht
      exact (h.checked k m' t hm' ht).extend hextension (List.prefix_append _ _)
    · have hk' : k = p.modules.length := by
        obtain ⟨hlt, _⟩ := List.getElem?_eq_some_iff.1 hm'
        omega
      subst hk'
      rw [add_eq, List.getElem?_append_right (Nat.le_refl _), Nat.sub_self] at hm'
      rw [List.getElem?_append_right (Nat.le_of_eq h.length), h.length, Nat.sub_self] at ht
      cases hm'
      cases ht
      exact checked_add h hlinks m

/-! ### All modules -/

theorem good_empty : Program.empty.Good .empty [] :=
  ⟨Arena.wellFormed_empty, fun _ _ h => (nomatch h), rfl, fun _ _ _ h _ => (nomatch h)⟩

theorem extend_good {g : Graph} {order : List Nat} {q : Program} (h : p.Good places ts)
    (hq : extend g order places p = .ok q) : ∃ places', q.Good places' (ts ++ trees g order places p) := by
  induction order generalizing p places ts with
  | nil =>
    cases hq
    refine ⟨places, ?_⟩
    rw [trees, List.append_nil]
    exact h
  | cons i order ih =>
    obtain ⟨node, links, hnode, hlinks, hq⟩ := extend_cons_ok hq
    unfold trees
    simp only [hnode, hlinks]
    have hadd := h.add (linksOf_lt h.places hlinks) i node.module
    obtain ⟨places', hgood⟩ := ih hadd hq
    rw [List.append_assoc] at hgood
    exact ⟨places', hgood⟩

/-- what one more module keeps is true of a program when all its modules are checked -/
theorem extend_keeps {P : Program → Prop}
    (hstep : ∀ (p : Program) places ts links m, p.Good places ts → (∀ l ∈ links, l.2 < p.modules.length) → P p →
      P (p.add m links)) {g : Graph} {order : List Nat} {q : Program} (h : p.Good places ts) (hp : P p)
    (hq : extend g order places p = .ok q) : P q := by
  induction order generalizing p places ts with
  | nil =>
    cases hq
    exact hp
  | cons i order ih =>
    obtain ⟨node, links, _, hlinks, hq⟩ := extend_cons_ok hq
    have hlt := linksOf_lt h.places hlinks
    exact ih (h.add hlt i node.module) (hstep p places ts links node.module h hlt hp) hq

end Program

/-- what one more module keeps is true of a linked program -/
theorem linked_keeps {P : Program → Prop} (hempty : P .empty)
    (hstep : ∀ (p : Program) places ts links m, p.Good places ts → (∀ l ∈ links, l.2 < p.modules.length) → P p →
      P (p.add m links)) {g : Graph} {p : Program} (h : link g = .ok p) : P p := by
  unfold link at h
  cases horder : g.topologicalOrder with
  | error e => rw [horder] at h; cases h
  | ok order =>
    rw [horder] at h
    exact Program.extend_keeps hstep Program.good_empty hempty h

/-- what is known of a linked program -/
theorem linked_good {g : Graph} {p : Program} (h : link g = .ok p) : ∃ places, p.Good places g.trees := by
  unfold link at h
  unfold Graph.trees
  cases horder : g.topologicalOrder with
  | error e => rw [horder] at h; cases h
  | ok order =>
    rw [horder] at h
    exact Program.extend_good Program.good_empty h

end TypedScript
