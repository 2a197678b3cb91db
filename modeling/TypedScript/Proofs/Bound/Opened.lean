/-
The scopes of function literals. The check opens a scope for each literal that it comes to, so that the literals of a
clean module get the scopes behind the module's own one by one, in the order of evaluation. Each stands in the scope of
the innermost literal around it, and its variables are the literal's parameters and then the variables that the body
declares.

- `Literal.HasScope`, `Block.HasScopes`: the scope of a literal, and those of a module and all literals in it.
- `Check.AcceptsStmts.names`: which variables accepted statements declare.
- `Check.AcceptsStmts.opens`: which scopes the literals in accepted statements have, when all is checked.
- `Check.AcceptsStmts.hasScopes`: a module has its scopes.
-/
import TypedScript.Proofs.Bound.Standing
import TypedScript.Proofs.Tree.Literals
import TypedScript.Proofs.Typing.Exported

namespace TypedScript

open Compile (Job)

/-- what is imported was checked before a scope was opened -/
def Imports.Before (imports : Imports) (scope : ScopeId) : Prop :=
  ∀ path dependency, imports.find? path = some dependency → dependency < scope

/-- the scope of a literal's body, or that of the module -/
def ModuleScopes.around? (scopes : ModuleScopes) : Option Nat → Option ScopeId
  | none => some scopes.global
  | some id => scopes.functions.find? id

def Variable.typed (v : Variable) : String × Ty := (v.cell.name, v.ty)

def Variable.name (v : Variable) : String := v.cell.name

/-- a parameter's name and the type that its annotation stands for -/
def Parameter.typed (param : Parameter) : String × Ty := (param.name, .ofNote param.note)

def Literal.signature (l : Literal) : Signature := ⟨l.params.map fun param => .ofNote param.note, .ofNote l.result⟩

/-- a scope is that of a literal: it stands in the scope of the innermost literal around the literal, and its variables
are the parameters and then those that the body declares outside of the literals in it -/
structure Literal.HasScope (l : Literal) (a : Arena) (scopes : ModuleScopes) (x : ScopeId) : Prop where
  found : scopes.functions.find? l.number = some x
  scope : ∃ s parent, a.get? x = some s ∧ s.kind = .local parent l.signature ∧ scopes.around? l.around = some parent ∧
    s.parameters.map Variable.typed = l.params.map Parameter.typed ∧
    s.locals.map Variable.name = Stmt.declaresIn (fun _ => []) false l.body.body

/-- the scopes of a module's body: the literals have the scopes behind the global one, in the order of evaluation, and
no other numbers have scopes; `exports` gives the exports of the module that a path leads to -/
structure Block.HasScopes (body : Block) (exports : String → List (String × Ty)) (a : Arena) (scopes : ModuleScopes) :
    Prop where
  global : ∃ s, a.get? scopes.global = some s ∧ s.isGlobal = true ∧ s.parameters = [] ∧
    s.locals.map Variable.name = Stmt.declaresIn exports true body.body
  literals : ∀ k (l : Literal), (body.literals none)[k]? = some l → l.HasScope a scopes (scopes.global + k + 1)
  only : ∀ id x, scopes.functions.find? id = some x → ∃ l ∈ body.literals none, l.number = id

mutual

/-- outside of a module's body nothing is imported -/
theorem Stmt.declares_inside (exports exports' : String → List (String × Ty)) (s : Stmt) :
    s.declares exports false = s.declares exports' false := by
  cases s with
  | cond condition body span =>
    obtain ⟨body, bodySpan⟩ := body
    exact Stmt.declaresIn_inside exports exports' body
  | _ => rfl
termination_by structural s

theorem Stmt.declaresIn_inside (exports exports' : String → List (String × Ty)) (ss : List Stmt) :
    Stmt.declaresIn exports false ss = Stmt.declaresIn exports' false ss := by
  cases ss with
  | nil => rfl
  | cons s ss =>
    rw [Stmt.declaresIn, Stmt.declaresIn, s.declares_inside exports exports',
      Stmt.declaresIn_inside exports exports' ss]
termination_by structural ss

end

namespace Check

variable {keyOf : String → Option String} {job : Job} {p : Place} {r r' r'' : Record} {cells cells' : List Cell}
  {ids ids' : List Nat} {Q R : Prop}

/-! ## Names -/

theorem Settles.imp (h : Settles job p cells ids r r' Q) (himp : Q → R) : Settles job p cells ids r r' R := by
  intro hr
  obtain ⟨he, hQ⟩ := h hr
  exact ⟨he, fun hfinal hnodup => himp (hQ hfinal hnodup)⟩

theorem AcceptsImports.names {span : Span} {names : List (String × Ty)} {cells : List (String × Cell)}
    (h : AcceptsImports p span r names cells r') : (cells.map Prod.snd).map Cell.name = names.map Prod.fst := by
  induction h with
  | nil => rfl
  | cons declared _ ih =>
    obtain ⟨_, rfl, _⟩ := newVariable_eq declared
    exact congrArg _ ih

theorem AcceptsDeclaration.name {d : Declaration} {ty : Ty} {cell : Cell} {b : Bound.Expr}
    (h : AcceptsDeclaration keyOf p r d ty cell b r') : cell.name = d.name := by
  cases h with
  | mk _ accepted used fits declared =>
    obtain ⟨_, rfl, _⟩ := newVariable_eq declared
    rfl

mutual

/-- an accepted statement declares variables of the names that stand in it -/
theorem AcceptsStmt.names {p : Place} {s : Stmt} {b : Bound.Stmt} {r r' : Record} (h : AcceptsStmt keyOf p r s b r')
    (hearlier : p.imports.Before p.global) :
    Settles job p b.declared (literalIds s.nodes) r r'
      (b.declared.map Cell.name = s.declares (p.imports.exports job.program.arena) p.atTop) := by
  have hstands : Settles job p b.declared (literalIds s.nodes) r r' True := h.stands.imp fun _ => trivial
  cases s with
  | cond condition body span =>
    obtain ⟨body, bodySpan⟩ := body
    cases h with
    | cond _ _ test used fits inside =>
      rw [Stmt.nodes, Block.nodes, literalIds_cons, literalIds_append]
      have hinside := inside.names (p := { p with conditional := true }) hearlier
      have hboth := test.stands.and (Settles.conditional hinside)
      refine hboth.imp fun hnames => hnames.2.trans ?_
      rw [Stmt.declares, Place.atTop]
      simp
  | declare d =>
    cases h with
    | declare declared => exact hstands.imp fun _ => congrArg (fun name => [name]) declared.name
  | giveBack value span =>
    cases h with
    | giveNothing _ fits => exact hstands.imp fun _ => rfl
    | giveBack _ given used fits => exact hstands.imp fun _ => rfl
  | eval e span =>
    cases h with
    | eval _ evaluated => exact hstands.imp fun _ => rfl
  | pub d span =>
    cases h with
    | pub _ top declared exported => exact hstands.imp fun _ => congrArg (fun name => [name]) declared.name
  | use path names span =>
    cases h with
    | @use _ _ _ _ key _ dependency _ _ top linked named found imports =>
      intro hr
      obtain ⟨he, _⟩ := hstands hr
      refine ⟨he, fun hfinal _ => ?_⟩
      rw [Stmt.declares, if_pos top, Imports.exports, linked, Option.map_some, Option.getD_some,
        hfinal.exports he hr top (hearlier path dependency linked), importedNames_eq p path span found]
      exact imports.names
termination_by structural s

theorem AcceptsStmts.names {p : Place} {ss : List Stmt} {bs : List Bound.Stmt} {r r' : Record}
    (h : AcceptsStmts keyOf p r ss bs r')
    (hearlier : p.imports.Before p.global) :
    Settles job p (Bound.Stmt.declaredIn bs) (literalIds (Stmt.nodesOf ss)) r r'
      ((Bound.Stmt.declaredIn bs).map Cell.name =
        Stmt.declaresIn (p.imports.exports job.program.arena) p.atTop ss) := by
  cases ss with
  | nil => cases h; exact .refl _ _ _ rfl
  | cons s ss =>
    cases h with
    | cons head tail =>
      rw [Stmt.nodesOf, literalIds_append]
      refine ((head.names hearlier).and (tail.names hearlier)).imp fun hnames => ?_
      rw [Bound.Stmt.declaredIn, List.map_append, hnames.1, hnames.2, Stmt.declaresIn]
termination_by structural ss

end

/-! ## Scopes of literals -/

theorem AcceptsParams.length {scope : ScopeId} {params : List Parameter} (h : AcceptsParams scope r params cells r') :
    cells.length = params.length := by
  induction h with
  | nil => rfl
  | cons _ _ ih => rw [List.length_cons, List.length_cons, ih]

theorem AcceptsParams.declares {scope : ScopeId} {params : List Parameter} (h : AcceptsParams scope r params cells r')
    {s : Scope} (hs : r.arena.get? scope = some s) : ∃ t, r'.arena.get? scope = some t ∧
      t.declared.map Variable.typed = s.declared.map Variable.typed ++ params.map Parameter.typed := by
  induction h generalizing s with
  | nil => exact ⟨s, hs, (List.append_nil _).symm⟩
  | @cons r _ _ param params _ cells declared _ ih =>
    obtain ⟨rfl, rfl⟩ := newParameter_eq declared
    let v : Variable := ⟨.ofNote param.note, ⟨r.arena.nextCell, param.name⟩⟩
    obtain ⟨t, ht, htyped⟩ :=
      ih (s := { s with declared := s.declared ++ [v], paramCount := s.paramCount + 1 }) (by
        rw [Arena.get?_update, if_pos rfl, Arena.get?_extend, if_pos rfl, hs]
        rfl)
    refine ⟨t, ht, htyped.trans ?_⟩
    simp [v, Variable.typed, Parameter.typed]

/-- the scope of an accepted literal, when all is checked -/
theorem literal_hasScope {l : Literal} {scope : ScopeId} {opened declared : Record} (hr : Here p r)
    (hopen : openScope p l.number l.signature r = (scope, opened))
    (hparams : AcceptsParams scope opened l.params cells declared) (hbody : Effect scope cells' ids declared r')
    (hid : l.number ∉ ids) (hfinal : Final job p r' (l.number :: ids))
    (haround : job.module.scopes.around? l.around = some p.scope)
    (hnames : cells'.map Cell.name = Stmt.declaresIn (fun _ => []) false l.body.body) :
    l.HasScope job.program.arena job.module.scopes scope := by
  obtain ⟨hscope, hcells, hlocals, _⟩ := literal_final hr hopen hparams hbody hid hfinal
  obtain ⟨hlater, _⟩ := hparams.effect
  have hopened : opened.arena.get? scope = some (.ofKind (.local p.scope l.signature)) :=
    (opened_get? hopen scope).trans (if_pos rfl)
  obtain ⟨u, hu, htyped⟩ := hparams.declares hopened
  have hend := hbody.later.trans hfinal.later
  obtain ⟨t, ht, hkind⟩ := (hlater.trans hend).scope scope _ hopened
  obtain ⟨t', ht', hdeclared⟩ := hend.scope scope u hu
  obtain rfl : t = t' := Option.some.inj (ht.symm.trans ht')
  unfold Compile.parameterCells at hcells
  unfold Compile.localCells at hlocals
  rw [ht, Option.map_some, Option.getD_some] at hcells hlocals
  -- the parameters are as many as were declared first, and these stay the first
  have hparameters : t.parameters = u.declared := by
    have hlength : t.parameters.length = u.declared.length := by
      have hcount := congrArg List.length hcells
      have hcount' := congrArg List.length htyped
      simp only [List.length_map, Scope.ofKind, List.map_nil, List.nil_append] at hcount hcount'
      rw [hcount, hparams.length, hcount']
    have hfront : t.parameters <+: u.declared :=
      List.prefix_of_prefix_length_le (List.take_prefix _ _) hdeclared.declared (Nat.le_of_eq hlength)
    exact hfront.eq_of_length hlength
  refine ⟨Compile.found_of_functionScope hscope, t, p.scope, ht, ?_, haround, ?_, ?_⟩
  · have hlocal : (ScopeKind.local p.scope l.signature).Later t.kind := hkind.kind
    cases hk : t.kind with
    | global exports found => rw [hk] at hlocal; cases hlocal
    | «local» parent signature =>
      rw [hk] at hlocal
      cases hlocal
      rfl
  · rw [hparameters, htyped]
    rfl
  · rw [← hnames, ← hlocals, List.map_map]
    rfl

/-! ## Literals in their order -/

/-- the literals of a part that is checked have the next scopes, one by one -/
structure Opens (job : Job) (r r' : Record) (ls : List Literal) : Prop where
  size : r'.arena.scopes.size = r.arena.scopes.size + ls.length
  scopes : ∀ k (l : Literal), ls[k]? = some l →
    l.HasScope job.program.arena job.module.scopes (r.arena.scopes.size + k)

namespace Opens

variable {ls ls' : List Literal}

theorem nil (h : r'.arena.scopes.size = r.arena.scopes.size) : Opens job r r' [] := ⟨h, fun _ _ hk => nomatch hk⟩

theorem append (h : Opens job r r' ls) (h' : Opens job r' r'' ls') : Opens job r r'' (ls ++ ls') := by
  refine ⟨?_, fun k l hk => ?_⟩
  · rw [h'.size, h.size, List.length_append, Nat.add_assoc]
  · by_cases hlt : k < ls.length
    · rw [List.getElem?_append_left hlt] at hk
      exact h.scopes k l hk
    · have hle := Nat.le_of_not_lt hlt
      rw [List.getElem?_append_right hle] at hk
      have hscope := h'.scopes _ l hk
      rw [h.size, Nat.add_assoc, Nat.add_sub_cancel' hle] at hscope
      exact hscope

/-- a literal, whose scope is opened before those of the literals in it -/
theorem cons {l : Literal} {declared : Record} (hsize : declared.arena.scopes.size = r.arena.scopes.size + 1)
    (hl : l.HasScope job.program.arena job.module.scopes r.arena.scopes.size) (h : Opens job declared r' ls) :
    Opens job r r' (l :: ls) := by
  refine ⟨?_, fun k l' hk => ?_⟩
  · rw [h.size, hsize, List.length_cons, Nat.add_assoc, Nat.add_comm 1]
  · cases k with
    | zero =>
      cases hk
      exact hl
    | succ k =>
      have hscope := h.scopes k l' hk
      rw [hsize, Nat.add_assoc, Nat.add_comm 1] at hscope
      exact hscope

end Opens

theorem newVariable_size {scope : ScopeId} {name : String} {ty : Ty} {position : Position} {cell : Cell}
    (h : newVariable scope name ty position r = (some cell, r')) : r'.arena.scopes.size = r.arena.scopes.size := by
  obtain ⟨_, _, rfl⟩ := newVariable_eq h
  simp [Arena.extend]

theorem AcceptsImports.size {span : Span} {names : List (String × Ty)} {cells : List (String × Cell)}
    (h : AcceptsImports p span r names cells r') : r'.arena.scopes.size = r.arena.scopes.size := by
  induction h with
  | nil => rfl
  | cons declared _ ih => rw [ih, newVariable_size declared]

/-- what is so of the literals of a part that stands in a scope, when all is checked -/
def SettlesLiterals (job : Job) (around : Option Nat) (p : Place) (cells : List Cell) (ids : List Nat) (r r' : Record)
    (ls : List Literal) : Prop :=
  Settles job p cells ids r r' (job.module.scopes.around? around = some p.scope → Opens job r r' ls)

namespace SettlesLiterals

variable {around : Option Nat} {ls ls' : List Literal}

theorem nil (h : Settles job p cells ids r r' True) (hsize : r'.arena.scopes.size = r.arena.scopes.size) :
    SettlesLiterals job around p cells ids r r' [] :=
  h.imp fun _ _ => .nil hsize

theorem append (h : SettlesLiterals job around p cells ids r r' ls)
    (h' : SettlesLiterals job around p cells' ids' r' r'' ls') :
    SettlesLiterals job around p (cells ++ cells') (ids ++ ids') r r'' (ls ++ ls') :=
  (Settles.and h h').imp fun hopens haround => (hopens.1 haround).append (hopens.2 haround)

/-- a part, and behind it one that opens no scopes -/
theorem behind (h : SettlesLiterals job around p cells ids r r' ls) (he : Effect p.scope cells' [] r' r'')
    (hsize : r''.arena.scopes.size = r'.arena.scopes.size) :
    SettlesLiterals job around p (cells ++ cells') ids r r'' ls :=
  (Settles.behind h he).imp fun hopens haround => by
    have hall := (hopens haround).append (Opens.nil hsize)
    rwa [List.append_nil] at hall

theorem literal {id : Nat} {params : List Parameter} {result : Note} {body : List Stmt} {bodySpan : Span}
    {scope : ScopeId} {opened declared : Record}
    (hopen : openScope p id ⟨params.map fun param => .ofNote param.note, .ofNote result⟩ r = (scope, opened))
    (hparams : AcceptsParams scope opened params cells declared)
    (hnames : Settles job { p with scope } cells' ids declared r' (cells'.map Cell.name =
      Stmt.declaresIn (p.imports.exports job.program.arena) { p with scope }.atTop body))
    (hinside : SettlesLiterals job (some id) { p with scope } cells' ids declared r' ls) :
    SettlesLiterals job around p [] (id :: ids) r r' (⟨id, around, params, result, ⟨body, bodySpan⟩⟩ :: ls) := by
  intro hr
  have hopened := opened_params hopen hparams
  obtain ⟨he, hnames⟩ := hnames (hopened.here hr)
  obtain ⟨_, hopens⟩ := hinside (hopened.here hr)
  refine ⟨literal_effect hr.scope hopen hparams he, fun hfinal hnodup haround => ?_⟩
  obtain ⟨hid, hnodup⟩ := List.nodup_cons.1 hnodup
  obtain ⟨hscope, _, _, hfinal'⟩ := literal_final hr hopen hparams he hid hfinal
  have hnot : ({ p with scope } : Place).atTop = false := by
    have hlt := Arena.lt_of_isGlobal hr.module
    rw [Place.atTop, decide_eq_false (by rw [hopened.new]; exact Nat.ne_of_gt hlt)]
    rfl
  have hnames := hnames hfinal' hnodup
  rw [hnot, Stmt.declaresIn_inside _ fun _ => []] at hnames
  refine .cons hopened.size ?_ (hopens hfinal' hnodup (Compile.found_of_functionScope hscope))
  rw [← hopened.new]
  exact literal_hasScope hr hopen hparams he hid hfinal haround hnames

end SettlesLiterals

mutual

theorem AcceptsExpr.opens {p : Place} {e : Expr} {ty : Ty} {b : Bound.Expr} {r r' : Record} (around : Option Nat)
    (h : AcceptsExpr keyOf p r e ty b r')
    (hearlier : p.imports.Before p.global) :
    SettlesLiterals job around p [] (literalIds e.nodes) r r' (e.literals around) := by
  cases e with
  | number value span => cases h; exact .nil (.refl _ _ _ trivial) rfl
  | text value span => cases h; exact .nil (.refl _ _ _ trivial) rfl
  | truth value span => cases h; exact .nil (.refl _ _ _ trivial) rfl
  | ident name span => cases h; exact .nil (.refl _ _ _ trivial) rfl
  | self span => cases h; exact .nil (.refl _ _ _ trivial) rfl
  | list items span =>
    cases items with
    | nil => cases h
    | cons first rest =>
      cases h with
      | list _ head used tail agree =>
        rw [Expr.nodes, Expr.nodesOf, literalIds_cons, literalIds_append]
        exact (head.opens around hearlier).append (tail.opens around hearlier)
  | function id params result body span =>
    obtain ⟨body, bodySpan⟩ := body
    cases h with
    | function _ _ opens parameters inside =>
      rw [Expr.nodes, Block.nodes, literalIds_cons]
      exact .literal opens parameters (inside.names hearlier) (inside.opens (some id) hearlier)
  | call callee arguments span =>
    cases h with
    | call _ given function used fits =>
      rw [Expr.nodes, literalIds_cons, literalIds_append]
      refine Settles.widen ((given.opens around hearlier).append (function.opens around hearlier)) ?_ ?_
      · exact fun id hid => List.mem_append_right _ ((List.perm_append_comm).mem_iff.1 hid)
      · exact fun hnodup => (List.perm_append_comm).nodup_iff.1 hnodup
  | assign target assigned span =>
    cases h with
    | assign _ nameSpan accepted used found fits =>
      have hvalue := accepted.opens around hearlier
      rw [Expr.literals, Expr.literals, List.append_nil]
      exact Settles.widen hvalue (by simp [Expr.nodes, Node.literal?]) (by simp [Expr.nodes, Node.literal?])
  | binary operator left right span =>
    cases h with
    | binary _ onLeft usedLeft onRight usedRight known fits =>
      rw [Expr.nodes, literalIds_cons, literalIds_append]
      exact (onLeft.opens around hearlier).append (onRight.opens around hearlier)
  | subscript target index span =>
    cases h with
    | subscript _ onTarget usedTarget onIndex usedIndex fits =>
      rw [Expr.nodes, literalIds_cons, literalIds_append]
      exact (onTarget.opens around hearlier).append (onIndex.opens around hearlier)
termination_by structural e

theorem AcceptsExprs.opens {p : Place} {es : List Expr} {tys : List (Ty × Span)} {bs : List Bound.Expr}
    {r r' : Record} (around : Option Nat) (h : AcceptsExprs keyOf p r es tys bs r')
    (hearlier : p.imports.Before p.global) :
    SettlesLiterals job around p [] (literalIds (Expr.nodesOf es)) r r' (Expr.literalsOf around es) := by
  cases es with
  | nil => cases h; exact .nil (.refl _ _ _ trivial) rfl
  | cons e es =>
    cases h with
    | cons head used tail =>
      rw [Expr.nodesOf, literalIds_append]
      exact (head.opens around hearlier).append (tail.opens around hearlier)
termination_by structural es

theorem AcceptsDeclaration.opens {p : Place} {d : Declaration} {ty : Ty} {cell : Cell} {b : Bound.Expr}
    {r r' : Record} (around : Option Nat) (h : AcceptsDeclaration keyOf p r d ty cell b r')
    (hearlier : p.imports.Before p.global) :
    SettlesLiterals job around p [cell] (literalIds d.nodes) r r' (d.literals around) := by
  cases d with
  | mk name note initial span =>
    cases h with
    | mk _ accepted used fits declared =>
      exact (accepted.opens around hearlier).behind (newVariable_effect declared) (newVariable_size declared)
termination_by structural d

theorem AcceptsStmt.opens {p : Place} {s : Stmt} {b : Bound.Stmt} {r r' : Record} (around : Option Nat)
    (h : AcceptsStmt keyOf p r s b r')
    (hearlier : p.imports.Before p.global) :
    SettlesLiterals job around p b.declared (literalIds s.nodes) r r' (s.literals around) := by
  cases s with
  | cond condition body span =>
    obtain ⟨body, bodySpan⟩ := body
    cases h with
    | cond _ _ test used fits inside =>
      rw [Stmt.nodes, Block.nodes, literalIds_cons, literalIds_append]
      have hinside := inside.opens (p := { p with conditional := true }) around hearlier
      exact (test.opens around hearlier).append (Settles.conditional hinside)
  | declare d =>
    cases h with
    | declare declared =>
      rw [Stmt.nodes, literalIds_cons]
      exact declared.opens around hearlier
  | giveBack value span =>
    cases value with
    | none => cases h; exact .nil (.refl _ _ _ trivial) rfl
    | some e =>
      cases h with
      | giveBack _ given used fits =>
        rw [Stmt.nodes, literalIds_cons]
        exact given.opens around hearlier
  | eval e span =>
    cases h with
    | eval _ evaluated =>
      rw [Stmt.nodes, literalIds_cons]
      exact evaluated.opens around hearlier
  | pub d span =>
    cases h with
    | pub _ top declared exported =>
      rw [Stmt.nodes, literalIds_cons]
      exact (declared.opens around hearlier).behind (addExport_effect exported) (addExport_size exported)
  | use path names span =>
    have hstands : Settles job p b.declared (literalIds (Stmt.use path names span).nodes) r r' True :=
      h.stands.imp fun _ => trivial
    cases h with
    | use _ top linked named found imports => exact .nil hstands imports.size
termination_by structural s

theorem AcceptsStmts.opens {p : Place} {ss : List Stmt} {bs : List Bound.Stmt} {r r' : Record} (around : Option Nat)
    (h : AcceptsStmts keyOf p r ss bs r')
    (hearlier : p.imports.Before p.global) :
    SettlesLiterals job around p (Bound.Stmt.declaredIn bs) (literalIds (Stmt.nodesOf ss)) r r'
      (Stmt.literalsIn around ss) := by
  cases ss with
  | nil => cases h; exact .nil (.refl _ _ _ trivial) rfl
  | cons s ss =>
    cases h with
    | cons head tail =>
      rw [Stmt.nodesOf, literalIds_append]
      exact (head.opens around hearlier).append (tail.opens around hearlier)
termination_by structural ss

end

/-! ## Modules -/

/-- the scopes of an accepted module, in an arena with more scopes behind them -/
theorem AcceptsStmts.hasScopes {arena : Arena} {imports : Imports} {body : Block}
    {bs : List Bound.Stmt} {final : Record}
    (hwf : arena.WellFormed) (h : AcceptsStmts keyOf (top imports arena) (start arena) body.body bs final)
    (hbefore : imports.Before arena.scopes.size) (hextension : Arena.Extension final.arena job.program.arena)
    (hscopes : job.module.scopes = ⟨arena.scopes.size, final.functions⟩) (hnodup : (literalIds body.nodes).Nodup) :
    final.arena.scopes.size = arena.scopes.size + 1 + (body.literals none).length ∧
      body.HasScopes (imports.exports job.program.arena) job.program.arena job.module.scopes := by
  obtain ⟨body, span⟩ := body
  rw [Block.nodes] at hnodup
  have hhere : Here (top imports arena) (start arena) :=
    ⟨(ready_start hwf imports).scope, arena.isGlobal_newGlobal⟩
  have hfinal : Final job (top imports arena) final (literalIds (Stmt.nodesOf body)) :=
    ⟨hextension.wellFormed.ordered, hextension.later, fun x hx _ => hextension.old x hx, fun id _ => by rw [hscopes]⟩
  have htop : (top imports arena).atTop = true := by simp [top, Place.atTop]
  have hstart : (start arena).arena.get? arena.scopes.size = some (.ofKind (.global [] [])) :=
    (Arena.get?_add _ _ _).trans (if_pos rfl)
  have hsize : (start arena).arena.scopes.size = arena.scopes.size + 1 := Arena.size_add _ _
  obtain ⟨he, hnames⟩ := h.names hbefore hhere
  obtain ⟨_, hopens⟩ := h.opens none hbefore hhere
  have hnames := hnames hfinal hnodup
  have hopens := hopens hfinal hnodup (by rw [hscopes]; rfl)
  rw [htop] at hnames
  refine ⟨by rw [hopens.size, hsize, Block.literals], ?_, fun k l hk => ?_, fun id x hx => ?_⟩
  · obtain ⟨t, vs, ht, hdeclared, hcells, hcount⟩ := he.declares _ hstart
    have hcount : t.paramCount = 0 := hcount
    have ht' : job.program.arena.get? arena.scopes.size = some t :=
      (hextension.old _ (Arena.lt_of_get? ht)).trans ht
    obtain ⟨t', ht'', hglobal⟩ := Arena.isGlobal_iff.1
      ((he.later.trans hextension.later).isGlobal_of arena.isGlobal_newGlobal)
    obtain rfl : t' = t := Option.some.inj (ht''.symm.trans ht')
    refine ⟨t', by rw [hscopes]; exact ht', hglobal, by rw [Scope.parameters, hcount, List.take_zero], ?_⟩
    rw [Scope.locals, hcount, List.drop_zero, hdeclared]
    refine Eq.trans ?_ hnames
    rw [← hcells, List.map_map]
    rfl
  · have hscope := hopens.scopes k l hk
    rw [hsize] at hscope
    rw [hscopes] at hscope ⊢
    rwa [Nat.add_right_comm] at hscope
  · have hmem : id ∈ literalIds (Stmt.nodesOf body) := by
      by_contra hnot
      have hnone := he.functions id hnot
      rw [hscopes] at hx
      rw [hx] at hnone
      cases hnone.trans (Table.find?_empty id)
    rw [← (Stmt.literalsIn_perm none body).mem_iff] at hmem
    obtain ⟨l, hl, hnumber⟩ := List.mem_map.1 hmem
    exact ⟨l, hl, hnumber⟩

end Check

end TypedScript
