/-
What is seen at a point of a check. Of the variables that names mean where a part of a tree stands, each that the part
uses is sure to have been given a value (`Check.Sees`), and their types are of a kind (`Check.Seen`). In the end every
variable of the arena has its type under the number of its cell (`Arena.typeOf?`).

- `Check.Effect.lookup?`: the variables that a part adds to those that can be seen.
- `Check.literal_lookup?`: what can be seen in a function literal.
-/
import TypedScript.Proofs.Bound.Exports
import TypedScript.Proofs.Typing.Derivation
import TypedScript.Proofs.Typing.Fits
import TypedScript.Proofs.Typing.Sound

namespace TypedScript

namespace Arena

variable {a b : Arena} {x : ScopeId} {s : Scope} {v : Variable} {name : String}

/-- the type of the variable whose cell has a number -/
def typeOf? (a : Arena) (id : Nat) : Option Ty :=
  ((a.scopes.toList.flatMap Scope.declared).find? fun v => v.cell.id = id).map Variable.ty

theorem WellFormed.typeOf? (h : a.WellFormed) (hs : a.get? x = some s) (hv : v ∈ s.declared) :
    a.typeOf? v.cell.id = some v.ty := by
  have hget {y : ScopeId} {t : Scope} (ht : a.scopes.toList[y]? = some t) : a.get? y = some t := by
    rwa [Array.getElem?_toList] at ht
  have hmem : v ∈ a.scopes.toList.flatMap Scope.declared := by
    refine List.mem_flatMap.2 ⟨s, ?_, hv⟩
    exact Array.mem_toList_iff.2 (Array.mem_of_getElem? hs)
  unfold Arena.typeOf?
  cases hfind : (a.scopes.toList.flatMap Scope.declared).find? fun w => w.cell.id = v.cell.id with
  | none => exact absurd (List.find?_eq_none.1 hfind v hmem) (by simp)
  | some w =>
    obtain ⟨t, ht, hw⟩ := List.mem_flatMap.1 (List.mem_of_find?_eq_some hfind)
    obtain ⟨y, hy⟩ := List.mem_iff_getElem?.1 ht
    have hid : w.cell.id = v.cell.id := by simpa using List.find?_some hfind
    obtain ⟨_, rfl⟩ := h.distinct y x t s (hget hy) hs w hw v hv hid
    rfl

theorem mem_of_find? (h : s.find? name = some v) : v ∈ s.declared := List.mem_of_find?_eq_some h

/-- a name means a variable of one of the scopes around -/
theorem mem_of_lookup? (h : a.lookup? x name = some v) : ∃ y ∈ a.chain x, ∃ s, a.get? y = some s ∧ v ∈ s.declared := by
  obtain ⟨y, hy, hfind⟩ := List.exists_of_findSome?_eq_some h
  obtain ⟨s, hs, hv⟩ := Option.bind_eq_some_iff.1 hfind
  exact ⟨y, hy, s, hs, mem_of_find? hv⟩

/-- a name is looked for in a scope and then in those around it -/
theorem lookup?_cons {rest : List ScopeId} (h : a.chain x = x :: rest) (name : String) :
    a.lookup? x name = (((a.get? x).bind fun s => s.find? name).or
      (rest.findSome? fun y => (a.get? y).bind fun s => s.find? name)) := by
  unfold lookup?
  rw [h, List.findSome?_cons]
  cases (a.get? x).bind fun s => s.find? name <;> rfl

/-- a name has the variable later on that it has in a scope now -/
theorem typeOf?_later (h : a.Later b) (hb : b.WellFormed) (hs : a.get? x = some s) (hv : v ∈ s.declared) :
    b.typeOf? v.cell.id = some v.ty := by
  obtain ⟨t, ht, hst⟩ := h.scope x s hs
  exact hb.typeOf? ht (hst.declared.subset hv)

end Arena

namespace Check

variable {keyOf : String → Option String} {p : Place} {r r' : Record} {scope : ScopeId} {cells : List Cell}
  {ids : List Nat} {name : String} {v : Variable}

/-! ## Names -/

/-- the scopes around a scope other than itself -/
theorem exists_chain {a : Arena} (ha : a.Ordered) (hscope : scope < a.scopes.size) :
    ∃ rest, a.chain scope = scope :: rest ∧ ∀ x ∈ rest, x < scope := by
  rw [Arena.chain_eq ha hscope]
  refine ⟨_, rfl, fun x hx => ?_⟩
  cases hparent : a.parent? scope with
  | none => rw [hparent] at hx; cases hx
  | some parent =>
    rw [hparent] at hx
    have hlt := ha scope parent hparent
    exact Nat.lt_of_le_of_lt (Arena.le_of_mem_chain ha (Nat.lt_trans hlt hscope) hx) hlt

/-- a name means the variable that it meant before a part was checked, or one that the part declares -/
theorem Effect.lookup? (h : Effect scope cells ids r r') (hordered : r'.arena.Ordered)
    (hscope : scope < r.arena.scopes.size) (hv : r'.arena.lookup? scope name = some v) :
    v.cell ∈ cells ∨ r.arena.lookup? scope name = some v := by
  obtain ⟨rest, hrest, hlt⟩ := exists_chain (h.later.ordered hordered) hscope
  obtain ⟨s, hs⟩ := Arena.get?_of_lt hscope
  obtain ⟨t, vs, ht, hdeclared, hcells, _⟩ := h.declares s hs
  rw [Arena.lookup?_cons ((h.later.chain hordered hscope).trans hrest), ht] at hv
  rw [Arena.lookup?_cons hrest, hs]
  have hsame : (rest.findSome? fun y => (r'.arena.get? y).bind fun s => s.find? name) =
      rest.findSome? fun y => (r.arena.get? y).bind fun s => s.find? name := by
    rw [← List.head?_filterMap, ← List.head?_filterMap]
    refine congrArg List.head? (List.filterMap_congr fun y hy => ?_)
    rw [h.frame y (Nat.lt_trans (hlt y hy) hscope) (Nat.ne_of_lt (hlt y hy))]
  rw [hsame, Option.bind_some, Scope.find?, hdeclared, List.find?_append] at hv
  rw [Option.bind_some, Scope.find?]
  cases hold : s.declared.find? fun w => w.cell.name = name with
  | some w =>
    rw [hold] at hv
    exact Or.inr hv
  | none =>
    rw [hold, Option.none_or] at hv
    cases hnew : vs.find? fun w => w.cell.name = name with
    | none =>
      rw [hnew] at hv
      exact Or.inr hv
    | some w =>
      rw [hnew] at hv
      cases hv
      rw [← hcells]
      exact Or.inl (List.mem_map_of_mem (List.mem_of_find?_eq_some hnew))

/-! ## Function literals -/

section

variable {p : Place} {opened declared : Record} {id : Nat} {signature : Signature} {params : List Parameter}

/-- the scope of a literal holds its parameters, and the names around the literal can be seen in it -/
theorem literal_lookup? (hordered : declared.arena.Ordered) (hscope : p.scope < r.arena.scopes.size)
    (hopen : openScope p id signature r = (scope, opened)) (hparams : AcceptsParams scope opened params cells declared)
    (hv : declared.arena.lookup? scope name = some v) :
    v.cell ∈ cells ∨ r.arena.lookup? p.scope name = some v := by
  obtain ⟨hlater, _, _, hframe, hdeclares⟩ := hparams.effect
  have hget := opened_get? hopen
  obtain ⟨t, vs, ht, hd, hcells, _⟩ := hdeclares _ ((hget scope).trans (if_pos rfl))
  obtain ⟨rfl, rfl⟩ := openScope_eq hopen
  have hall := (Arena.later_add r.arena (.ofKind (.local p.scope signature))).trans hlater
  have hparent : declared.arena.parent? r.arena.scopes.size = some p.scope := by
    rw [hlater.parent? (by rw [Arena.size_add]; exact Nat.lt_succ_self _)]
    refine Arena.parent?_eq_some_iff.2 ⟨.ofKind (.local p.scope signature), signature, ?_, rfl⟩
    rw [Arena.get?_add, if_pos rfl]
  have hfound : (vs.find? fun w => w.cell.name = name).or
      ((declared.arena.chain p.scope).findSome? fun y => (declared.arena.get? y).bind fun s => s.find? name) =
        some v := by
    rw [Arena.lookup?_cons (Arena.chain_of_parent? hordered hparent), ht, Option.bind_some, Scope.find?, hd] at hv
    exact hv
  rcases Option.or_eq_some_iff.1 hfound with hmine | ⟨_, hothers⟩
  · rw [← hcells]
    exact Or.inl (List.mem_map_of_mem (List.mem_of_find?_eq_some hmine))
  · rw [hall.chain hordered hscope, ← List.head?_filterMap] at hothers
    refine Or.inr (Eq.trans ?_ hothers)
    unfold Arena.lookup?
    rw [← List.head?_filterMap]
    refine congrArg List.head? (List.filterMap_congr fun y hy => ?_)
    have hlt := Nat.lt_of_le_of_lt (Arena.le_of_mem_chain (hall.ordered hordered) hscope hy) hscope
    rw [hframe y (Nat.ne_of_lt hlt), hget, if_neg (Nat.ne_of_lt hlt)]

theorem literal_signature? (hopen : openScope p id signature r = (scope, opened))
    (hparams : AcceptsParams scope opened params cells declared) :
    declared.arena.signature? scope = some signature := by
  have hget := (opened_get? hopen scope).trans (if_pos rfl)
  rw [hparams.effect.1.signature? (Arena.lt_of_get? hget)]
  unfold Arena.signature?
  rw [hget]
  rfl

/-- in the end each parameter has the type that is written at it -/
theorem AcceptsParams.types {F : Arena} (h : AcceptsParams scope r params cells r') (hF : F.WellFormed)
    (hlater : r'.arena.Later F) (hscope : scope < r.arena.scopes.size) :
    List.Forall₂ (fun cell ty => F.typeOf? cell.id = some ty) cells (params.map fun param => .ofNote param.note) := by
  induction h with
  | nil => exact .nil
  | @cons r r' r'' param params cell cells declared rest ih =>
    have hrest := rest.effect.1
    obtain ⟨rfl, rfl⟩ := newParameter_eq declared
    refine .cons ?_ (ih hlater (by simpa [Arena.extend] using hscope))
    obtain ⟨s, hs⟩ := Arena.get?_of_lt hscope
    let v : Variable := ⟨.ofNote param.note, ⟨r.arena.nextCell, param.name⟩⟩
    have hmem : v ∈ s.declared ++ [v] := List.mem_append_right _ (List.mem_singleton_self v)
    refine Arena.typeOf?_later (x := scope) (v := v) (hrest.trans hlater) hF ?_ (s := ⟨s.kind, s.declared ++ [v],
      s.paramCount + 1⟩) hmem
    rw [Arena.get?_update, if_pos rfl, Arena.get?_extend, if_pos rfl, hs]
    rfl

/-- parameters get new cells -/
theorem AcceptsParams.fresh (h : AcceptsParams scope r params cells r') :
    ∀ cell ∈ cells, r.arena.nextCell ≤ cell.id := by
  induction h with
  | nil => exact fun _ h => nomatch h
  | cons declared _ ih =>
    obtain ⟨rfl, rfl⟩ := newParameter_eq declared
    intro cell hcell
    rcases List.mem_cons.1 hcell with rfl | hcell
    · exact Nat.le_refl _
    · exact Nat.le_trans (Nat.le_succ _) (ih cell hcell)

end

/-! ## Places -/

section

variable {p : Place}

theorem AcceptsExpr.ready {e : Expr} {ty : Ty} {b : Bound.Expr} (h : AcceptsExpr keyOf p r e ty b r')
    (hkeyed : Keyed keyOf p.imports) (hr : Ready p r) : Ready p r' := by
  have hstep := (sound_expr (K := False) hkeyed e r (fun hk => hk.elim) hr).1
  rw [h.run] at hstep
  exact hr.step hstep

theorem AcceptsExprs.ready {es : List Expr} {tys : List (Ty × Span)} {bs : List Bound.Expr}
    (h : AcceptsExprs keyOf p r es tys bs r') (hkeyed : Keyed keyOf p.imports) (hr : Ready p r) : Ready p r' := by
  have hstep := (sound_values (K := False) hkeyed es r (fun hk => hk.elim) hr).1
  rw [h.run] at hstep
  exact hr.step hstep

theorem AcceptsStmt.ready {s : Stmt} {b : Bound.Stmt} (h : AcceptsStmt keyOf p r s b r')
    (hkeyed : Keyed keyOf p.imports) (hr : Ready p r) : Ready p r' := by
  have hstep := (sound_stmt (K := False) hkeyed s r (fun hk => hk.elim) hr).1
  rw [h.run] at hstep
  exact hr.step hstep

/-- the scope of a literal is ready for the body when its parameters are declared -/
theorem Ready.literal {id : Nat} {signature : Signature} {opened declared : Record} {params : List Parameter}
    (hr : Ready p r) (hopen : Check.openScope p id signature r = (scope, opened))
    (hparams : AcceptsParams scope opened params cells declared) : Ready { p with scope } declared := by
  have hopened := hr.openScope id signature
  rw [past_eq hopen, ← (openScope_eq hopen).1] at hopened
  have hmoves := (sound_params (p := { p with scope }) (Nat.le_refl scope) params hopened.wellFormed
    hopened.scope hopened.root hopened.global).1
  rw [past_eq hparams.run] at hmoves
  exact hopened.later hmoves.wellFormed hmoves.later

end

/-! ## What is seen -/

/-- what can be seen at a place: those of the variables that names mean there which are used from there on are `ready`,
that is, sure to have a value -/
structure Sees (p : Place) (r : Record) (ready uses : List Cell) : Prop where
  place : Ready p r
  visible : ∀ name v, r.arena.lookup? p.scope name = some v → v.cell ∈ uses → v.cell ∈ ready
  old : ∀ cell ∈ ready, cell.id < r.arena.nextCell

/-- the types that can be seen at a place are of a kind; the modules that are imported were checked before, and
`exports` gives what they export -/
structure Seen (P : Ty → Prop) (exports : String → String → Option Ty) (keyOf : String → Option String) (p : Place)
    (r : Record) : Prop where
  place : Ready p r
  kind : ∀ name v, r.arena.lookup? p.scope name = some v → P v.ty
  signature : ∀ signature, r.arena.signature? p.scope = some signature → P signature.ty
  imports : p.atTop = true → ∀ path dependency key, p.imports.find? path = some dependency → keyOf path = some key →
    dependency < p.global ∧ ∀ e ∈ r.arena.exports dependency, P e.2 ∧ exports key e.1 = some e.2

/-- the arena at the end of a check in which nothing was found wrong -/
structure Finished (F : Arena) (global : ScopeId) (r : Record) : Prop where
  wellFormed : F.WellFormed
  later : r.arena.Later F
  clean : F.diagnostics global = []

section

variable {P : Ty → Prop} {exports : String → String → Option Ty} {p : Place}
  {ready cells' uses uses' : List Cell} {F : Arena}

theorem Finished.before (h : Finished F p.global r') (hlater : r.arena.Later r'.arena) : Finished F p.global r :=
  ⟨h.wellFormed, hlater.trans h.later, h.clean⟩

theorem Finished.cleanNow (h : Finished F p.global r) (hr : Ready p r) : Clean p r :=
  h.later.clean h.wellFormed.ordered hr.global h.clean

theorem Sees.narrow (h : Sees p r ready uses) (huses : ∀ cell ∈ uses', cell ∈ uses) : Sees p r ready uses' :=
  ⟨h.place, fun name v hv hcell => h.visible name v hv (huses _ hcell), h.old⟩

theorem Ready.conditional (h : Ready p r) : Ready { p with conditional := true } r :=
  ⟨h.wellFormed, h.scope, h.root, h.global⟩

theorem Sees.conditional (h : Sees p r ready uses) : Sees { p with conditional := true } r ready uses :=
  ⟨h.place.conditional, h.visible, h.old⟩

/-- what is seen behind a part: the variables that the part declares as well, those of which that are used have a value
behind it -/
theorem Sees.past (h : Sees p r ready uses) (he : Effect p.scope cells ids r r') (hr : Ready p r')
    (hcells' : ∀ cell ∈ cells', cell ∈ cells) (hready : ∀ cell ∈ cells, cell ∈ uses → cell ∈ cells') :
    Sees p r' (cells' ++ ready) uses := by
  have hscope := h.place.scope
  refine ⟨hr, fun name v hv huse => ?_, fun cell hcell => ?_⟩
  · rcases he.lookup? hr.wellFormed.ordered hscope hv with hcell | hold
    · exact List.mem_append_left _ (hready v.cell hcell huse)
    · exact List.mem_append_right _ (h.visible name v hold huse)
  · rcases List.mem_append.1 hcell with hcell | hcell
    · obtain ⟨s, hs⟩ := Arena.get?_of_lt hscope
      obtain ⟨t, vs, ht, hd, hvs, _⟩ := he.declares s hs
      obtain ⟨v, hv, rfl⟩ := List.mem_map.1 (hvs ▸ hcells' cell hcell)
      exact hr.wellFormed.fresh p.scope t ht v (hd ▸ List.mem_append_right _ hv)
    · exact Nat.lt_of_lt_of_le (h.old cell hcell) he.later.nextCell

/-- what is seen behind an expression -/
theorem Sees.pastExpr (h : Sees p r ready uses) (he : Effect p.scope [] ids r r') (hr : Ready p r') :
    Sees p r' ready uses :=
  h.past he hr (fun _ h => h) (fun _ h => nomatch h)

/-- what is seen in a literal -/
theorem Sees.literal {id : Nat} {signature : Signature} {opened declared : Record} {params : List Parameter}
    (h : Sees p r ready uses) (hopen : openScope p id signature r = (scope, opened))
    (hparams : AcceptsParams scope opened params cells declared) :
    Sees { p with scope } declared (cells ++ ready) uses := by
  have hr := h.place.literal hopen hparams
  refine ⟨hr, fun name v hv huse => ?_, fun cell hcell => ?_⟩
  · rcases literal_lookup? hr.wellFormed.ordered h.place.scope hopen hparams hv with hcell | hold
    · exact List.mem_append_left _ hcell
    · exact List.mem_append_right _ (h.visible name v hold huse)
  · rcases List.mem_append.1 hcell with hcell | hcell
    · obtain ⟨t, vs, ht, hd, hvs, _⟩ := hparams.effect.2.2.2.2 _ ((opened_get? hopen scope).trans (if_pos rfl))
      obtain ⟨v, hv, rfl⟩ := List.mem_map.1 (hvs ▸ hcell)
      exact hr.wellFormed.fresh scope t ht v (hd ▸ List.mem_append_right _ hv)
    · refine Nat.lt_of_lt_of_le (h.old cell hcell) ?_
      obtain ⟨_, rfl⟩ := openScope_eq hopen
      exact hparams.effect.1.nextCell

/-- what is seen in the body of a condition -/
theorem Seen.conditional (h : Seen P exports keyOf p r) : Seen P exports keyOf { p with conditional := true } r := by
  refine ⟨h.place.conditional, h.kind, h.signature, fun htop => ?_⟩
  rw [not_atTop_conditional] at htop
  cases htop

/-- where the variables that a part declares have types of the kind, so have all that are seen behind it -/
theorem Seen.past (h : Seen P exports keyOf p r) (he : Effect p.scope cells ids r r') (hr : Ready p r')
    (hend : Finished F p.global r') (hkind : ∀ cell ∈ cells, ∀ ty, F.typeOf? cell.id = some ty → P ty) :
    Seen P exports keyOf p r' := by
  have hscope := h.place.scope
  refine ⟨hr, fun name v hv => ?_, ?_, fun htop path dependency key hlinked hkey => ?_⟩
  · rcases he.lookup? hr.wellFormed.ordered hscope hv with hcell | hold
    · obtain ⟨y, _, s, hs, hmem⟩ := Arena.mem_of_lookup? hv
      exact hkind v.cell hcell v.ty (Arena.typeOf?_later hend.later hend.wellFormed hs hmem)
    · exact h.kind name v hold
  · rw [he.later.signature? hscope]
    exact h.signature
  · obtain ⟨hlt, hexports⟩ := h.imports htop path dependency key hlinked hkey
    rw [← Place.scope_of_atTop htop] at hlt
    refine ⟨by rwa [← Place.scope_of_atTop htop], ?_⟩
    have hframe := he.frame dependency (Nat.lt_trans hlt hscope) (Nat.ne_of_lt hlt)
    rwa [Arena.exports_congr (congrArg (Option.map Scope.kind) hframe)]

theorem Seen.pastExpr (h : Seen P exports keyOf p r) (he : Effect p.scope [] ids r r') (hr : Ready p r')
    (hend : Finished F p.global r') : Seen P exports keyOf p r' :=
  h.past he hr hend fun _ h => nomatch h

theorem Seen.literal {id : Nat} {signature : Signature} {opened declared : Record} {params : List Parameter}
    (h : Seen P exports keyOf p r) (hopen : openScope p id signature r = (scope, opened))
    (hparams : AcceptsParams scope opened params cells declared) (hend : Finished F p.global declared)
    (hsignature : P signature.ty)
    (hkind : ∀ cell ∈ cells, ∀ ty, F.typeOf? cell.id = some ty → P ty) :
    Seen P (fun _ _ => none) keyOf { p with scope } declared := by
  have hr := h.place.literal hopen hparams
  refine ⟨hr, fun name v hv => ?_, fun found hfound => ?_, fun htop => ?_⟩
  · rcases literal_lookup? hr.wellFormed.ordered h.place.scope hopen hparams hv with hcell | hold
    · obtain ⟨y, _, s, hs, hmem⟩ := Arena.mem_of_lookup? hv
      exact hkind v.cell hcell v.ty (Arena.typeOf?_later hend.later hend.wellFormed hs hmem)
    · exact h.kind name v hold
  · rw [literal_signature? hopen hparams] at hfound
    cases hfound
    exact hsignature
  · obtain ⟨s, hs, _⟩ := Arena.isGlobal_iff.1 h.place.global
    rw [not_atTop_literal (Arena.lt_of_get? hs) hopen] at htop
    cases htop

end

end Check

end TypedScript
