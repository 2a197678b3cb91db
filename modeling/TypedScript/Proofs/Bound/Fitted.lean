/-
What the check accepts fits its types. Where the check finds nothing wrong and no annotation mentions `Any`, the bound
tree of what was checked fits the types that the variables have in the arena at the end; and if the types that can be
seen around it are of a kind, so are those in it.

- `Check.AcceptsExpr.fit`, `Check.AcceptsStmts.fit`: expressions and statements that the check accepts.
-/
import TypedScript.Proofs.Bound.Fitting
import TypedScript.Proofs.Bound.Seen

namespace TypedScript

namespace Node

/-- no annotation mentions `Any` -/
def Plain (x : Node) : Prop := ∀ note ∈ x.notes, (Ty.ofNote note).hasAny = false

instance (x : Node) : Decidable x.Plain := inferInstanceAs (Decidable (∀ note ∈ x.notes, _ = _))

variable {P : Node → Prop} {x : Node} {xs ys : List Node}

/-- what is so of a node and of those of its two parts is so of the first part -/
theorem forall_left (h : ∀ y ∈ x :: (xs ++ ys), P y) : ∀ y ∈ xs, P y :=
  fun y hy => h y (List.mem_cons_of_mem x (List.mem_append_left ys hy))

theorem forall_right (h : ∀ y ∈ x :: (xs ++ ys), P y) : ∀ y ∈ ys, P y :=
  fun y hy => h y (List.mem_cons_of_mem x (List.mem_append_right xs hy))

theorem forall_tail (h : ∀ y ∈ x :: xs, P y) : ∀ y ∈ xs, P y := fun y hy => h y (List.mem_cons_of_mem x hy)

end Node

namespace Check

variable {keyOf : String → Option String} {p : Place} {r r' : Record} {scope : ScopeId} {F : Arena}

/-! ## Pieces -/

/-- in the end a declared variable has the type that it was declared with -/
theorem newVariable_type {name : String} {ty : Ty} {position : Position} {cell : Cell}
    (h : newVariable scope name ty position r = (some cell, r')) (hscope : scope < r.arena.scopes.size)
    (hF : F.WellFormed) (hlater : r'.arena.Later F) : F.typeOf? cell.id = some ty := by
  obtain ⟨_, rfl, rfl⟩ := newVariable_eq h
  obtain ⟨s, hs⟩ := Arena.get?_of_lt hscope
  let v : Variable := ⟨ty, ⟨r.arena.nextCell, name⟩⟩
  have hmem : v ∈ s.declared ++ [v] := List.mem_append_right _ (List.mem_singleton_self v)
  refine Arena.typeOf?_later (x := scope) (v := v) hlater hF (s := ⟨s.kind, s.declared ++ [v], s.paramCount⟩) ?_ hmem
  rw [Arena.get?_extend, if_pos rfl, hs]
  rfl

theorem AcceptsImports.types {span : Span} {names : List (String × Ty)} {cells : List (String × Cell)}
    (h : AcceptsImports p span r names cells r') (hscope : p.global < r.arena.scopes.size) (hF : F.WellFormed)
    (hlater : r'.arena.Later F) : ∀ n ∈ cells, ∃ ty, (n.1, ty) ∈ names ∧ F.typeOf? n.2.id = some ty := by
  induction h with
  | nil => exact fun _ h => nomatch h
  | @cons r r' r'' name ty names cell cells declared rest ih =>
    have hrest := rest.effect.later
    have hscope' := Nat.lt_of_lt_of_le hscope (newVariable_effect declared).later.size
    intro n hn
    rcases List.mem_cons.1 hn with rfl | hn
    · exact ⟨ty, List.mem_cons_self, newVariable_type declared hscope hF (hrest.trans hlater)⟩
    · obtain ⟨ty', hmem, hty'⟩ := ih hscope' hlater n hn
      exact ⟨ty', List.mem_cons_of_mem _ hmem, hty'⟩

/-- what an import declares is exported -/
theorem mem_exports_of_importedAs {path : String} {dependency : ScopeId} {span : Span} {names : Option (List String)}
    (hfound : ∀ asked, names = some asked → ∀ name ∈ asked, (r.arena.export? dependency name).isSome = true) :
    ∀ e ∈ importedAs p path dependency span r names, e ∈ r.arena.exports dependency := by
  cases names with
  | none => exact fun e he => he
  | some asked =>
    replace hfound := hfound asked rfl
    change ∀ e ∈ (importedNames p path dependency span asked r).1, _
    induction asked with
    | nil => exact fun _ h => nomatch h
    | cons name asked ih =>
      obtain ⟨ty, hty⟩ := Option.isSome_iff_exists.1 (hfound name List.mem_cons_self)
      have hrest := fun name' hname => hfound name' (List.mem_cons_of_mem name hname)
      have hrun : (importedNames p path dependency span (name :: asked) r).1 =
          (name, ty) :: (importedNames p path dependency span asked r).1 := by
        rw [importedNames, get_bind_run, hty]
        exact congrArg Prod.fst ((bind_run (importedNames_run hrest)).trans rfl)
      rw [hrun]
      intro e he
      rcases List.mem_cons.1 he with rfl | he
      · exact Arena.mem_of_export? hty
      · exact ih hrest e he

/-- the signature of a literal is of the kind -/
theorem literal_kind {P : Ty → Prop} (hP : Ty.Kind P) {id : Nat} {params : List Parameter} {result : Note}
    {body : Block} {span : Span} (h : (Node.expr (.function id params result body span)).Plain) :
    P (Signature.ty ⟨params.map fun param => .ofNote param.note, .ofNote result⟩) := by
  refine hP.function.2 ⟨fun ty hty => ?_, ?_⟩
  · obtain ⟨param, hparam, rfl⟩ := List.mem_map.1 hty
    exact hP.note (h param.note (List.mem_append_left _ (List.mem_map_of_mem hparam)))
  · exact hP.note (h result (List.mem_append_right _ (List.mem_singleton_self _)))

theorem exists_mem_of_forall₂ {α β : Type} {R : α → β → Prop} {xs : List α} {ys : List β} {x : α}
    (h : List.Forall₂ R xs ys) (hx : x ∈ xs) : ∃ y ∈ ys, R x y := by
  induction h with
  | nil => cases hx
  | @cons x' y xs ys head _ ih =>
    rcases List.mem_cons.1 hx with rfl | hx
    · exact ⟨y, List.mem_cons_self, head⟩
    · obtain ⟨y', hy', hrel⟩ := ih hx
      exact ⟨y', List.mem_cons_of_mem y hy', hrel⟩

theorem only_type {P : Ty → Prop} {cell : Cell} {ty : Ty} (h : F.typeOf? cell.id = some ty) (hkind : P ty) :
    ∀ c ∈ [cell], ∀ ty', F.typeOf? c.id = some ty' → P ty' := by
  intro c hc ty' hty'
  obtain rfl := List.mem_singleton.1 hc
  rw [h] at hty'
  rwa [← Option.some.inj hty']

/-! ## Trees -/

section

open TypedScript.Bound

variable {P : Ty → Prop}

mutual

theorem AcceptsExpr.fit (hP : Ty.Kind P) {exports : String → String → Option Ty} {p : Place} {e : Expr} {ty : Ty}
    {b : Bound.Expr} {r r' : Record} (h : AcceptsExpr keyOf p r e ty b r') (hkeyed : Keyed keyOf p.imports)
    (hplain : ∀ x ∈ e.nodes, x.Plain) (hseen : Seen P exports keyOf p r) (hend : Finished F p.global r') :
    FitExpr F.typeOf? P (r.arena.signature? p.scope) b ty ∧ P ty := by
  have hscope := hseen.place.scope
  cases e with
  | number value span => cases h; exact ⟨.number value, hP.ident _⟩
  | text value span => cases h; exact ⟨.text value, hP.ident _⟩
  | truth value span => cases h; exact ⟨.truth value, hP.ident _⟩
  | ident name span =>
    cases h with
    | @ident _ _ _ v _ found =>
      obtain ⟨x, _, s, hs, hv⟩ := Arena.mem_of_lookup? found
      exact ⟨.read (Arena.typeOf?_later hend.later hend.wellFormed hs hv), hseen.kind name v found⟩
  | self span =>
    cases h with
    | self _ around =>
      rw [around]
      exact ⟨.self _, hseen.signature _ around⟩
  | list items span =>
    cases items with
    | nil => cases h
    | cons first rest =>
      cases h with
      | @list _ _ _ _ _ _ element tys b bs _ head used tail agree =>
        have he := head.effect hscope
        have hend' := hend.before (tail.effect (Nat.lt_of_lt_of_le hscope he.later.size)).later
        have hseen' := hseen.pastExpr he (head.ready hkeyed hseen.place) hend'
        obtain ⟨hhead, hkindHead⟩ := head.fit hP hkeyed (Node.forall_left hplain) hseen hend'
        obtain ⟨htail, hkindTail⟩ := tail.fit hP hkeyed (Node.forall_right hplain) hseen' hend
        rw [he.later.signature? hscope] at htail
        exact ⟨.list (.cons hhead htail) (list_fits (hP.plain hkindHead) (fun t ht => hP.plain (hkindTail t ht)) agree),
          list_kind hP hkindHead⟩
  | function id params result body span =>
    cases body with
    | mk body bodySpan =>
      cases h with
      | @function _ _ opened declared _ _ _ _ _ scope cells bs _ _ opens parameters inside =>
        have hsignature := literal_kind hP (hplain _ List.mem_cons_self)
        have hplace := hseen.place.literal opens parameters
        have hbody := inside.effect hplace.scope
        have hend' : Finished F p.global declared := hend.before hbody.later
        have htypes := parameters.types hend'.wellFormed hend'.later
          (Arena.lt_of_get? ((opened_get? opens scope).trans (if_pos rfl)))
        have hcells : ∀ cell ∈ cells, ∀ ty, F.typeOf? cell.id = some ty → P ty := by
          intro cell hcell ty hty
          obtain ⟨ty', hmem, hty'⟩ := exists_mem_of_forall₂ htypes hcell
          obtain rfl : ty' = ty := Option.some.inj (hty'.symm.trans hty)
          exact (hP.function.1 hsignature).1 ty' hmem
        have hseen' := hseen.literal opens parameters hend' hsignature hcells
        obtain ⟨hfit, _⟩ := inside.fit hP hkeyed (Node.forall_tail hplain) hseen' hend
        rw [literal_signature? opens parameters] at hfit
        exact ⟨.function (.mk htypes hfit), hsignature⟩
  | call callee arguments span =>
    cases h with
    | @call _ _ between after _ _ tys ty _ b bs _ given function used fits =>
      have he := given.effect hscope
      have hend' := hend.before (function.effect (Nat.lt_of_lt_of_le hscope he.later.size)).later
      have hseen' := hseen.pastExpr he (given.ready hkeyed hseen.place) hend'
      obtain ⟨hgiven, hkinds⟩ := given.fit hP hkeyed (Node.forall_right hplain) hseen hend'
      obtain ⟨hfunction, hkindCallee⟩ := function.fit hP hkeyed (Node.forall_left hplain) hseen' hend
      have hr := function.ready hkeyed hseen'.place
      obtain ⟨hfits, hresult⟩ := call_fits hP hr (hend.cleanNow hr) hkindCallee hkinds fits
      rw [he.later.signature? hscope] at hfunction
      exact ⟨.call hgiven hfunction hfits, hresult⟩
  | assign target assigned span =>
    cases h with
    | @assign _ _ _ name _ ty v b _ nameSpan accepted used found fits =>
      have he := accepted.effect hscope
      obtain ⟨haccepted, hkindValue⟩ := accepted.fit hP hkeyed (Node.forall_right hplain) hseen hend
      have hseen' := hseen.pastExpr he (accepted.ready hkeyed hseen.place) hend
      obtain ⟨x, _, s, hs, hv⟩ := Arena.mem_of_lookup? found
      have htype := Arena.typeOf?_later hend.later hend.wellFormed hs hv
      have hwanted := hseen'.kind name v found
      exact ⟨.assign haccepted htype hwanted (assign_fits (hP.plain hwanted) (hP.plain hkindValue) fits), hP.void⟩
  | binary operator left right span =>
    cases h with
    | @binary _ _ between after _ op _ _ lty rty _ l b _ onLeft usedLeft onRight usedRight known fits =>
      have he := onLeft.effect hscope
      have hend' := hend.before (onRight.effect (Nat.lt_of_lt_of_le hscope he.later.size)).later
      have hseen' := hseen.pastExpr he (onLeft.ready hkeyed hseen.place) hend'
      obtain ⟨hleft, hkindLeft⟩ := onLeft.fit hP hkeyed (Node.forall_left hplain) hseen hend'
      obtain ⟨hright, hkindRight⟩ := onRight.fit hP hkeyed (Node.forall_right hplain) hseen' hend
      have hr := onRight.ready hkeyed hseen'.place
      obtain ⟨hfits, hresult⟩ := binary_fits hP hr (hend.cleanNow hr) known hkindLeft hkindRight fits
      rw [he.later.signature? hscope] at hright
      exact ⟨.binary hleft hright hfits, hresult⟩
  | subscript target index span =>
    cases h with
    | @subscript _ _ between after _ _ tty ity _ t i _ onTarget usedTarget onIndex usedIndex fits =>
      have he := onTarget.effect hscope
      have hend' := hend.before (onIndex.effect (Nat.lt_of_lt_of_le hscope he.later.size)).later
      have hseen' := hseen.pastExpr he (onTarget.ready hkeyed hseen.place) hend'
      obtain ⟨htarget, hkindTarget⟩ := onTarget.fit hP hkeyed (Node.forall_left hplain) hseen hend'
      obtain ⟨hindex, hkindIndex⟩ := onIndex.fit hP hkeyed (Node.forall_right hplain) hseen' hend
      have hr := onIndex.ready hkeyed hseen'.place
      obtain ⟨hfits, hresult⟩ := subscript_fits hP hr (hend.cleanNow hr) hkindTarget hkindIndex fits
      rw [he.later.signature? hscope] at hindex
      exact ⟨.subscript htarget hindex hfits, hresult⟩
termination_by structural e

theorem AcceptsExprs.fit (hP : Ty.Kind P) {exports : String → String → Option Ty} {p : Place} {es : List Expr}
    {tys : List (Ty × Span)} {bs : List Bound.Expr} {r r' : Record} (h : AcceptsExprs keyOf p r es tys bs r')
    (hkeyed : Keyed keyOf p.imports) (hplain : ∀ x ∈ Expr.nodesOf es, x.Plain)
    (hseen : Seen P exports keyOf p r) (hend : Finished F p.global r') :
    FitExprs F.typeOf? P (r.arena.signature? p.scope) bs (tys.map Prod.fst) ∧ ∀ given ∈ tys, P given.1 := by
  cases es with
  | nil => cases h; exact ⟨.nil, fun _ h => nomatch h⟩
  | cons e es =>
    cases h with
    | @cons _ _ between _ _ _ ty tys b bs head used tail =>
      have hscope := hseen.place.scope
      have he := head.effect hscope
      have hend' := hend.before (tail.effect (Nat.lt_of_lt_of_le hscope he.later.size)).later
      have hseen' := hseen.pastExpr he (head.ready hkeyed hseen.place) hend'
      rw [Expr.nodesOf] at hplain
      obtain ⟨hhead, hkindHead⟩ := head.fit hP hkeyed (fun x hx => hplain x (List.mem_append_left _ hx)) hseen hend'
      obtain ⟨htail, hkindTail⟩ := tail.fit hP hkeyed (fun x hx => hplain x (List.mem_append_right _ hx)) hseen' hend
      rw [he.later.signature? hscope] at htail
      exact ⟨.cons hhead htail, List.forall_mem_cons.2 ⟨hkindHead, hkindTail⟩⟩
termination_by structural es

theorem AcceptsDeclaration.fit (hP : Ty.Kind P) {exports : String → String → Option Ty} {p : Place}
    {d : Declaration} {ty : Ty} {cell : Cell} {b : Bound.Expr} {r r' : Record}
    (h : AcceptsDeclaration keyOf p r d ty cell b r') (hkeyed : Keyed keyOf p.imports) (hplain : ∀ x ∈ d.nodes, x.Plain)
    (hnote : ∀ note ∈ d.note.toList, (Ty.ofNote note).hasAny = false) (hseen : Seen P exports keyOf p r)
    (hend : Finished F p.global r') :
    ∃ value, FitExpr F.typeOf? P (r.arena.signature? p.scope) b value ∧ F.typeOf? cell.id = some ty ∧ ty.Fits value ∧
      P ty := by
  cases d with
  | mk name note initial span =>
    cases h with
    | @mk _ _ between _ _ _ _ value cell b _ accepted used fits declared =>
      have he := accepted.effect hseen.place.scope
      have hend' := hend.before (newVariable_effect declared).later
      obtain ⟨haccepted, hkindValue⟩ := accepted.fit hP hkeyed hplain hseen hend'
      have htype := newVariable_type declared (Nat.lt_of_lt_of_le hseen.place.scope he.later.size) hend.wellFormed
        hend.later
      refine ⟨value, haccepted, htype, ?_⟩
      cases note with
      | none => exact ⟨Or.inr rfl, hkindValue⟩
      | some note =>
        have hwanted := hP.note (hnote note (List.mem_singleton_self _))
        exact ⟨Ty.fits_of_equals (hP.plain hwanted) (hP.plain hkindValue) fits, hwanted⟩
termination_by structural d

theorem AcceptsStmt.fit (hP : Ty.Kind P) {exports : String → String → Option Ty} {p : Place} {s : Stmt}
    {b : Bound.Stmt} {r r' : Record} (h : AcceptsStmt keyOf p r s b r') (hkeyed : Keyed keyOf p.imports)
    (hplain : ∀ x ∈ s.nodes, x.Plain) (hseen : Seen P exports keyOf p r) (hend : Finished F p.global r') :
    FitStmt F.typeOf? P exports (r.arena.signature? p.scope) b ∧
      ∀ cell ∈ b.declared, ∀ ty, F.typeOf? cell.id = some ty → P ty := by
  have hscope := hseen.place.scope
  cases s with
  | cond condition body span =>
    cases body with
    | mk body bodySpan =>
      cases h with
      | @cond _ _ between _ _ _ ty b bs _ _ test used fits inside =>
        have he := test.effect hscope
        have hend' := hend.before (inside.effect (Nat.lt_of_lt_of_le hscope he.later.size)).later
        have hseen' := hseen.pastExpr he (test.ready hkeyed hseen.place) hend'
        obtain ⟨htest, hkindTest⟩ := test.fit hP hkeyed (Node.forall_left hplain) hseen hend'
        obtain ⟨hinside, hkinds⟩ := inside.fit hP hkeyed (Node.forall_right hplain) hseen'.conditional hend
        rw [he.later.signature? hscope] at hinside
        exact ⟨.cond htest (Ty.fits_of_equals rfl (hP.plain hkindTest) fits) hinside, hkinds⟩
  | declare d =>
    cases h with
    | @declare _ _ _ _ ty cell b declared =>
      obtain ⟨value, haccepted, htype, hfits, hkindCell⟩ := declared.fit hP hkeyed (Node.forall_tail hplain)
        (hplain _ List.mem_cons_self) hseen hend
      exact ⟨.declare haccepted htype hfits, only_type htype hkindCell⟩
  | giveBack value span =>
    cases value with
    | none =>
      cases h with
      | giveNothing _ fits =>
        obtain ⟨signature, hsignature, hvoid⟩ := giveNothing_fits hseen.place (hend.cleanNow hseen.place) fits
        rw [hsignature]
        exact ⟨.giveNothing hvoid, fun _ h => nomatch h⟩
    | some e =>
      cases h with
      | giveBack _ given used fits =>
        have he := given.effect hscope
        have hr := given.ready hkeyed hseen.place
        obtain ⟨hgiven, hkindValue⟩ := given.fit hP hkeyed (Node.forall_tail hplain) hseen hend
        obtain ⟨signature, hsignature, hfits⟩ := giveBack_fits hP hr (hend.cleanNow hr) hkindValue
          (hseen.pastExpr he hr hend).signature fits
        rw [he.later.signature? hscope] at hsignature
        rw [hsignature] at hgiven ⊢
        exact ⟨.giveBack hgiven hfits, fun _ h => nomatch h⟩
  | eval e span =>
    cases h with
    | eval _ evaluated =>
      obtain ⟨hevaluated, _⟩ := evaluated.fit hP hkeyed (Node.forall_tail hplain) hseen hend
      exact ⟨.eval hevaluated, fun _ h => nomatch h⟩
  | pub d span =>
    cases h with
    | @pub _ _ _ _ _ ty cell b _ top declared exported =>
      obtain ⟨value, haccepted, htype, hfits, hkindCell⟩ := declared.fit hP hkeyed (Node.forall_tail hplain)
        (hplain _ List.mem_cons_self) hseen (hend.before (addExport_effect exported).later)
      exact ⟨.declare haccepted htype hfits, only_type htype hkindCell⟩
  | use path names span =>
    cases h with
    | @use _ _ _ _ key _ dependency cells _ top linked named found imports =>
      obtain ⟨_, hexports⟩ := hseen.imports top path dependency key linked named
      have hglobal : p.global < r.arena.scopes.size := by rwa [← Place.scope_of_atTop top]
      have htypes : ∀ n ∈ cells, ∃ ty, P ty ∧ exports key n.1 = some ty ∧ F.typeOf? n.2.id = some ty := by
        intro n hn
        obtain ⟨ty, hmem, hty⟩ := imports.types hglobal hend.wellFormed hend.later n hn
        obtain ⟨hkindExport, hexport⟩ := hexports _ (mem_exports_of_importedAs found _ hmem)
        exact ⟨ty, hkindExport, hexport, hty⟩
      refine ⟨.use fun n hn => ?_, fun cell hcell => ?_⟩
      · obtain ⟨ty, _, hexport, hty⟩ := htypes n hn
        exact ⟨ty, hexport, hty⟩
      · obtain ⟨n, hn, rfl⟩ := List.mem_map.1 hcell
        obtain ⟨ty, hkindExport, _, hty⟩ := htypes n hn
        exact only_type hty hkindExport n.2 (List.mem_singleton_self _)
termination_by structural s

theorem AcceptsStmts.fit (hP : Ty.Kind P) {exports : String → String → Option Ty} {p : Place} {ss : List Stmt}
    {bs : List Bound.Stmt} {r r' : Record} (h : AcceptsStmts keyOf p r ss bs r') (hkeyed : Keyed keyOf p.imports)
    (hplain : ∀ x ∈ Stmt.nodesOf ss, x.Plain) (hseen : Seen P exports keyOf p r) (hend : Finished F p.global r') :
    FitStmts F.typeOf? P exports (r.arena.signature? p.scope) bs ∧
      ∀ cell ∈ Bound.Stmt.declaredIn bs, ∀ ty, F.typeOf? cell.id = some ty → P ty := by
  cases ss with
  | nil => cases h; exact ⟨.nil, fun _ h => nomatch h⟩
  | cons s ss =>
    cases h with
    | @cons _ _ between _ _ _ b bs head tail =>
      have hscope := hseen.place.scope
      have he := head.effect hscope
      rw [Stmt.nodesOf] at hplain
      have hend' := hend.before (tail.effect (Nat.lt_of_lt_of_le hscope he.later.size)).later
      obtain ⟨hhead, hkindHead⟩ := head.fit hP hkeyed (fun x hx => hplain x (List.mem_append_left _ hx)) hseen hend'
      have hseen' := hseen.past he (head.ready hkeyed hseen.place) hend' hkindHead
      obtain ⟨htail, hkindTail⟩ := tail.fit hP hkeyed (fun x hx => hplain x (List.mem_append_right _ hx)) hseen' hend
      rw [he.later.signature? hscope] at htail
      refine ⟨.cons hhead htail, fun cell hcell => ?_⟩
      rcases List.mem_append.1 hcell with hcell | hcell
      · exact hkindHead cell hcell
      · exact hkindTail cell hcell
termination_by structural ss

end

end

end Check

end TypedScript
