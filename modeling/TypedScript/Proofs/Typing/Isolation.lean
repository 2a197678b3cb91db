/-
Checking a module is isolated. Two checks of a module, each in an arena of its own and with imports that export the
same, do the same step by step: what has been built behind both arenas is one arena, moved behind either of them, so
that ids of scopes and cells differ by constants and all else is equal. Neither check looks at or changes a scope that
was there before, but for the exports of what the module imports.

- `Check.Twins`: what has been built by two checks that have done the same.
- `Check.Alike`: two pieces of checking that do the same from twins on.
- `Check.alike_stmts`: so do the same statements at places of both checks.
- `checkModule_isolated`: checking a module in two arenas.
-/
import TypedScript.Proofs.Typing.Arena.Append
import TypedScript.Proofs.Typing.Module

namespace TypedScript

namespace Check

variable {α α' β β' : Type} {a a' m : Arena} {i j : Nat} {conditional : Bool} {imports imports' : Imports}

/-! ## Twins -/

/-- two checks, behind an arena each, have built the same; the scope `i` of it is there -/
inductive Twins (a a' : Arena) (i : Nat) : Record → Record → Prop
  | mk {m : Arena} {functions : Table Nat ScopeId} (hm : m.Ordered) (hi : i < m.scopes.size) :
      Twins a a' i ⟨a.append m, functions.moved a.scopes.size⟩ ⟨a'.append m, functions.moved a'.scopes.size⟩

theorem Twins.outer {r r' : Record} (h : Twins a a' i r r') (hj : j ≤ i) : Twins a a' j r r' := by
  cases h with
  | mk hm hi => exact .mk hm (Nat.lt_of_le_of_lt hj hi)

/-- from twins on, two pieces of checking give related results and leave twins -/
def Alike (a a' : Arena) (i : Nat) (R : α → α' → Prop) (x : Check α) (x' : Check α') : Prop :=
  ∀ r r', Twins a a' i r r' → R (x r).1 (x' r').1 ∧ Twins a a' i (x r).2 (x' r').2

/-- the place in the scope `i` of a module that is checked behind an arena -/
def within (a : Arena) (imports : Imports) (i : Nat) (conditional : Bool) : Place :=
  ⟨imports, a.scopes.size, a.scopes.size + i, conditional⟩

theorem atTop_within (a : Arena) (imports : Imports) (i : Nat) (conditional : Bool) :
    (within a imports i conditional).atTop = (decide (i = 0) && !conditional) := by
  simp [Place.atTop, within]

variable {R : α → α' → Prop} {S : β → β' → Prop}

theorem Alike.pure {b : α} {b' : α'} (h : R b b') : Alike a a' i R (pure b) (pure b') := fun _ _ hr => ⟨h, hr⟩

theorem alike_pure (b : α) : Alike a a' i Eq (pure b) (pure b) := .pure rfl

theorem Alike.bind {x : Check α} {x' : Check α'} {f : α → Check β} {f' : α' → Check β'} (hx : Alike a a' i R x x')
    (hf : ∀ b b', R b b' → Alike a a' i S (f b) (f' b')) : Alike a a' i S (x >>= f) (x' >>= f') := by
  intro r r' hr
  obtain ⟨hresult, hr'⟩ := hx r r' hr
  exact hf _ _ hresult _ _ hr'

/-- a piece with one result in both checks, and then another -/
theorem Alike.same {x x' : Check α} {f : α → Check β} {f' : α → Check β'} (hx : Alike a a' i Eq x x')
    (hf : ∀ b, Alike a a' i S (f b) (f' b)) : Alike a a' i S (x >>= f) (x' >>= f') :=
  hx.bind fun b _ h => h ▸ hf b

theorem alike_get {f : Record → Check β} {f' : Record → Check β'}
    (h : ∀ r r', Twins a a' i r r' → Alike a a' i S (f r) (f' r')) : Alike a a' i S (get >>= f) (get >>= f') :=
  fun r r' hr => h r r' hr r r' hr

theorem Alike.discard {x : Check α} {x' : Check α'} (hx : Alike a a' i R x x') :
    Alike a a' i Eq (discard x) (discard x') := hx.bind fun _ _ _ => alike_pure ()

/-! ## What twins are asked -/

theorem Twins.lookup? {r r' : Record} (h : Twins a a' i r r') (name : String) :
    (∃ v v', r.arena.lookup? (a.scopes.size + i) name = some v ∧ r'.arena.lookup? (a'.scopes.size + i) name = some v' ∧
      v.ty = v'.ty) ∨
    r.arena.lookup? (a.scopes.size + i) name = none ∧ r'.arena.lookup? (a'.scopes.size + i) name = none := by
  cases h with
  | @mk m functions hm hi =>
    dsimp only
    rw [Arena.lookup?_append hm hi, Arena.lookup?_append hm hi]
    cases m.lookup? i name with
    | none => exact .inr ⟨rfl, rfl⟩
    | some v => exact .inl ⟨_, _, rfl, rfl, rfl⟩

theorem Twins.signature? {r r' : Record} (h : Twins a a' i r r') :
    r.arena.signature? (a.scopes.size + i) = r'.arena.signature? (a'.scopes.size + i) := by
  cases h with
  | mk hm hi =>
    dsimp only
    rw [Arena.signature?_append, Arena.signature?_append]

/-- scopes that two arenas had before and that export the same -/
structure SameExports (a a' : Arena) (x x' : ScopeId) : Prop where
  left : a.isGlobal x = true
  right : a'.isGlobal x' = true
  exports : a.exports x = a'.exports x'

theorem Twins.exports {r r' : Record} (h : Twins a a' i r r') {x x' : ScopeId} (hx : SameExports a a' x x') :
    r.arena.exports x = r'.arena.exports x' := by
  cases h with
  | mk hm hi =>
    dsimp only
    rw [Arena.exports_append_left (Arena.lt_of_isGlobal hx.left),
      Arena.exports_append_left (Arena.lt_of_isGlobal hx.right), hx.exports]

/-! ## What is done to twins -/

/-- a change at a scope that is one change behind both arenas -/
theorem alike_change (op : ScopeId → Arena → α × Arena) (R : α → α → Prop)
    (h : ∀ m : Arena, m.Ordered → i < m.scopes.size → ∃ n, m.Fills n ∧
      R (op (a.scopes.size + j) (a.append m)).1 (op (a'.scopes.size + j) (a'.append m)).1 ∧
      (op (a.scopes.size + j) (a.append m)).2 = a.append n ∧
      (op (a'.scopes.size + j) (a'.append m)).2 = a'.append n) :
    Alike a a' i R
      (modifyGet fun r => ((op (a.scopes.size + j) r.arena).1, { r with arena := (op (a.scopes.size + j) r.arena).2 }))
      (modifyGet fun r =>
        ((op (a'.scopes.size + j) r.arena).1, { r with arena := (op (a'.scopes.size + j) r.arena).2 })) := by
  rintro _ _ ⟨hm, hi⟩
  obtain ⟨n, hfills, hresult, hleft, hright⟩ := h _ hm hi
  refine ⟨hresult, ?_⟩
  change Twins a a' i ⟨(op _ (a.append _)).2, _⟩ ⟨(op _ (a'.append _)).2, _⟩
  rw [hleft, hright]
  exact .mk (hm.fills hfills) (hfills.size ▸ hi)

theorem alike_report (position : Position) (text : String) :
    Alike a a' i Eq (report (within a imports i conditional) position text)
      (report (within a' imports' i conditional) position text) :=
  alike_change (fun id b => ((), b.report id position text)) Eq fun m hm hi =>
    ⟨_, m.fills_report i position text, rfl, Arena.report_append hm hi position text,
      Arena.report_append hm hi position text⟩

theorem alike_refuse (position : Position) (text : String) :
    Alike a a' i Eq (refuse (within a imports i conditional) position text)
      (refuse (within a' imports' i conditional) position text) :=
  (alike_report position text).same fun _ => alike_pure Ty.error

/-- two results of a declaration: a cell each, or none -/
def SameFate (cell cell' : Option Cell) : Prop := cell.isSome = cell'.isSome

theorem alike_newVariable (hj : j ≤ i) (name : String) (ty : Ty) (position : Position) :
    Alike a a' i SameFate (newVariable (a.scopes.size + j) name ty position)
      (newVariable (a'.scopes.size + j) name ty position) :=
  alike_change (fun id b => b.newVariable id name ty position) SameFate fun m hm hi => by
    have hj := Nat.lt_of_le_of_lt hj hi
    rw [Arena.newVariable_append hm hj, Arena.newVariable_append hm hj]
    exact ⟨_, m.fills_newVariable j name ty position, by simp [SameFate], rfl, rfl⟩

theorem alike_newParameter (name : String) (ty : Ty) (position : Position) :
    Alike a a' i SameFate (newParameter (a.scopes.size + i) name ty position)
      (newParameter (a'.scopes.size + i) name ty position) :=
  alike_change (fun id b => b.newParameter id name ty position) SameFate fun m hm hi => by
    rw [Arena.newParameter_append hm hi, Arena.newParameter_append hm hi]
    exact ⟨_, m.fills_newParameter i name ty position, by simp [SameFate], rfl, rfl⟩

theorem alike_addExport (name : String) (ty : Ty) (position : Position) :
    Alike a a' i Eq (addExport (a.scopes.size + i) name ty position)
      (addExport (a'.scopes.size + i) name ty position) :=
  alike_change (fun id b => b.addExport id name ty position) Eq fun m hm hi => by
    rw [Arena.addExport_append hm hi, Arena.addExport_append hm hi]
    exact ⟨_, m.fills_addExport i name ty position, rfl, rfl, rfl⟩

/-- a literal's scope has one index behind both arenas, and what is built in it is in the scope around it too -/
theorem alike_openScope (id : Nat) (signature : Signature) {f : ScopeId → Check β} {f' : ScopeId → Check β'}
    (hf : ∀ j, i ≤ j → Alike a a' j S (f (a.scopes.size + j)) (f' (a'.scopes.size + j))) :
    Alike a a' i S (openScope (within a imports i conditional) id signature >>= f)
      (openScope (within a' imports' i conditional) id signature >>= f') := by
  rintro _ _ @⟨m, functions, hm, hi⟩
  have opened (b : Arena) (imports : Imports) {γ : Type} (g : ScopeId → Check γ) :
      (openScope (within b imports i conditional) id signature >>= g) ⟨b.append m, functions.moved b.scopes.size⟩ =
        g (b.scopes.size + m.scopes.size)
          ⟨b.append (m.newLocal i signature).2, (functions.insert id m.scopes.size).moved b.scopes.size⟩ := by
    change g ((b.append m).newLocal (b.scopes.size + i) signature).1
      ⟨((b.append m).newLocal (b.scopes.size + i) signature).2,
        (functions.moved b.scopes.size).insert id ((b.append m).newLocal (b.scopes.size + i) signature).1⟩ = _
    rw [Arena.newLocal_append, ← Table.insert_moved]
    rfl
  rw [opened, opened]
  -- the literal's scope is the next one behind either arena, and its parent is there
  have hinside : m.scopes.size < (m.newLocal i signature).2.scopes.size := by
    unfold Arena.newLocal
    rw [Arena.size_add]
    exact Nat.lt_succ_self _
  obtain ⟨hresult, htwins⟩ := hf m.scopes.size (Nat.le_of_lt hi) _ _ (.mk (hm.newLocal hi signature) hinside)
  exact ⟨hresult, htwins.outer (Nat.le_of_lt hi)⟩

/-! ## Pieces of a check -/

theorem alike_asValue (span : Span) (ty : Ty) :
    Alike a a' i Eq (asValue (within a imports i conditional) span ty)
      (asValue (within a' imports' i conditional) span ty) := by
  unfold asValue
  split
  · exact alike_refuse _ _
  · exact alike_pure ty

theorem alike_ident (name : String) (span : Span) :
    Alike a a' i Eq (ident (within a imports i conditional) name span)
      (ident (within a' imports' i conditional) name span) := by
  refine alike_get fun r r' hr => ?_
  dsimp only [within]
  rcases hr.lookup? name with ⟨v, v', hv, hv', hty⟩ | ⟨hv, hv'⟩
  · rw [hv, hv']
    exact .pure hty
  · rw [hv, hv']
    exact alike_refuse _ _

theorem alike_selfReference (span : Span) :
    Alike a a' i Eq (selfReference (within a imports i conditional) span)
      (selfReference (within a' imports' i conditional) span) := by
  refine alike_get fun r r' hr => ?_
  dsimp only [within]
  rw [hr.signature?]
  split
  · exact alike_pure _
  · exact alike_refuse _ _

theorem alike_binary (operator : String) (left right : Ty) (span : Span) :
    Alike a a' i Eq (binary (within a imports i conditional) operator left right span)
      (binary (within a' imports' i conditional) operator left right span) := by
  unfold binary
  split
  · exact alike_pure _
  split
  · exact alike_pure _
  · exact alike_refuse _ _
  · exact alike_refuse _ _

theorem alike_subscript (target index : Ty) (indexSpan span : Span) :
    Alike a a' i Eq (subscript (within a imports i conditional) target index indexSpan span)
      (subscript (within a' imports' i conditional) target index indexSpan span) := by
  unfold subscript
  split
  · exact alike_pure _
  split
  · split
    · exact alike_pure _
    · exact alike_refuse _ _
  · split
    · exact alike_pure _
    · exact alike_refuse _ _

theorem alike_compareArguments (index : Nat) (params : List Ty) (arguments : List (Ty × Span)) :
    Alike a a' i Eq (compareArguments (within a imports i conditional) index params arguments)
      (compareArguments (within a' imports' i conditional) index params arguments) := by
  induction params generalizing index arguments with
  | nil => exact alike_pure ()
  | cons expected params ih =>
    cases arguments with
    | nil => exact alike_pure ()
    | cons argument arguments =>
      obtain ⟨received, span⟩ := argument
      unfold compareArguments
      dsimp only
      split
      · exact (alike_report _ _).same fun _ => ih (index + 1) arguments
      · exact ih (index + 1) arguments

theorem alike_call (callee : Ty) (arguments : List (Ty × Span)) (span : Span) :
    Alike a a' i Eq (call (within a imports i conditional) callee arguments span)
      (call (within a' imports' i conditional) callee arguments span) := by
  unfold call
  split
  · exact alike_pure _
  · exact alike_pure _
  · split
    · exact alike_refuse _ _
    · exact (alike_compareArguments _ _ _).same fun _ => alike_pure _
  · exact alike_refuse _ _

theorem alike_assign (target : Expr) (value : Ty) (valueSpan : Span) :
    Alike a a' i Eq (assign (within a imports i conditional) target value valueSpan)
      (assign (within a' imports' i conditional) target value valueSpan) := by
  unfold assign
  split
  · next name span =>
    refine alike_get fun r r' hr => ?_
    dsimp only [within]
    rcases hr.lookup? name with ⟨v, v', hv, hv', hty⟩ | ⟨hv, hv'⟩
    · rw [hv, hv']
      dsimp only
      rw [hty]
      split
      · exact (alike_report _ _).same fun _ => alike_pure _
      · exact alike_pure _
    · rw [hv, hv']
      exact alike_refuse _ _
  · exact alike_refuse _ _

theorem alike_declare (name : String) (note : Option Note) (value : Ty) (valueSpan span : Span) :
    Alike a a' i Eq (declare (within a imports i conditional) name note value valueSpan span)
      (declare (within a' imports' i conditional) name note value valueSpan span) := by
  have declared (ty : Ty) : Alike a a' i Eq
      (do let cell ← newVariable (a.scopes.size + i) name ty span.start; return cell.map fun _ => ty)
      (do let cell ← newVariable (a'.scopes.size + i) name ty span.start; return cell.map fun _ => ty) := by
    refine (alike_newVariable (Nat.le_refl i) name ty span.start).bind fun cell cell' hcell => .pure ?_
    cases cell <;> cases cell' <;> simp_all [SameFate]
  unfold declare
  dsimp only
  split
  · exact (alike_report _ _).same fun _ => declared _
  · exact declared _

theorem alike_giveBack (value : Option (Ty × Span)) (span : Span) :
    Alike a a' i Eq (giveBack (within a imports i conditional) value span)
      (giveBack (within a' imports' i conditional) value span) := by
  refine alike_get fun r r' hr => ?_
  dsimp only [within]
  rw [hr.signature?]
  split
  · exact alike_report _ _
  split
  · split
    · exact alike_report _ _
    · exact alike_pure _
  · split
    · exact alike_pure _
    split
    · exact alike_report _ _
    split
    · exact alike_report _ _
    · exact alike_pure _

theorem alike_importedNames {x x' : ScopeId} (hx : SameExports a a' x x') (path : String) (span : Span)
    (names : List String) :
    Alike a a' i Eq (importedNames (within a imports i conditional) path x span names)
      (importedNames (within a' imports' i conditional) path x' span names) := by
  induction names with
  | nil => exact alike_pure _
  | cons name names ih =>
    refine alike_get fun r r' hr => ?_
    rw [Arena.export?, Arena.export?, hr.exports hx]
    split
    · exact ih.same fun _ => alike_pure _
    · exact (alike_report _ _).same fun _ => ih

theorem alike_declareImported (span : Span) (names : List (String × Ty)) :
    Alike a a' i Eq (declareImported (within a imports i conditional) span names)
      (declareImported (within a' imports' i conditional) span names) := by
  induction names with
  | nil => exact alike_pure _
  | cons name names ih => exact (alike_newVariable (Nat.zero_le i) _ _ _).bind fun _ _ _ => ih

/-- two import tables send the same paths to modules that export the same -/
def SameImports (a a' : Arena) (imports imports' : Imports) : Prop :=
  ∀ path, Option.Rel (SameExports a a') (imports.find? path) (imports'.find? path)

theorem alike_use (himports : SameImports a a' imports imports') (path : String) (names : Option (List String))
    (span : Span) : Alike a a' i Eq (use (within a imports i conditional) path names span)
      (use (within a' imports' i conditional) path names span) := by
  unfold use
  rw [atTop_within, atTop_within]
  split
  · exact alike_report _ _
  have hpath := himports path
  dsimp only [within]
  generalize imports.find? path = x at hpath ⊢
  generalize imports'.find? path = x' at hpath ⊢
  cases hpath with
  | none => exact alike_report _ _
  | some hx =>
    dsimp only
    split
    · exact (alike_importedNames hx path span _).same fun _ => alike_declareImported span _
    · refine alike_get fun r r' hr => ?_
      rw [hr.exports hx]
      exact alike_declareImported span _

theorem alike_declareParams (params : List Parameter) :
    Alike a a' i Eq (declareParams (a.scopes.size + i) params) (declareParams (a'.scopes.size + i) params) := by
  induction params with
  | nil => exact alike_pure _
  | cons param params ih => exact (alike_newParameter _ _ _).bind fun _ _ _ => ih

/-! ## Trees -/

/-- a value is checked and asked not to be a call that gives nothing -/
theorem alike_value {e : Expr} {f : Ty → Check β} {f' : Ty → Check β'}
    (he : Alike a a' i Eq (expr (within a imports i conditional) e) (expr (within a' imports' i conditional) e))
    (hf : ∀ ty, Alike a a' i S (f ty) (f' ty)) :
    Alike a a' i S (expr (within a imports i conditional) e >>= asValue (within a imports i conditional) e.span >>= f)
      (expr (within a' imports' i conditional) e >>= asValue (within a' imports' i conditional) e.span >>= f') :=
  (he.same fun ty => alike_asValue e.span ty).same hf

-- by recursion on the tree, for every scope of what is built: a literal's body stands in a scope of its own

mutual

theorem alike_expr (himports : SameImports a a' imports imports') (e : Expr) (i : Nat) (conditional : Bool) :
    Alike a a' i Eq (expr (within a imports i conditional) e) (expr (within a' imports' i conditional) e) := by
  cases e with
  | number | text | truth =>
    unfold expr
    exact alike_pure _
  | ident name span =>
    unfold expr
    exact alike_ident name span
  | self span =>
    unfold expr
    exact alike_selfReference span
  | list items span =>
    unfold expr
    cases items with
    | nil =>
      unfold list
      exact alike_refuse _ _
    | cons first rest =>
      unfold list
      exact alike_value (alike_expr himports first i conditional) fun element =>
        (alike_elements himports element rest i conditional).same fun agree => alike_pure _
  | function id params result body span =>
    cases body with
    | mk body bodySpan =>
      unfold expr block
      exact alike_openScope id _ fun j _ => (alike_declareParams params).same fun _ =>
        (alike_stmts himports body j conditional).same fun _ => alike_pure _
  | call callee arguments span =>
    unfold expr
    exact (alike_values himports arguments i conditional).same fun received =>
      alike_value (alike_expr himports callee i conditional) fun function => alike_call function received span
  | assign target assigned span =>
    unfold expr
    exact alike_value (alike_expr himports assigned i conditional) fun ty => alike_assign target ty assigned.span
  | binary operator left right span =>
    unfold expr
    exact alike_value (alike_expr himports left i conditional) fun l =>
      alike_value (alike_expr himports right i conditional) fun r => alike_binary operator l r span
  | subscript target index span =>
    unfold expr
    exact alike_value (alike_expr himports target i conditional) fun t =>
      alike_value (alike_expr himports index i conditional) fun x => alike_subscript t x index.span span
termination_by structural e

theorem alike_values (himports : SameImports a a' imports imports') (es : List Expr) (i : Nat) (conditional : Bool) :
    Alike a a' i Eq (values (within a imports i conditional) es) (values (within a' imports' i conditional) es) := by
  cases es with
  | nil =>
    unfold values
    exact alike_pure _
  | cons e es =>
    unfold values
    exact alike_value (alike_expr himports e i conditional) fun ty =>
      (alike_values himports es i conditional).same fun tys => alike_pure _
termination_by structural es

theorem alike_elements (himports : SameImports a a' imports imports') (element : Ty) (es : List Expr) (i : Nat)
    (conditional : Bool) : Alike a a' i Eq (elements (within a imports i conditional) element es)
      (elements (within a' imports' i conditional) element es) := by
  cases es with
  | nil =>
    unfold elements
    exact alike_pure _
  | cons e es =>
    unfold elements
    refine alike_value (alike_expr himports e i conditional) fun ty => ?_
    split
    · exact alike_elements himports element es i conditional
    · exact (alike_report _ _).same fun _ =>
        (alike_values himports es i conditional).discard.same fun _ => alike_pure _
termination_by structural es

theorem alike_declaration (himports : SameImports a a' imports imports') (d : Declaration) (i : Nat)
    (conditional : Bool) : Alike a a' i Eq (declaration (within a imports i conditional) d)
      (declaration (within a' imports' i conditional) d) := by
  cases d with
  | mk name note initial span =>
    unfold declaration
    exact alike_value (alike_expr himports initial i conditional) fun ty => alike_declare name note ty initial.span span
termination_by structural d

theorem alike_stmt (himports : SameImports a a' imports imports') (s : Stmt) (i : Nat) (conditional : Bool) :
    Alike a a' i Eq (stmt (within a imports i conditional) s) (stmt (within a' imports' i conditional) s) := by
  cases s with
  | cond condition body span =>
    cases body with
    | mk body bodySpan =>
      unfold stmt block
      refine alike_value (alike_expr himports condition i conditional) fun ty => ?_
      dsimp only
      split
      · exact (alike_report _ _).same fun _ => alike_stmts himports body i true
      · exact alike_stmts himports body i true
  | declare d =>
    unfold stmt
    exact (alike_declaration himports d i conditional).discard
  | giveBack value span =>
    cases value with
    | none =>
      unfold stmt
      exact alike_giveBack none span
    | some e =>
      unfold stmt
      exact alike_value (alike_expr himports e i conditional) fun ty => alike_giveBack _ span
  | eval e span =>
    unfold stmt
    exact (alike_expr himports e i conditional).discard
  | pub d span =>
    unfold stmt
    rw [atTop_within, atTop_within]
    split
    · exact (alike_report _ _).same fun _ => (alike_declaration himports d i conditional).discard
    · refine (alike_declaration himports d i conditional).same fun declared => ?_
      cases declared with
      | none => exact alike_pure _
      | some ty => exact (alike_addExport d.name ty span.start).discard
  | use path names span =>
    unfold stmt
    exact alike_use himports path names span
termination_by structural s

theorem alike_stmts (himports : SameImports a a' imports imports') (ss : List Stmt) (i : Nat) (conditional : Bool) :
    Alike a a' i Eq (stmts (within a imports i conditional) ss) (stmts (within a' imports' i conditional) ss) := by
  cases ss with
  | nil =>
    unfold stmts
    exact alike_pure _
  | cons s ss =>
    unfold stmts
    exact (alike_stmt himports s i conditional).same fun _ => alike_stmts himports ss i conditional
termination_by structural ss

end

/-! ## Modules -/

/-- what two checks of a module start with -/
theorem twins_start (a a' : Arena) : Twins a a' 0 (start a) (start a') := by
  have opened (b : Arena) : start b = ⟨b.append Arena.empty.newGlobal.2, Table.empty.moved b.scopes.size⟩ := by
    have hnew := Arena.newGlobal_append b .empty
    rw [Arena.append_empty] at hnew
    rw [start, hnew]
    rfl
  rw [opened, opened]
  exact .mk (Arena.extension_newGlobal Arena.wellFormed_empty).wellFormed.ordered (by decide)

/-- two checks of a module end as twins -/
theorem twins_finish (himports : SameImports a a' imports imports') (body : Block) :
    Twins a a' 0 (finish imports a body) (finish imports' a' body) := by
  obtain ⟨body, span⟩ := body
  unfold finish past block
  exact (alike_stmts himports body 0 false _ _ (twins_start a a')).2

end Check

/-- A module that is checked in two arenas, with imports that export the same, has in both the same diagnostics, exports
and function literals. The scopes and cells that are made for it are the same but for where they are moved to, and no
scope that was there before changes. -/
theorem checkModule_isolated {a a' b b' : Arena} {imports imports' : Imports} {scopes scopes' : ModuleScopes}
    (body : Block) (himports : Check.SameImports a a' imports imports')
    (hleft : checkModule a body imports = (scopes, b)) (hright : checkModule a' body imports' = (scopes', b')) :
    b.diagnostics scopes.global = b'.diagnostics scopes'.global ∧
    b.exports scopes.global = b'.exports scopes'.global ∧
    scopes.functions.keys = scopes'.functions.keys ∧
    (∃ (m : Arena) (functions : Table Nat ScopeId), b = a.append m ∧ b' = a'.append m ∧
      scopes = ⟨a.scopes.size, functions.moved a.scopes.size⟩ ∧
      scopes' = ⟨a'.scopes.size, functions.moved a'.scopes.size⟩) ∧
    (∀ x < a.scopes.size, b.get? x = a.get? x) ∧ ∀ x < a'.scopes.size, b'.get? x = a'.get? x := by
  have htwins := Check.twins_finish himports body
  rw [Check.checkModule_eq] at hleft hright
  generalize Check.finish imports a body = r at htwins hleft
  generalize Check.finish imports' a' body = r' at htwins hright
  obtain @⟨m, functions, hm, hi⟩ := htwins
  cases hleft
  cases hright
  refine ⟨?_, ?_, by simp, ⟨m, functions, rfl, rfl, rfl, rfl⟩, ?_, ?_⟩
  · exact (Arena.diagnostics_append hm hi).trans (Arena.diagnostics_append hm hi).symm
  · exact (Arena.exports_append a m 0).trans (Arena.exports_append a' m 0).symm
  · exact fun x hx => Arena.get?_append_left hx
  · exact fun x hx => Arena.get?_append_left hx

/-- an arena with a module of builtins, first or behind another module -/
def printer (a : Arena) : Arena := (a.newNative [("print", .function [.any] .void)]).2

/-- the import of that module, an exported function and a name that is not declared -/
def shouting : Block :=
  ⟨[.use "io" none .null,
    .pub ⟨"shout", none, .function 0 [⟨"s", .ident "Str", .null⟩] .void
      ⟨[.eval (.call (.ident "print" .null) [.ident "s" .null] .null) .null], .null⟩ .null, .null⟩ .null,
    .eval (.ident "missing" .null) .null], .null⟩

theorem sameImports_printer : Check.SameImports (printer .empty) (printer Arena.empty.newGlobal.2)
    (Table.empty.insert "io" 0) (Table.empty.insert "io" 1) := by
  intro path
  rw [Table.find?_insert, Table.find?_insert]
  split
  · exact .some ⟨rfl, rfl, rfl⟩
  · exact .none

theorem checkModule_isolated_shouting :
    let (scopes, b) := checkModule (printer .empty) shouting (Table.empty.insert "io" 0)
    let (scopes', b') := checkModule (printer Arena.empty.newGlobal.2) shouting (Table.empty.insert "io" 1)
    b.diagnostics scopes.global = b'.diagnostics scopes'.global ∧ b.get? 0 = (printer .empty).get? 0 := by
  obtain ⟨hdiagnostics, -, -, -, hold, -⟩ := checkModule_isolated shouting sameImports_printer rfl rfl
  exact ⟨hdiagnostics, hold 0 (by decide)⟩

end TypedScript
