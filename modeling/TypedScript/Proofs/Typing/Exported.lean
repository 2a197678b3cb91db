/-
What a module exports. Of the declarations that are marked for export, those that stand directly in the body of the
module are exported, in their order, each with the name and the type that are recorded for its variable; left out are
those whose name the body has declared before, directly, inside of a condition or by an import. This is so of every
module that is checked, with whatever is found wrong with it, and in every arena.

- `Check.leaves_expr`: an expression declares and exports nothing in the scope of its module.
- `Check.adds_stmts`: what statements directly in the body declare and export.
- `checkModule_exports`: the exports of a module.
- `Arena.nodup_newNative`: a native module exports no name twice.
-/
import Mathlib.Data.List.Nodup
import TypedScript.Proofs.Typing.Arena.Adds
import TypedScript.Proofs.Typing.Derivation

namespace TypedScript

/-! ## Declared names -/

mutual

/-- the names that a statement declares in the scope it stands in, those inside of a condition too;
`exports` gives the exports of the module that a path leads to. An import declares names only where it
stands directly in a module's body. -/
def Stmt.declares (exports : String → List (String × Ty)) (atTop : Bool) : Stmt → List String
  | .cond _ ⟨body, _⟩ _ => Stmt.declaresIn exports false body
  | .declare d => [d.name]
  | .pub d _ => [d.name]
  | .use path names _ => if atTop then Compile.importedNames (exports path) names else []
  | .giveBack _ _ => []
  | .eval _ _ => []

def Stmt.declaresIn (exports : String → List (String × Ty)) (atTop : Bool) : List Stmt → List String
  | [] => []
  | s :: ss => s.declares exports atTop ++ Stmt.declaresIn exports atTop ss

end

/-- a name is among the exports of a scope if it has one -/
theorem Arena.any_exports (a : Arena) (x : ScopeId) (name : String) :
    (a.exports x).any (fun e => e.1 = name) = (a.export? x name).isSome := by
  unfold Arena.export?
  induction a.exports x with
  | nil => rfl
  | cons e exports ih =>
    obtain ⟨other, ty⟩ := e
    rw [List.any_cons, List.lookup_cons, ih]
    by_cases h : name = other
    · simp [h]
    · rw [beq_eq_false_iff_ne.2 h, decide_eq_false (Ne.symm h), Bool.false_or]

namespace Check

variable {α β : Type} {p : Place} {g : ScopeId} {r : Record} {x : Check α}

/-- the type that is recorded for a declaration: that of its annotation, or else that of its value -/
def recorded (p : Place) (r : Record) (d : Declaration) : Ty := (d.note.map Ty.ofNote).getD (value p d.value r).1

/-- the exports of a statement that stands directly in the body of a module, when some names are declared already -/
def exportsOf (p : Place) (known : List String) (r : Record) : Stmt → List (String × Ty)
  | .pub d _ => if d.name ∈ known then [] else [(d.name, recorded p r d)]
  | _ => []

/-- the exports of statements that stand directly in the body of a module, one after the other -/
def exportsIn (p : Place) (exports : String → List (String × Ty)) :
    List String → Record → List Stmt → List (String × Ty)
  | _, _, [] => []
  | known, r, s :: ss =>
    exportsOf p known r s ++ exportsIn p exports (known ++ s.declares exports true) (past (stmt p s) r) ss

/-- a statement exports one name at most, which it declares and which was not declared before -/
theorem exportsOf_cases (p : Place) (exports : String → List (String × Ty)) (known : List String)
    (r : Record) (s : Stmt) :
    exportsOf p known r s = [] ∨
      ∃ name ty, exportsOf p known r s = [(name, ty)] ∧ name ∉ known ∧ name ∈ s.declares exports true := by
  cases s with
  | pub d span =>
    unfold exportsOf
    by_cases hknown : d.name ∈ known
    · exact Or.inl (if_pos hknown)
    · exact Or.inr ⟨d.name, _, if_neg hknown, hknown, List.mem_singleton_self _⟩
  | _ => exact Or.inl rfl

/-- no name is exported twice, and none that was declared before -/
theorem nodup_exportsIn (exports : String → List (String × Ty)) (known : List String) (r : Record) (ss : List Stmt) :
    ((exportsIn p exports known r ss).map Prod.fst).Nodup ∧ ∀ e ∈ exportsIn p exports known r ss, e.1 ∉ known := by
  induction ss generalizing known r with
  | nil => exact ⟨List.nodup_nil, fun _ h => nomatch h⟩
  | cons s ss ih =>
    obtain ⟨hnodup, hnew⟩ := ih (known ++ s.declares exports true) (past (stmt p s) r)
    have hlater : ∀ e ∈ exportsIn p exports (known ++ s.declares exports true) (past (stmt p s) r) ss, e.1 ∉ known :=
      fun e he hmem => hnew e he (List.mem_append_left _ hmem)
    unfold exportsIn
    obtain hnone | ⟨name, ty, hone, hknown, hdeclares⟩ := exportsOf_cases p exports known r s
    · rw [hnone]
      exact ⟨hnodup, hlater⟩
    · rw [hone]
      refine ⟨List.nodup_cons.2 ⟨fun hmem => ?_, hnodup⟩, List.forall_mem_cons.2 ⟨hknown, hlater⟩⟩
      obtain ⟨e, he, heq⟩ := List.mem_map.1 hmem
      exact hnew e he (List.mem_append_right _ (heq ▸ hdeclares))

/-! ## Pieces of checking -/

/-- a piece of checking that declares and exports nothing in the scope of the module -/
def Leaves (g : ScopeId) (x : Check α) : Prop :=
  ∀ r : Record, g < r.arena.scopes.size → r.arena.Adds g [] [] (x r).2.arena

theorem leaves_pure (a : α) : Leaves g (pure a : Check α) := fun _ _ => .refl g _

theorem Leaves.bind {f : α → Check β} (hx : Leaves g x) (hf : ∀ a, Leaves g (f a)) : Leaves g (x >>= f) := by
  intro r hg
  have hfirst := hx r hg
  exact hfirst.trans (hf (x r).1 (x r).2 (hfirst.lt hg))

/-- what has been built is looked at -/
theorem leaves_get {f : Record → Check β} (h : ∀ r, Leaves g (f r)) : Leaves g (get >>= f) := fun r hg => h r r hg

theorem Leaves.discard (hx : Leaves g x) : Leaves g (discard x) := hx.bind fun _ => leaves_pure _

theorem leaves_report (position : Position) (text : String) : Leaves g (report p position text) :=
  fun r _ => Arena.adds_report g r.arena p.scope position text

theorem leaves_refuse (position : Position) (text : String) : Leaves g (refuse p position text) :=
  (leaves_report position text).bind fun _ => leaves_pure _

/-- the scope of a literal is opened, which is not that of the module -/
theorem leaves_openScope (id : Nat) (signature : Signature) {f : ScopeId → Check β}
    (hf : ∀ scope, scope ≠ g → Leaves g (f scope)) :
    Leaves g (openScope p id signature >>= f) := by
  intro r hg
  have hopen := Arena.adds_newLocal hg p.scope signature
  exact hopen.trans (hf r.arena.scopes.size (Nat.ne_of_gt hg) (openScope p id signature r).2 (hopen.lt hg))

theorem leaves_newVariable {scope : ScopeId} (hscope : scope ≠ g) (name : String) (ty : Ty) (position : Position) :
    Leaves g (newVariable scope name ty position) :=
  fun r _ => Arena.adds_newVariable_other hscope r.arena name ty position

theorem leaves_declareParams {scope : ScopeId} (hscope : scope ≠ g) (params : List Parameter) :
    Leaves g (declareParams scope params) := by
  induction params with
  | nil => exact leaves_pure _
  | cons param params ih =>
    unfold declareParams
    refine Leaves.bind (fun r _ => ?_) fun _ => ih
    exact Arena.adds_newParameter_other hscope r.arena param.name (.ofNote param.note) param.span.start

/-! ## What only reports -/

theorem leaves_asValue (span : Span) (ty : Ty) : Leaves g (asValue p span ty) := by
  unfold asValue
  split
  · exact leaves_refuse _ _
  · exact leaves_pure _

theorem leaves_ident (name : String) (span : Span) : Leaves g (ident p name span) := by
  unfold ident
  refine leaves_get fun r => ?_
  split
  · exact leaves_pure _
  · exact leaves_refuse _ _

theorem leaves_selfReference (span : Span) : Leaves g (selfReference p span) := by
  unfold selfReference
  refine leaves_get fun r => ?_
  split
  · exact leaves_pure _
  · exact leaves_refuse _ _

theorem leaves_binary (operator : String) (left right : Ty) (span : Span) :
    Leaves g (binary p operator left right span) := by
  unfold binary
  split
  · exact leaves_pure _
  split
  · exact leaves_pure _
  · exact leaves_refuse _ _
  · exact leaves_refuse _ _

theorem leaves_subscript (target index : Ty) (indexSpan span : Span) :
    Leaves g (subscript p target index indexSpan span) := by
  unfold subscript
  split
  · exact leaves_pure _
  split
  · split
    · exact leaves_pure _
    · exact leaves_refuse _ _
  · split
    · exact leaves_pure _
    · exact leaves_refuse _ _

theorem leaves_compareArguments (index : Nat) (params : List Ty) (arguments : List (Ty × Span)) :
    Leaves g (compareArguments p index params arguments) := by
  induction params generalizing index arguments with
  | nil => exact leaves_pure _
  | cons expected params ih =>
    cases arguments with
    | nil => exact leaves_pure _
    | cons received arguments =>
      unfold compareArguments
      split
      · exact (leaves_report _ _).bind fun _ => ih _ _
      · exact ih _ _

theorem leaves_call (callee : Ty) (arguments : List (Ty × Span)) (span : Span) :
    Leaves g (call p callee arguments span) := by
  unfold call
  split
  · exact leaves_pure _
  · exact leaves_pure _
  · split
    · exact leaves_refuse _ _
    · exact (leaves_compareArguments _ _ _).bind fun _ => leaves_pure _
  · exact leaves_refuse _ _

theorem leaves_assign (target : Expr) (ty : Ty) (valueSpan : Span) : Leaves g (assign p target ty valueSpan) := by
  unfold assign
  split
  · refine leaves_get fun r => ?_
    split
    · exact leaves_refuse _ _
    · split
      · exact (leaves_report _ _).bind fun _ => leaves_pure _
      · exact leaves_pure _
  · exact leaves_refuse _ _

theorem leaves_giveBack (given : Option (Ty × Span)) (span : Span) : Leaves g (giveBack p given span) := by
  unfold giveBack
  refine leaves_get fun r => ?_
  split
  · exact leaves_report _ _
  dsimp only
  split
  · split
    · exact leaves_report _ _
    · exact leaves_pure _
  · split
    · exact leaves_pure _
    split
    · exact leaves_report _ _
    split
    · exact leaves_report _ _
    · exact leaves_pure _

/-- what is declared, behind the report of a value that does not fit -/
theorem declare_eq (p : Place) (name : String) (note : Option Note) (ty : Ty) (valueSpan span : Span) (r : Record) :
    ∃ r' : Record, r.arena.Adds p.global [] [] r'.arena ∧ declare p name note ty valueSpan span r =
      (newVariable p.scope name ((note.map Ty.ofNote).getD ty) span.start >>= fun cell =>
        pure (cell.map fun _ => (note.map Ty.ofNote).getD ty) : Check (Option Ty)) r' := by
  unfold declare
  dsimp only
  split
  · exact ⟨_, Arena.adds_report _ _ _ _ _, rfl⟩
  · exact ⟨r, .refl _ _, rfl⟩

/-! ## The tree -/

theorem leaves_value {e : Expr} (h : Leaves g (expr p e)) {f : Ty → Check β} (hf : ∀ ty, Leaves g (f ty)) :
    Leaves g (expr p e >>= asValue p e.span >>= f) := (h.bind fun _ => leaves_asValue _ _).bind hf

mutual

/-- an expression declares and exports nothing in the scope of its module -/
theorem leaves_expr (p : Place) (e : Expr) : Leaves p.global (expr p e) := by
  cases e with
  | number value span => exact leaves_pure _
  | text value span => exact leaves_pure _
  | truth value span => exact leaves_pure _
  | ident name span =>
    unfold expr
    exact leaves_ident name span
  | self span =>
    unfold expr
    exact leaves_selfReference span
  | list items span =>
    unfold expr
    cases items with
    | nil =>
      unfold list
      exact leaves_refuse _ _
    | cons first rest =>
      unfold list
      exact leaves_value (leaves_expr p first) fun element =>
        (leaves_elements p element rest).bind fun _ => leaves_pure _
  | function id params result body span =>
    obtain ⟨body, bodySpan⟩ := body
    unfold expr
    refine leaves_openScope id _ fun scope hscope => (leaves_declareParams hscope params).bind fun _ => ?_
    unfold block
    exact (leaves_stmts { p with scope } hscope body).bind fun _ => leaves_pure _
  | call callee arguments span =>
    unfold expr
    exact (leaves_values p arguments).bind fun _ => leaves_value (leaves_expr p callee) fun _ => leaves_call _ _ _
  | assign target assigned span =>
    unfold expr
    exact leaves_value (leaves_expr p assigned) fun _ => leaves_assign _ _ _
  | binary operator left right span =>
    unfold expr
    exact leaves_value (leaves_expr p left) fun _ => leaves_value (leaves_expr p right) fun _ => leaves_binary _ _ _ _
  | subscript target index span =>
    unfold expr
    exact leaves_value (leaves_expr p target) fun _ => leaves_value (leaves_expr p index) fun _ =>
      leaves_subscript _ _ _ _
termination_by structural e

theorem leaves_values (p : Place) (es : List Expr) : Leaves p.global (values p es) := by
  cases es with
  | nil =>
    unfold values
    exact leaves_pure _
  | cons e es =>
    unfold values
    exact leaves_value (leaves_expr p e) fun _ => (leaves_values p es).bind fun _ => leaves_pure _
termination_by structural es

theorem leaves_elements (p : Place) (element : Ty) (es : List Expr) : Leaves p.global (elements p element es) := by
  cases es with
  | nil =>
    unfold elements
    exact leaves_pure _
  | cons e es =>
    unfold elements
    refine leaves_value (leaves_expr p e) fun ty => ?_
    split
    · exact leaves_elements p element es
    · exact (leaves_report _ _).bind fun _ => (leaves_values p es).discard.bind fun _ => leaves_pure _
termination_by structural es

/-- a declaration in a function's body -/
theorem leaves_declaration (p : Place) (hscope : p.scope ≠ p.global) (d : Declaration) :
    Leaves p.global (declaration p d) := by
  cases d with
  | mk name note initial span =>
    unfold declaration
    refine leaves_value (leaves_expr p initial) fun ty r hg => ?_
    obtain ⟨r', hr', hdeclare⟩ := declare_eq p name note ty initial.span span r
    rw [hdeclare]
    exact hr'.trans (((leaves_newVariable hscope name _ span.start).bind fun _ => leaves_pure _) r' (hr'.lt hg))
termination_by structural d

/-- a statement in a function's body -/
theorem leaves_stmt (p : Place) (hscope : p.scope ≠ p.global) (s : Stmt) : Leaves p.global (stmt p s) := by
  have htop : p.atTop = false := by
    unfold Place.atTop
    rw [decide_eq_false hscope]
    rfl
  cases s with
  | cond condition body span =>
    obtain ⟨body, bodySpan⟩ := body
    unfold stmt
    have hbody : Leaves p.global (block { p with conditional := true } ⟨body, bodySpan⟩) := by
      unfold block
      exact leaves_stmts { p with conditional := true } hscope body
    refine leaves_value (leaves_expr p condition) fun ty => ?_
    split
    · exact (leaves_report _ _).bind fun _ => hbody
    · exact hbody
  | declare d =>
    unfold stmt
    exact (leaves_declaration p hscope d).discard
  | giveBack given span =>
    cases given with
    | none =>
      unfold stmt
      exact leaves_giveBack _ _
    | some e =>
      unfold stmt
      exact leaves_value (leaves_expr p e) fun _ => leaves_giveBack _ _
  | eval e span =>
    unfold stmt
    exact (leaves_expr p e).discard
  | pub d span =>
    unfold stmt
    rw [htop]
    exact (leaves_report _ _).bind fun _ => (leaves_declaration p hscope d).discard
  | use path names span =>
    unfold stmt use
    rw [htop]
    exact leaves_report _ _
termination_by structural s

theorem leaves_stmts (p : Place) (hscope : p.scope ≠ p.global) (ss : List Stmt) : Leaves p.global (stmts p ss) := by
  cases ss with
  | nil =>
    unfold stmts
    exact leaves_pure _
  | cons s ss =>
    unfold stmts
    exact (leaves_stmt p hscope s).bind fun _ => leaves_stmts p hscope ss
termination_by structural ss

end

/-! ## Statements of a module's body -/

/-- what a piece adds, and then another one -/
theorem adds_bind {f : α → Check β} {names names' : List String} {added added' : List (String × Ty)}
    (hx : r.arena.Adds g names added (x r).2.arena)
    (hf : (x r).2.arena.Adds g names' added' (f (x r).1 (x r).2).2.arena) :
    r.arena.Adds g (names ++ names') (added ++ added') ((x >>= f) r).2.arena := hx.trans hf

/-- a declaration in the scope of the module: it declares its name, and has a type where the name is new -/
theorem adds_declaration (hscope : p.scope = p.global) (d : Declaration) (r : Record)
    (hg : p.global < r.arena.scopes.size) :
    r.arena.Adds p.global [d.name] [] (declaration p d r).2.arena ∧
      (declaration p d r).1 = (if r.arena.hasVariable p.global d.name then none else some (recorded p r d)) ∧
      (r.arena.hasVariable p.global d.name = false →
        (declaration p d r).2.arena.Records p.global (d.name, recorded p r d)) := by
  obtain ⟨name, note, initial, span⟩ := d
  have hvalue : r.arena.Adds p.global [] [] (value p initial r).2.arena :=
    (leaves_expr p initial).bind (fun ty => leaves_asValue initial.span ty) r hg
  obtain ⟨r', hr', hdeclare⟩ := declare_eq p name note (value p initial r).1 initial.span span (value p initial r).2
  have hbefore := hvalue.trans hr'
  have hg' := hbefore.lt hg
  have hrun : declaration p ⟨name, note, initial, span⟩ r =
      (newVariable p.global name (recorded p r ⟨name, note, initial, span⟩) span.start >>= fun cell =>
        pure (cell.map fun _ => recorded p r ⟨name, note, initial, span⟩) : Check (Option Ty)) r' := by
    unfold declaration
    rw [hscope] at hdeclare
    exact hdeclare
  have hsame : r'.arena.hasVariable p.global name = r.arena.hasVariable p.global name := by
    rw [Bool.eq_iff_iff, hbefore.names]
    simp
  rw [hrun]
  refine ⟨hbefore.trans (Arena.adds_newVariable hg' name _ span.start), ?_, fun hnew => ?_⟩
  · change ((r'.arena.newVariable p.global name _ span.start).1.map fun _ => _) = _
    rw [← hsame]
    cases hvar : r'.arena.hasVariable p.global name with
    | true => rw [Arena.newVariable_of_hasVariable hvar]; rfl
    | false => rw [Arena.newVariable_of_not_hasVariable hvar]; rfl
  · exact Arena.records_newVariable hg' (hsame.trans hnew) _ span.start

theorem Place.atTop_of_conditional (h : p.conditional = true) : p.atTop = false := by
  unfold Place.atTop
  rw [h]
  exact Bool.and_false _

/-- a condition declares what its body does -/
theorem adds_cond {names : List String} (condition : Expr) (body : List Stmt) (bodySpan span : Span)
    (hbody : ∀ r : Record, p.global < r.arena.scopes.size →
      r.arena.Adds p.global names [] (stmts { p with conditional := true } body r).2.arena)
    (r : Record) (hg : p.global < r.arena.scopes.size) :
    r.arena.Adds p.global names [] (stmt p (.cond condition ⟨body, bodySpan⟩ span) r).2.arena := by
  have hvalue : r.arena.Adds p.global [] [] (value p condition r).2.arena :=
    (leaves_expr p condition).bind (fun ty => leaves_asValue condition.span ty) r hg
  unfold stmt
  refine adds_bind (x := value p condition) hvalue ?_
  dsimp only
  split
  · have hreport := leaves_report (g := p.global) (p := p) condition.span.start
      ("expected condition of type 'Bool', got " ++ inQuotes (value p condition r).1) _ (hvalue.lt hg)
    exact adds_bind hreport (hbody _ (hreport.lt (hvalue.lt hg)))
  · exact hbody _ (hvalue.lt hg)

mutual

/-- a statement inside of a condition in the body of the module -/
theorem adds_conditional {p : Place} (exports : String → List (String × Ty)) (hscope : p.scope = p.global)
    (hconditional : p.conditional = true) (s : Stmt) (r : Record) (hg : p.global < r.arena.scopes.size) :
    r.arena.Adds p.global (s.declares exports false) [] (stmt p s r).2.arena := by
  have htop := Place.atTop_of_conditional hconditional
  cases s with
  | cond condition body span =>
    obtain ⟨body, bodySpan⟩ := body
    exact adds_cond (p := p) condition body bodySpan span
      (fun r hg => adds_conditionals (p := { p with conditional := true }) exports hscope rfl body r hg) r hg
  | declare d => exact (adds_declaration hscope d r hg).1
  | giveBack given span =>
    cases given with
    | none =>
      unfold stmt
      exact leaves_giveBack _ _ r hg
    | some e =>
      unfold stmt
      exact leaves_value (leaves_expr p e) (fun _ => leaves_giveBack _ _) r hg
  | eval e span =>
    unfold stmt
    exact (leaves_expr p e).discard r hg
  | pub d span =>
    unfold stmt
    rw [htop, Bool.not_false, if_pos rfl]
    have hreport := leaves_report (p := p) span.start Arena.exportNotAtTop r hg
    exact adds_bind hreport (adds_declaration hscope d _ (hreport.lt hg)).1
  | use path names span =>
    unfold stmt use
    rw [htop]
    exact leaves_report _ _ r hg
termination_by structural s

theorem adds_conditionals {p : Place} (exports : String → List (String × Ty)) (hscope : p.scope = p.global)
    (hconditional : p.conditional = true) (ss : List Stmt) (r : Record) (hg : p.global < r.arena.scopes.size) :
    r.arena.Adds p.global (Stmt.declaresIn exports false ss) [] (stmts p ss r).2.arena := by
  cases ss with
  | nil => exact .refl _ _
  | cons s ss =>
    have hfirst := adds_conditional exports hscope hconditional s r hg
    unfold stmts
    exact hfirst.trans (adds_conditionals exports hscope hconditional ss _ (hfirst.lt hg))
termination_by structural ss

end

/-! ## Imports -/

/-- the exports among the names that an import asks for -/
theorem adds_importedNames (path : String) (dependency : ScopeId) (span : Span) (names : List String) (r : Record)
    (hg : p.global < r.arena.scopes.size) :
    r.arena.Adds p.global [] [] (importedNames p path dependency span names r).2.arena ∧
      (importedNames p path dependency span names r).1.map Prod.fst =
        Compile.importedNames (r.arena.exports dependency) (some names) := by
  induction names generalizing r with
  | nil => exact ⟨.refl _ _, rfl⟩
  | cons name names ih =>
    have hfilter : Compile.importedNames (r.arena.exports dependency) (some (name :: names)) =
        if (r.arena.export? dependency name).isSome then
          name :: Compile.importedNames (r.arena.exports dependency) (some names)
        else Compile.importedNames (r.arena.exports dependency) (some names) := by
      unfold Compile.importedNames
      dsimp only
      rw [← Arena.any_exports, List.filter_cons]
    rw [hfilter]
    cases hexport : r.arena.export? dependency name with
    | some ty =>
      obtain ⟨hrest, hnames⟩ := ih r hg
      have hrun : importedNames p path dependency span (name :: names) r =
          ((name, ty) :: (importedNames p path dependency span names r).1,
            (importedNames p path dependency span names r).2) := by
        rw [importedNames, get_bind_run, hexport]
        rfl
      rw [hrun]
      exact ⟨hrest, congrArg (name :: ·) hnames⟩
    | none =>
      have hreport := leaves_report (p := p) span.start ("'" ++ name ++ "' is not exported by '" ++ path ++ "'") r hg
      obtain ⟨hrest, hnames⟩ := ih _ (hreport.lt hg)
      rw [importedNames, get_bind_run, hexport]
      rw [hreport.same] at hnames
      exact ⟨adds_bind hreport hrest, hnames⟩

theorem adds_declareImported (span : Span) (names : List (String × Ty)) (r : Record)
    (hg : p.global < r.arena.scopes.size) :
    r.arena.Adds p.global (names.map Prod.fst) [] (declareImported p span names r).2.arena := by
  induction names generalizing r with
  | nil => exact .refl _ _
  | cons e names ih =>
    obtain ⟨name, ty⟩ := e
    have hfirst := Arena.adds_newVariable hg name ty span.start
    unfold declareImported
    exact hfirst.trans (ih (newVariable p.global name ty span.start r).2 (hfirst.lt hg))

/-! ## The body of a module -/

/-- what is known while the statements directly in the body of a module are checked: the names that are declared so far,
of which the exports are some, and what the imported modules export -/
structure Known (p : Place) (exports : String → List (String × Ty)) (known : List String) (r : Record) : Prop where
  global : r.arena.isGlobal p.global = true
  names : ∀ name, r.arena.hasVariable p.global name = true ↔ name ∈ known
  recorded : ∀ e ∈ r.arena.exports p.global, r.arena.Records p.global e
  /-- a module that imports itself finds nothing that it has not declared already -/
  imports : ∀ path, exports path =
    ((p.imports.find? path).map fun x => if x = p.global then [] else r.arena.exports x).getD []

namespace Known

variable {exports : String → List (String × Ty)} {known : List String}

theorem lt (h : Known p exports known r) : p.global < r.arena.scopes.size := Arena.lt_of_isGlobal h.global

/-- what is known after a piece of checking -/
theorem adds {r' : Record} {names : List String} {added : List (String × Ty)} (h : Known p exports known r)
    (hadds : r.arena.Adds p.global names added r'.arena) : Known p exports (known ++ names) r' := by
  refine ⟨hadds.later.isGlobal_of h.global, fun name => ?_, fun e he => ?_, fun path => ?_⟩
  · rw [hadds.names, h.names, List.mem_append]
  · rw [hadds.exports] at he
    rcases List.mem_append.1 he with he | he
    · exact (h.recorded e he).later hadds.later
    · exact hadds.recorded e he
  · rw [h.imports]
    cases p.imports.find? path with
    | none => rfl
    | some x =>
      by_cases hx : x = p.global
      · rw [Option.map_some, Option.map_some, if_pos hx, if_pos hx]
      · rw [Option.map_some, Option.map_some, if_neg hx, if_neg hx, hadds.others x hx]

/-- a name that no variable has is not exported -/
theorem export?_of_new (h : Known p exports known r) {name : String} (hnew : name ∉ known) :
    r.arena.export? p.global name = none := by
  cases hexport : r.arena.export? p.global name with
  | none => rfl
  | some ty => exact absurd ((h.names name).1 (h.recorded _ (Arena.mem_of_export? hexport)).hasVariable) hnew

end Known

variable {exports : String → List (String × Ty)} {known : List String}

/-- a module that exports nothing is asked for nothing -/
theorem importedNames_nil (names : Option (List String)) : Compile.importedNames [] names = [] := by
  cases names with
  | none => rfl
  | some names => exact List.filter_eq_nil_iff.2 fun _ _ => by simp

/-- the names that are declared by an import -/
theorem adds_use (h : Known p exports known r) (htop : p.atTop = true) (path : String) (names : Option (List String))
    (span : Span) :
    r.arena.Adds p.global (Compile.importedNames (exports path) names) [] (use p path names span r).2.arena := by
  have hg := h.lt
  have hlinked := h.imports path
  unfold use
  rw [htop, Bool.not_true, if_neg Bool.false_ne_true]
  cases hfind : p.imports.find? path with
  | none =>
    rw [hfind, Option.map_none, Option.getD_none] at hlinked
    rw [hlinked, importedNames_nil]
    exact leaves_report _ _ r hg
  | some dependency =>
    rw [hfind, Option.map_some, Option.getD_some] at hlinked
    have hend {b : Arena} (hb : r.arena.Adds p.global (Compile.importedNames (r.arena.exports dependency) names) [] b) :
        r.arena.Adds p.global (Compile.importedNames (exports path) names) [] b := by
      by_cases hself : dependency = p.global
      · rw [hlinked, if_pos hself, importedNames_nil]
        refine hb.known fun name hname => ?_
        have hexported : ∃ e ∈ r.arena.exports p.global, e.1 = name := by
          rw [hself] at hname
          cases names with
          | none => simpa [Compile.importedNames] using hname
          | some names => simpa using (List.mem_filter.1 hname).2
        obtain ⟨e, he, rfl⟩ := hexported
        exact (h.recorded e he).hasVariable
      · rw [hlinked, if_neg hself]
        exact hb
    -- what is declared are the names that the imported module exports here
    cases names with
    | none => exact hend (adds_declareImported span _ r hg)
    | some names =>
      obtain ⟨hfound, hnames⟩ := adds_importedNames path dependency span names r hg
      refine hend ?_
      rw [← hnames]
      exact adds_bind hfound (adds_declareImported span _ _ (hfound.lt hg))

/-- what a statement directly in the body of a module declares and exports -/
theorem adds_stmt (h : Known p exports known r) (hscope : p.scope = p.global) (htop : p.atTop = true) (s : Stmt) :
    r.arena.Adds p.global (s.declares exports true) (exportsOf p known r s) (stmt p s r).2.arena := by
  have hg := h.lt
  cases s with
  | cond condition body span =>
    obtain ⟨body, bodySpan⟩ := body
    exact adds_cond (p := p) condition body bodySpan span
      (fun r hg => adds_conditionals (p := { p with conditional := true }) exports hscope rfl body r hg) r hg
  | declare d => exact (adds_declaration hscope d r hg).1
  | giveBack given span =>
    cases given with
    | none =>
      unfold stmt
      exact leaves_giveBack _ _ r hg
    | some e =>
      unfold stmt
      exact leaves_value (leaves_expr p e) (fun _ => leaves_giveBack _ _) r hg
  | eval e span =>
    unfold stmt
    exact (leaves_expr p e).discard r hg
  | use path names span =>
    unfold stmt
    exact adds_use h htop path names span
  | pub d span =>
    obtain ⟨hdeclares, hresult, hrecords⟩ := adds_declaration hscope d r hg
    unfold stmt
    rw [htop, Bool.not_true, if_neg Bool.false_ne_true]
    by_cases hknown : d.name ∈ known
    · rw [if_pos ((h.names d.name).2 hknown)] at hresult
      rw [show exportsOf p known r (.pub d span) = [] from if_pos hknown]
      have hrun : declaration p d r = (none, (declaration p d r).2) := Prod.ext hresult rfl
      rw [bind_run hrun]
      exact hdeclares
    · have hnew : r.arena.hasVariable p.global d.name = false :=
        Bool.eq_false_iff.2 fun hvar => hknown ((h.names d.name).1 hvar)
      rw [hnew, if_neg Bool.false_ne_true] at hresult
      have hnone : (declaration p d r).2.arena.export? p.global d.name = none := by
        unfold Arena.export?
        rw [hdeclares.same]
        exact h.export?_of_new hknown
      have hexports : (declaration p d r).2.arena.Adds p.global [] [(d.name, recorded p r d)]
          ((declaration p d r).2.arena.addExport p.scope d.name (recorded p r d) span.start).2 := by
        rw [hscope]
        exact Arena.adds_addExport (hdeclares.later.isGlobal_of h.global) (hrecords hnew) hnone span.start
      rw [show exportsOf p known r (.pub d span) = [(d.name, recorded p r d)] from if_neg hknown]
      have hrun : declaration p d r = (some (recorded p r d), (declaration p d r).2) := Prod.ext hresult rfl
      rw [bind_run hrun]
      exact hdeclares.trans hexports

/-- what statements directly in the body of a module declare and export -/
theorem adds_stmts (h : Known p exports known r) (hscope : p.scope = p.global)
    (htop : p.atTop = true) (ss : List Stmt) :
    r.arena.Adds p.global (Stmt.declaresIn exports true ss) (exportsIn p exports known r ss)
    (stmts p ss r).2.arena := by
  induction ss generalizing known r with
  | nil => exact .refl _ _
  | cons s ss ih =>
    have hfirst := adds_stmt h hscope htop s
    unfold stmts
    exact hfirst.trans (ih (h.adds hfirst))

end Check

/-- what the module that an import's path leads to exports -/
def Imports.exports (imports : Imports) (arena : Arena) (path : String) : List (String × Ty) :=
  ((imports.find? path).map arena.exports).getD []

theorem Check.known_start (arena : Arena) (imports : Imports) :
    Check.Known (Check.top imports arena) (imports.exports arena) [] (Check.start arena) := by
  have hexports (x : ScopeId) :
      arena.newGlobal.2.exports x = if x = arena.scopes.size then [] else arena.exports x := by
    unfold Arena.newGlobal Arena.exports
    rw [Arena.get?_add]
    by_cases hx : x = arena.scopes.size
    · rw [if_pos hx, if_pos hx]
      rfl
    · rw [if_neg hx, if_neg hx]
  refine ⟨arena.isGlobal_newGlobal, fun name => ?_, fun e he => ?_, fun path => ?_⟩
  · have hnone : arena.newGlobal.2.hasVariable arena.scopes.size name = false := by
      unfold Arena.newGlobal Arena.hasVariable
      rw [Arena.get?_add, if_pos rfl]
      rfl
    change arena.newGlobal.2.hasVariable arena.scopes.size name = true ↔ _
    simp [hnone]
  · change e ∈ arena.newGlobal.2.exports arena.scopes.size at he
    rw [hexports, if_pos rfl] at he
    cases he
  · have hnone : arena.exports arena.scopes.size = [] := by
      unfold Arena.exports Arena.get?
      rw [Array.getElem?_size]
    unfold Imports.exports Check.top Check.start
    cases imports.find? path with
    | none => rfl
    | some x =>
      rw [Option.map_some, Option.map_some, Option.getD_some, Option.getD_some, hexports]
      by_cases hx : x = arena.scopes.size
      · rw [if_pos hx, hx, hnone]
      · rw [if_neg hx, if_neg hx]

/-- a module exports, in their order, the declarations marked for export that stand directly in its body and whose names
are new, each with its recorded type; the names are distinct, and each is that of a variable with the type -/
theorem checkModule_exports (arena : Arena) (body : Block) (imports : Imports) :
    let checked := checkModule arena body imports
    let exports := checked.2.exports checked.1.global
    exports = Check.exportsIn (Check.top imports arena) (imports.exports arena) [] (Check.start arena) body.body ∧
      (exports.map Prod.fst).Nodup ∧ ∀ e ∈ exports, checked.2.Records checked.1.global e := by
  obtain ⟨body, span⟩ := body
  have hknown := Check.known_start arena imports
  have htop : (Check.top imports arena).atTop = true := by simp [Check.top, Check.Place.atTop]
  have hadds := Check.adds_stmts hknown rfl htop body
  have hend := hknown.adds hadds
  have hstart : (Check.start arena).arena.exports arena.scopes.size = [] := by
    cases hexports : (Check.start arena).arena.exports arena.scopes.size with
    | nil => rfl
    | cons e exports =>
      have hrecorded := hknown.recorded e (hexports ▸ List.mem_cons_self)
      exact absurd ((hknown.names e.1).1 hrecorded.hasVariable) List.not_mem_nil
  have hexports := hadds.exports
  rw [show (Check.top imports arena).global = arena.scopes.size from rfl, hstart, List.nil_append] at hexports
  refine ⟨hexports, ?_, hend.recorded⟩
  obtain ⟨hnodup, _⟩ :=
    Check.nodup_exportsIn (p := Check.top imports arena) (imports.exports arena) [] (Check.start arena) body
  rw [← hexports] at hnodup
  exact hnodup

/-! ## Native modules -/

namespace Arena

variable {a : Arena} {x : ScopeId}

theorem exports_newVariable (a : Arena) (id : ScopeId) (name : String) (ty : Ty) (position : Position) (x : ScopeId) :
    (a.newVariable id name ty position).2.exports x = a.exports x := by
  cases hvar : a.hasVariable id name with
  | true => rw [newVariable_of_hasVariable hvar, exports_report]
  | false => rw [newVariable_of_not_hasVariable hvar, exports_extend]

/-- no name is exported twice -/
theorem nodup_addExport (h : ((a.exports x).map Prod.fst).Nodup) (name : String) (ty : Ty) (position : Position) :
    (((a.addExport x name ty position).2.exports x).map Prod.fst).Nodup := by
  by_cases hold : (a.export? x name).isSome = true
  · rw [addExport, if_pos hold, exports_report]
    exact h
  · by_cases hglobal : a.isGlobal x = true
    · have hnone : a.export? x name = none := by simpa using hold
      have hnew : name ∉ (a.exports x).map Prod.fst := by
        intro hmem
        obtain ⟨e, he, rfl⟩ := List.mem_map.1 hmem
        simpa using List.lookup_eq_none_iff.1 hnone e he
      have hboth := List.Nodup.concat hnew h
      rw [List.concat_eq_append] at hboth
      rw [exports_addExport hglobal hnone, List.map_append]
      exact hboth
    · rw [addExport, if_neg hold, if_pos (by simpa using hglobal), exports_report]
      exact h

theorem nodup_newNative (a : Arena) (exports : List (String × Ty)) :
    (((a.newNative exports).2.exports a.scopes.size).map Prod.fst).Nodup := by
  have hall (b : Arena) (h : ((b.exports a.scopes.size).map Prod.fst).Nodup) :
      (((exports.foldl
        (fun b e => ((b.newVariable a.scopes.size e.1 e.2 .null).2.addExport a.scopes.size e.1 e.2 .null).2)
        b).exports a.scopes.size).map Prod.fst).Nodup := by
    induction exports generalizing b with
    | nil => exact h
    | cons e exports ih => exact ih _ (nodup_addExport (by rw [exports_newVariable]; exact h) _ _ _)
  have hnone : a.newGlobal.2.exports a.scopes.size = [] := exports_eq ((get?_add _ _ _).trans (if_pos rfl)) rfl
  refine hall a.newGlobal.2 ?_
  rw [hnone]
  exact List.nodup_nil

end Arena

end TypedScript
