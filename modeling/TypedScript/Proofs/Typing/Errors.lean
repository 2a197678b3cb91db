/-
The error type in a check. An expression that fails has the error type and is reported, and whatever is made of a type
that is the error type already is neither reported nor made into another type with the error type in it. So what the
check finds is excused by what is reported, and what is reported compares only types without the error type.

- `Traced.Keeps`: a piece of checking whose result and whose trace are excused; `Traced.Keeps.bind` and the lemmas on
  the pieces make `Traced.keeps_expr` and `Traced.keeps_stmts`.
- `tracedModule_reports`: the check of a module, in any arena.
-/
import TypedScript.Proofs.Typing.Arena.Excused
import TypedScript.Proofs.Typing.Isolation
import TypedScript.Proofs.Typing.Traced

namespace TypedScript

/-! ## Expressions in the order in which their types are found -/

mutual

/-- an expression and those within it, in the order in which their types are found; what is assigned to is a name, and
not looked at as an expression -/
def Expr.checked : Expr → List Expr
  | .number value span => [.number value span]
  | .text value span => [.text value span]
  | .truth value span => [.truth value span]
  | .ident name span => [.ident name span]
  | .self span => [.self span]
  | .list items span => Expr.checkedAll items ++ [.list items span]
  | .function id params result body span => body.checked ++ [.function id params result body span]
  | .call callee arguments span => Expr.checkedAll arguments ++ callee.checked ++ [.call callee arguments span]
  | .assign target value span => value.checked ++ [.assign target value span]
  | .binary operator left right span => left.checked ++ right.checked ++ [.binary operator left right span]
  | .subscript target index span => target.checked ++ index.checked ++ [.subscript target index span]

def Expr.checkedAll : List Expr → List Expr
  | [] => []
  | e :: es => e.checked ++ Expr.checkedAll es

def Declaration.checked : Declaration → List Expr
  | ⟨_, _, value, _⟩ => value.checked

def Stmt.checked : Stmt → List Expr
  | .cond condition body _ => condition.checked ++ body.checked
  | .declare d => d.checked
  | .giveBack none _ => []
  | .giveBack (some e) _ => e.checked
  | .eval e _ => e.checked
  | .pub d _ => d.checked
  | .use _ _ _ => []

def Stmt.checkedAll : List Stmt → List Expr
  | [] => []
  | s :: ss => s.checked ++ Stmt.checkedAll ss

def Block.checked : Block → List Expr
  | ⟨body, _⟩ => Stmt.checkedAll body

end

/-- a type that is found is excused, and a complaint compares types without the error type -/
def Event.Excused (R : Prop) : Event → Prop
  | .typed _ ty => ty.Excused R
  | .complaint _ c => ∀ ty ∈ c.types, ty.hasError = false

/-- what is reported -/
def Outcome.diagnostics {α : Type} (o : Outcome α) : List Diagnostic := o.events.filterMap Event.diagnostic?

namespace Traced

open Check (Place Record within atTop_within)

variable {R : Prop} {a : Arena} {imports : Imports} {i j : Nat} {conditional : Bool} {α β : Type}
  {es es' : List Expr} {P : α → Prop} {Q : β → Prop}

/-! ## Pieces of checking -/

/-- what has been built behind an arena: the scopes of one module, with what was found wrong with it -/
inductive Behind (R : Prop) (a : Arena) (i : Nat) : Record → List Diagnostic → Prop
  | mk {m : Arena} {functions : Table Nat ScopeId} (hm : m.Own R) (hi : i < m.scopes.size) :
      Behind R a i ⟨a.append m, functions⟩ (m.diagnostics 0)

theorem Behind.outer {r : Record} {found : List Diagnostic} (h : Behind R a i r found) (hj : j ≤ i) :
    Behind R a j r found := by
  cases h with
  | mk hm hi => exact .mk hm (Nat.lt_of_le_of_lt hj hi)

/-- a piece of checking, in whose trace the types of some expressions are found: where `R` holds as soon as something is
reported, its result is as it should be and its trace is excused, and what it reports is a diagnostic of the module -/
def Keeps (R : Prop) (a : Arena) (i : Nat) (es : List Expr) (t : Traced α) (P : α → Prop) : Prop :=
  ∀ r found, Behind R a i r found → ((t r).diagnostics ≠ [] → R) →
    Behind R a i (t r).record (found ++ (t r).diagnostics) ∧ P (t r).result ∧
      (∀ e ∈ (t r).events, e.Excused R) ∧ (t r).events.filterMap Event.expr? = es

theorem keeps_pure {x : α} (h : P x) : Keeps R a i [] (pure x) P := by
  intro r found hr _
  refine ⟨?_, h, fun e he => (nomatch he), rfl⟩
  change Behind R a i r (found ++ [])
  rwa [List.append_nil]

theorem Keeps.bind {t : Traced α} {f : α → Traced β} (ht : Keeps R a i es t P)
    (hf : ∀ x, P x → Keeps R a i es' (f x) Q) : Keeps R a i (es ++ es') (t >>= f) Q := by
  intro r found hr hR
  have hevents : ((t >>= f) r).events = (t r).events ++ (f (t r).result (t r).record).events := rfl
  have hdiagnostics : ((t >>= f) r).diagnostics = (t r).diagnostics ++ (f (t r).result (t r).record).diagnostics :=
    List.filterMap_append
  rw [hdiagnostics] at hR
  obtain ⟨hr', hresult, hexcused, hexprs⟩ := ht r found hr fun hne => hR (by simp [hne])
  obtain ⟨hr'', hresult', hexcused', hexprs'⟩ := hf _ hresult _ _ hr' fun hne => hR (by simp [hne])
  rw [List.append_assoc, ← hdiagnostics] at hr''
  refine ⟨hr'', hresult', fun e he => ?_, ?_⟩
  · rw [hevents] at he
    exact (List.mem_append.1 he).elim (hexcused e) (hexcused' e)
  · rw [hevents, List.filterMap_append, hexprs, hexprs']

/-- a piece and then one without expressions -/
theorem Keeps.leaf {t : Traced α} {f : α → Traced β} (ht : Keeps R a i es t P)
    (hf : ∀ x, P x → Keeps R a i [] (f x) Q) : Keeps R a i es (t >>= f) Q := by
  have h := ht.bind hf
  rwa [List.append_nil] at h

/-- a piece without expressions and then another -/
theorem Keeps.after {t : Traced α} {f : α → Traced β} (ht : Keeps R a i [] t P)
    (hf : ∀ x, P x → Keeps R a i es (f x) Q) : Keeps R a i es (t >>= f) Q := ht.bind hf

theorem Keeps.mono {t : Traced α} {P' : α → Prop} (ht : Keeps R a i es t P) (h : ∀ x, P x → P' x) :
    Keeps R a i es t P' := by
  intro r found hr hR
  obtain ⟨hr', hresult, hrest⟩ := ht r found hr hR
  exact ⟨hr', h _ hresult, hrest⟩

theorem Keeps.discard {t : Traced α} (ht : Keeps R a i es t P) : Keeps R a i es (discard t) fun _ => True :=
  ht.leaf fun _ _ => keeps_pure trivial

/-- what has been built is looked at -/
theorem keeps_get {f : Record → Traced β} (h : ∀ r found, Behind R a i r found → Keeps R a i es (f r) Q) :
    Keeps R a i es (silent get >>= f) Q := fun r found hr => h r found hr r found hr

theorem Keeps.typed {e : Expr} {t : Traced Ty} (ht : Keeps R a i es t (Ty.Excused R)) :
    Keeps R a i (es ++ [e]) (typed e t) (Ty.Excused R) := by
  intro r found hr hR
  have hdiagnostics : (Traced.typed e t r).diagnostics = (t r).diagnostics :=
    List.filterMap_append.trans (List.append_nil _)
  rw [hdiagnostics] at hR ⊢
  obtain ⟨hr', hresult, hexcused, hexprs⟩ := ht r found hr hR
  refine ⟨hr', hresult, fun e he => ?_, ?_⟩
  · rcases List.mem_append.1 he with he | he
    · exact hexcused e he
    · rw [List.mem_singleton.1 he]
      exact hresult
  · exact List.filterMap_append.trans (congrArg (· ++ [_]) hexprs)

/-! ### What is reported and declared -/

theorem keeps_complain {c : Complaint} (hc : ∀ ty ∈ c.types, ty.hasError = false) {position : Position} :
    Keeps R a i [] (complain (within a imports i conditional) position c) fun _ => R := by
  rintro _ _ @⟨m, functions, hm, hi⟩ hR
  refine ⟨?_, hR (List.cons_ne_nil _ _), fun e he => ?_, rfl⟩
  · change Behind R a i ⟨(a.append m).report (a.scopes.size + i) position c.text, functions⟩
      (m.diagnostics 0 ++ [⟨position, c.text⟩])
    rw [Arena.report_append hm.ordered hi, ← hm.diagnostics_report hi]
    exact .mk (hm.report i position c.text) (by unfold Arena.report; rw [Arena.size_update]; exact hi)
  · rw [List.mem_singleton.1 he]
    exact hc

theorem keeps_refuse {c : Complaint} (hc : ∀ ty ∈ c.types, ty.hasError = false) {position : Position} :
    Keeps R a i [] (refuse (within a imports i conditional) position c) (Ty.Excused R) :=
  (keeps_complain hc).leaf fun _ hR => keeps_pure (.of_reported hR)

/-- a change at a scope that complains itself -/
theorem keeps_change {f : ScopeId → Arena → α × Arena} {position : Position}
    {complaint? : Record → α → Option Complaint}
    (h : ∀ (m : Arena) (functions : Table Nat ScopeId), m.Own R → i < m.scopes.size → ∃ n : Arena, n.Own R ∧ m.Fills n ∧
      (f (a.scopes.size + j) (a.append m)).2 = a.append n ∧
      n.diagnostics 0 = m.diagnostics 0 ++ ((complaint? ⟨a.append m, functions⟩
        (f (a.scopes.size + j) (a.append m)).1).map fun c => ⟨position, c.text⟩).toList)
    (htypes : ∀ r x c, complaint? r x = some c → c.types = []) :
    Keeps R a i [] (complaining position (modifyGet fun r =>
      ((f (a.scopes.size + j) r.arena).1, { r with arena := (f (a.scopes.size + j) r.arena).2 })) complaint?)
      fun _ => True := by
  rintro _ _ @⟨m, functions, hm, hi⟩ hR
  obtain ⟨n, hn, hfills, harena, hfound⟩ := h m functions hm hi
  have hevents : (complaining position (modifyGet fun r : Record =>
      ((f (a.scopes.size + j) r.arena).1, { r with arena := (f (a.scopes.size + j) r.arena).2 })) complaint?
        ⟨a.append m, functions⟩).events =
      ((complaint? ⟨a.append m, functions⟩ (f (a.scopes.size + j) (a.append m)).1).map
        (Event.complaint position)).toList := rfl
  refine ⟨?_, trivial, fun e he => ?_, ?_⟩
  · unfold Outcome.diagnostics
    rw [hevents]
    change Behind R a i ⟨(f (a.scopes.size + j) (a.append m)).2, functions⟩ _
    rw [harena]
    have hlist : (((complaint? ⟨a.append m, functions⟩ (f (a.scopes.size + j) (a.append m)).1).map
        (Event.complaint position)).toList).filterMap Event.diagnostic? =
        ((complaint? ⟨a.append m, functions⟩ (f (a.scopes.size + j) (a.append m)).1).map
          fun c => (⟨position, c.text⟩ : Diagnostic)).toList := by
      cases complaint? ⟨a.append m, functions⟩ (f (a.scopes.size + j) (a.append m)).1 <;> rfl
    rw [hlist, ← hfound]
    exact .mk hn (hfills.size ▸ hi)
  · rw [hevents, Option.mem_toList] at he
    obtain ⟨c, hc, rfl⟩ := Option.map_eq_some_iff.1 he
    intro ty hty
    rw [htypes _ _ _ hc] at hty
    cases hty
  · rw [hevents]
    cases complaint? ⟨a.append m, functions⟩ (f (a.scopes.size + j) (a.append m)).1 <;> rfl

theorem redeclared_eq (cell : Option Cell) (cells : Nat) (name : String) (position : Position) :
    Arena.redeclared cell name position = ((if (cell.map (Cell.moved cells)).isNone then
      some (Complaint.alreadyDeclared name) else none).map fun c => (⟨position, c.text⟩ : Diagnostic)).toList := by
  cases cell <;> rfl

theorem types_redeclared {cell : Option Cell} {name : String} {c : Complaint}
    (h : (if cell.isNone then some (Complaint.alreadyDeclared name) else none) = some c) : c.types = [] := by
  split at h <;> cases h
  rfl

theorem keeps_newVariable (hj : j ≤ i) (name : String) {ty : Ty} (hty : ty.Excused R) (position : Position) :
    Keeps R a i [] (newVariable (a.scopes.size + j) name ty position) fun _ => True :=
  keeps_change (f := fun id b => b.newVariable id name ty position) (fun m functions hm hi => by
    have hj := Nat.lt_of_le_of_lt hj hi
    obtain ⟨hown, hfound⟩ := hm.newVariable hj hty name position
    rw [Arena.newVariable_append hm.ordered hj]
    exact ⟨_, hown, m.fills_newVariable j name ty position, rfl, hfound.trans (congrArg _ (redeclared_eq _ _ _ _))⟩)
    fun _ _ _ => types_redeclared

theorem keeps_newParameter (name : String) {ty : Ty} (hty : ty.Excused R) (position : Position) :
    Keeps R a i [] (newParameter (a.scopes.size + i) name ty position) fun _ => True :=
  keeps_change (f := fun id b => b.newParameter id name ty position) (fun m functions hm hi => by
    obtain ⟨hown, hfound⟩ := hm.newParameter hi hty name position
    rw [Arena.newParameter_append hm.ordered hi]
    exact ⟨_, hown, m.fills_newParameter i name ty position, rfl, hfound.trans (congrArg _ (redeclared_eq _ _ _ _))⟩)
    fun _ _ _ => types_redeclared

theorem keeps_addExport (name : String) {ty : Ty} (hty : ty.Excused R) (position : Position) :
    Keeps R a i [] (addExport (a.scopes.size + i) name ty position) fun _ => True := by
  refine keeps_change (f := fun id b => b.addExport id name ty position)
    (fun m functions hm hi => ?_) fun r added c hc => ?_
  · obtain ⟨hown, hfound⟩ := hm.addExport hi hty name position
    have hexport : (a.append m).export? (a.scopes.size + i) name = m.export? i name := by
      rw [Arena.export?, Arena.exports_append, Arena.export?]
    rw [Arena.addExport_append hm.ordered hi]
    refine ⟨_, hown, m.fills_addExport i name ty position, rfl, hfound.trans (congrArg _ ?_)⟩
    dsimp only
    rw [hexport]
    split
    · rfl
    · split <;> rfl
  · split at hc
    · cases hc
    · split at hc <;> cases hc <;> rfl

/-- a literal's scope is opened, and what is built in it is in the scope around it too -/
theorem keeps_openScope (id : Nat) {signature : Signature} (hty : signature.ty.hasError = false)
    {f : ScopeId → Traced β} (hf : ∀ j, i ≤ j → Keeps R a j es (f (a.scopes.size + j)) Q) :
    Keeps R a i es (silent (Check.openScope (within a imports i conditional) id signature) >>= f) Q := by
  rintro _ _ @⟨m, functions, hm, hi⟩ hR
  have hopened : (silent (Check.openScope (within a imports i conditional) id signature) >>= f)
      ⟨a.append m, functions⟩ =
      f (a.scopes.size + m.scopes.size) ⟨a.append (m.newLocal i signature).2,
        functions.insert id (a.scopes.size + m.scopes.size)⟩ := by
    change f ((a.append m).newLocal (a.scopes.size + i) signature).1
      ⟨((a.append m).newLocal (a.scopes.size + i) signature).2,
        functions.insert id ((a.append m).newLocal (a.scopes.size + i) signature).1⟩ = _
    rw [Arena.newLocal_append]
    rfl
  rw [hopened] at hR ⊢
  have hinside : m.scopes.size < (m.newLocal i signature).2.scopes.size := by
    unfold Arena.newLocal
    rw [Arena.size_add]
    exact Nat.lt_succ_self _
  obtain ⟨hown, hfound⟩ := hm.newLocal hi hty
  obtain ⟨hr, hrest⟩ := hf m.scopes.size (Nat.le_of_lt hi) _ _ (.mk hown hinside) hR
  rw [hfound] at hr
  exact ⟨hr.outer (Nat.le_of_lt hi), hrest⟩

/-! ### What is asked -/

theorem Behind.lookup? {r : Record} {found : List Diagnostic} (h : Behind R a i r found) {name : String} {v : Variable}
    (hv : r.arena.lookup? (a.scopes.size + i) name = some v) : v.ty.Excused R := by
  cases h with
  | @mk m functions hm hi =>
    dsimp only at hv
    rw [Arena.lookup?_append hm.ordered hi] at hv
    obtain ⟨w, hw, rfl⟩ := Option.map_eq_some_iff.1 hv
    have hty := hm.excused.lookup? hw
    exact hty

theorem Behind.signature? {r : Record} {found : List Diagnostic} (h : Behind R a i r found) {signature : Signature}
    (hs : r.arena.signature? (a.scopes.size + i) = some signature) : signature.ty.hasError = false := by
  cases h with
  | @mk m functions hm hi =>
    dsimp only at hs
    rw [Arena.signature?_append] at hs
    exact hm.excused.signature? hs

/-- what a module exports that was there before, or that is being checked -/
theorem Behind.exports {r : Record} {found : List Diagnostic} (h : Behind R a i r found) {x : ScopeId}
    (hx : ∀ e ∈ a.exports x, e.2.hasError = false) : ∀ e ∈ r.arena.exports x, e.2.Excused R := by
  cases h with
  | @mk m functions hm hi =>
    rcases Nat.lt_or_ge x a.scopes.size with hlt | hge
    · dsimp only
      rw [Arena.exports_append_left hlt]
      exact fun e he => Ty.Excused.of_clean (hx e he)
    · obtain ⟨j, rfl⟩ := Nat.exists_eq_add_of_le hge
      dsimp only
      rw [Arena.exports_append]
      exact hm.excused.exports j

/-! ## The pieces of the check -/

theorem keeps_asValue (span : Span) {ty : Ty} (hty : ty.Excused R) :
    Keeps R a i [] (asValue (within a imports i conditional) span ty) (Ty.Excused R) := by
  unfold asValue
  split
  · exact keeps_refuse (by simp [Complaint.types])
  · exact keeps_pure hty

theorem keeps_ident (name : String) (span : Span) :
    Keeps R a i [] (ident (within a imports i conditional) name span) (Ty.Excused R) := by
  refine keeps_get fun r found hr => ?_
  dsimp only [within]
  split
  · next v hv => exact keeps_pure (hr.lookup? hv)
  · exact keeps_refuse (by simp [Complaint.types])

theorem keeps_selfReference (span : Span) :
    Keeps R a i [] (selfReference (within a imports i conditional) span) (Ty.Excused R) := by
  refine keeps_get fun r found hr => ?_
  dsimp only [within]
  split
  · next signature hs => exact keeps_pure (.of_clean (hr.signature? hs))
  · exact keeps_refuse (by simp [Complaint.types])

theorem hasError_of_resolveOperator {operator : String} {left right ty : Ty}
    (h : resolveOperator operator left right = .ok ty) : ty.hasError = false := by
  have hall : ∀ rule ∈ OperatorRule.all, rule.result.hasError = false := by decide
  unfold resolveOperator at h
  dsimp only at h
  split at h
  · next rule hrule =>
    cases h
    exact hall rule (List.mem_filter.1 (List.mem_of_find?_eq_some hrule)).1
  · cases h

/-- one of two operands is the error type -/
theorem reported_of_operands {left right : Ty} (hl : left.Excused R) (hr : right.Excused R)
    (h : (left.isError || right.isError) = true) : R :=
  (Bool.or_eq_true_iff.1 h).elim hl.reported hr.reported

/-- neither of two operands is the error type -/
theorem clean_of_operands {left right : Ty} (hl : left.Excused R) (hr : right.Excused R)
    (h : ¬ (left.isError || right.isError) = true) : ∀ ty ∈ [left, right], ty.hasError = false := by
  rw [Bool.not_eq_true, Bool.or_eq_false_iff] at h
  simp [hl.clean h.1, hr.clean h.2]

theorem keeps_binary (operator : String) {left right : Ty} (hl : left.Excused R) (hr : right.Excused R) (span : Span) :
    Keeps R a i [] (binary (within a imports i conditional) operator left right span) (Ty.Excused R) := by
  unfold binary
  split
  · next herror => exact keeps_pure (.of_reported (reported_of_operands hl hr herror))
  next hnone =>
  have hclean := clean_of_operands hl hr hnone
  split
  · next ty hty => exact keeps_pure (.of_clean (hasError_of_resolveOperator hty))
  · exact keeps_refuse (by exact hclean)
  · exact keeps_refuse (by exact hclean)

theorem keeps_subscript {target index : Ty} (ht : target.Excused R) (hx : index.Excused R) (indexSpan span : Span) :
    Keeps R a i [] (subscript (within a imports i conditional) target index indexSpan span) (Ty.Excused R) := by
  unfold subscript
  split
  · next herror => exact keeps_pure (.of_reported (reported_of_operands ht hx herror))
  next hnone =>
  have hclean := clean_of_operands ht hx hnone
  split
  · split
    · exact keeps_pure (.of_clean (hclean (.list _) List.mem_cons_self :))
    · exact keeps_refuse (by exact hclean)
  · split
    · next ty hty => exact keeps_pure (.of_clean (hasError_of_resolveOperator hty))
    · exact keeps_refuse (by exact hclean)

theorem keeps_compareArguments (index : Nat) {params : List Ty} (hparams : ∀ ty ∈ params, ty.hasError = false)
    {arguments : List (Ty × Span)} (harguments : ∀ x ∈ arguments, x.1.Excused R) :
    Keeps R a i [] (compareArguments (within a imports i conditional) index params arguments) fun _ => True := by
  induction params generalizing index arguments with
  | nil => exact keeps_pure trivial
  | cons expected params ih =>
    cases arguments with
    | nil => exact keeps_pure trivial
    | cons argument arguments =>
      obtain ⟨received, span⟩ := argument
      obtain ⟨hexpected, hparams⟩ := List.forall_mem_cons.1 hparams
      obtain ⟨hreceived, harguments⟩ := List.forall_mem_cons.1 harguments
      unfold compareArguments
      dsimp only
      split
      · next hne =>
        rw [Bool.and_eq_true, Bool.not_eq_true'] at hne
        exact (keeps_complain (by simp [Complaint.types, hexpected, hreceived.clean hne.1])).after fun _ _ =>
          ih (index + 1) hparams harguments
      · exact ih (index + 1) hparams harguments

theorem keeps_call {callee : Ty} (hc : callee.Excused R) {arguments : List (Ty × Span)}
    (harguments : ∀ x ∈ arguments, x.1.Excused R) (span : Span) :
    Keeps R a i [] (call (within a imports i conditional) callee arguments span) (Ty.Excused R) := by
  unfold call
  split
  · exact keeps_pure (.of_reported (hc.reported rfl))
  · exact keeps_pure (.of_clean rfl)
  · next params result =>
    have hfunction := hc.clean rfl
    rw [Ty.hasError, Bool.or_eq_false_iff, Ty.anyHasError_eq_false] at hfunction
    split
    · exact keeps_refuse (by simp [Complaint.types])
    · exact (keeps_compareArguments 1 hfunction.1 harguments).leaf fun _ _ => keeps_pure (.of_clean hfunction.2)
  · next hnone _ _ =>
    refine keeps_refuse fun ty hty => ?_
    rw [List.mem_singleton.1 hty]
    refine hc.clean ?_
    cases callee <;> first | rfl | exact absurd rfl hnone

theorem keeps_assign (target : Expr) {value : Ty} (hvalue : value.Excused R) (valueSpan : Span) :
    Keeps R a i [] (assign (within a imports i conditional) target value valueSpan) (Ty.Excused R) := by
  unfold assign
  split
  · refine keeps_get fun r found hr => ?_
    dsimp only [within]
    split
    · exact keeps_refuse (by simp [Complaint.types])
    · next v hv =>
      split
      · next hne =>
        rw [Bool.and_eq_true, Bool.and_eq_true, Bool.not_eq_true', Bool.not_eq_true'] at hne
        exact (keeps_complain (by simp [Complaint.types, hvalue.clean hne.1.1, (hr.lookup? hv).clean hne.1.2])).after
          fun _ _ => keeps_pure (.of_clean rfl)
      · exact keeps_pure (.of_clean rfl)
  · exact keeps_refuse (by simp [Complaint.types])

theorem keeps_declare (name : String) (note : Option Note) {value : Ty} (hvalue : value.Excused R)
    (valueSpan span : Span) : Keeps R a i [] (declare (within a imports i conditional) name note value valueSpan span)
      fun declared => ∀ ty ∈ declared, ty.Excused R := by
  have hty : ((note.map Ty.ofNote).getD value).Excused R := by
    cases note with
    | none => exact hvalue
    | some note => exact Ty.Excused.of_clean (Ty.hasError_ofNote note)
  have declared : Keeps R a i [] (do
      let cell ← newVariable (a.scopes.size + i) name ((note.map Ty.ofNote).getD value) span.start
      return cell.map fun _ => (note.map Ty.ofNote).getD value) fun declared => ∀ ty ∈ declared, ty.Excused R := by
    refine (keeps_newVariable (Nat.le_refl i) name hty span.start).leaf fun cell _ => keeps_pure fun ty hmem => ?_
    obtain ⟨_, _, rfl⟩ := Option.map_eq_some_iff.1 hmem
    exact hty
  unfold declare
  dsimp only
  split
  · next hne =>
    rw [Bool.and_eq_true, Bool.and_eq_true, Bool.not_eq_true'] at hne
    refine (keeps_complain fun ty hmem => ?_).after fun _ _ => declared
    obtain ⟨note, rfl⟩ := Option.isSome_iff_exists.1 hne.1.1
    rcases List.mem_cons.1 hmem with rfl | hmem
    · exact Ty.hasError_ofNote note
    · rw [List.mem_singleton.1 hmem]
      exact hvalue.clean hne.1.2
  · exact declared

theorem keeps_giveBack {value : Option (Ty × Span)} (hvalue : ∀ x ∈ value, x.1.Excused R) (span : Span) :
    Keeps R a i [] (giveBack (within a imports i conditional) value span) fun _ => True := by
  refine keeps_get fun r found hr => ?_
  dsimp only [within]
  split
  · exact (keeps_complain (by simp [Complaint.types])).mono fun _ _ => trivial
  next signature hs =>
  have hresult : signature.result.hasError = false := by
    have hty := hr.signature? hs
    rw [Signature.ty, Ty.hasError, Bool.or_eq_false_iff] at hty
    exact hty.2
  split
  · split
    · exact (keeps_complain (by simp [Complaint.types, hresult])).mono fun _ _ => trivial
    · exact keeps_pure trivial
  next received valueSpan =>
  have hreceived := hvalue _ rfl
  split
  · exact keeps_pure trivial
  next hnone =>
  have hclean := hreceived.clean (Bool.not_eq_true _ |>.mp hnone)
  split
  · exact (keeps_complain (by simp [Complaint.types, hclean])).mono fun _ _ => trivial
  split
  · exact (keeps_complain (by simp [Complaint.types, hresult, hclean])).mono fun _ _ => trivial
  · exact keeps_pure trivial

theorem keeps_importedNames (path : String) {dependency : ScopeId}
    (hx : ∀ e ∈ a.exports dependency, e.2.hasError = false) (span : Span) (names : List String) :
    Keeps R a i [] (importedNames (within a imports i conditional) path dependency span names)
      fun found => ∀ e ∈ found, e.2.Excused R := by
  induction names with
  | nil => exact keeps_pure fun _ h => nomatch h
  | cons name names ih =>
    refine keeps_get fun r found hr => ?_
    split
    · next ty hty =>
      refine ih.leaf fun others hothers => keeps_pure (List.forall_mem_cons.2 ⟨?_, hothers⟩)
      exact hr.exports hx _ (Arena.mem_of_export? hty)
    · exact (keeps_complain (by simp [Complaint.types])).after fun _ _ => ih

theorem keeps_declareImported (span : Span) {names : List (String × Ty)} (hnames : ∀ e ∈ names, e.2.Excused R) :
    Keeps R a i [] (declareImported (within a imports i conditional) span names) fun _ => True := by
  induction names with
  | nil => exact keeps_pure trivial
  | cons e names ih =>
    obtain ⟨hty, hnames⟩ := List.forall_mem_cons.1 hnames
    exact (keeps_newVariable (Nat.zero_le i) e.1 hty span.start).after fun _ _ => ih hnames

/-- what is imported has no error type in it -/
def Sound (a : Arena) (imports : Imports) : Prop :=
  ∀ path dependency, imports.find? path = some dependency → ∀ e ∈ a.exports dependency, e.2.hasError = false

theorem keeps_use (himports : Sound a imports) (path : String) (names : Option (List String)) (span : Span) :
    Keeps R a i [] (use (within a imports i conditional) path names span) fun _ => True := by
  unfold use
  split
  · exact (keeps_complain (by simp [Complaint.types])).mono fun _ _ => trivial
  split
  · exact (keeps_complain (by simp [Complaint.types])).mono fun _ _ => trivial
  next dependency hpath =>
  have hx := himports path dependency hpath
  split
  · exact (keeps_importedNames path hx span _).leaf fun found hfound => keeps_declareImported span hfound
  · exact keeps_get fun r found hr => keeps_declareImported span (hr.exports hx)

theorem keeps_declareParams (params : List Parameter) :
    Keeps R a i [] (declareParams (a.scopes.size + i) params) fun _ => True := by
  induction params with
  | nil => exact keeps_pure trivial
  | cons param params ih =>
    exact (keeps_newParameter param.name (.of_clean (Ty.hasError_ofNote param.note)) _).after fun _ _ => ih

/-! ## Trees -/

/-- a value is checked and asked not to be a call that gives nothing -/
theorem keeps_value {e : Expr} {f : Ty → Traced β}
    (he : Keeps R a i es (expr (within a imports i conditional) e) (Ty.Excused R))
    (hf : ∀ ty, ty.Excused R → Keeps R a i es' (f ty) Q) :
    Keeps R a i (es ++ es')
      (expr (within a imports i conditional) e >>= asValue (within a imports i conditional) e.span >>= f) Q :=
  (he.leaf fun _ hty => keeps_asValue e.span hty).bind hf

/-- nothing is checked behind a value -/
theorem keeps_lastValue {e : Expr} {f : Ty → Traced β}
    (he : Keeps R a i es (expr (within a imports i conditional) e) (Ty.Excused R))
    (hf : ∀ ty, ty.Excused R → Keeps R a i [] (f ty) Q) :
    Keeps R a i es
      (expr (within a imports i conditional) e >>= asValue (within a imports i conditional) e.span >>= f) Q :=
  (he.leaf fun _ hty => keeps_asValue e.span hty).leaf hf

-- by recursion on the tree, for every scope of what is built: a literal's body stands in a scope of its own

mutual

theorem keeps_expr (himports : Sound a imports) (e : Expr) (i : Nat) (conditional : Bool) :
    Keeps R a i e.checked (expr (within a imports i conditional) e) (Ty.Excused R) := by
  cases e with
  | number | text | truth =>
    unfold expr Expr.checked
    exact (keeps_pure (.of_clean rfl)).typed
  | ident name span =>
    unfold expr Expr.checked
    exact (keeps_ident name span).typed
  | self span =>
    unfold expr Expr.checked
    exact (keeps_selfReference span).typed
  | list items span =>
    unfold expr Expr.checked
    refine Keeps.typed ?_
    cases items with
    | nil =>
      unfold list Expr.checkedAll
      exact keeps_refuse (by simp [Complaint.types])
    | cons first rest =>
      unfold list Expr.checkedAll
      refine keeps_value (keeps_expr himports first i conditional) fun element helement =>
        (keeps_elements himports helement rest i conditional).leaf fun agree hagree => keeps_pure ?_
      split
      · next h =>
        rw [Bool.or_eq_true, Bool.not_eq_true'] at h
        exact .of_reported (h.elim helement.reported hagree)
      · next h =>
        rw [Bool.or_eq_true, not_or, Bool.not_eq_true] at h
        exact Ty.Excused.of_clean (helement.clean h.1)
  | function id params result body span =>
    cases body with
    | mk body bodySpan =>
      unfold expr block Expr.checked Block.checked
      have hsignature := Signature.hasError_ofNotes params result
      exact (keeps_openScope id hsignature fun j _ => (keeps_declareParams params).after fun _ _ =>
        (keeps_stmts himports body j conditional).leaf fun _ _ => keeps_pure (.of_clean hsignature)).typed
  | call callee arguments span =>
    unfold expr Expr.checked
    exact ((keeps_values himports arguments i conditional).bind fun received hreceived =>
      keeps_lastValue (keeps_expr himports callee i conditional) fun function hfunction =>
        keeps_call hfunction hreceived span).typed
  | assign target assigned span =>
    unfold expr Expr.checked
    exact (keeps_lastValue (keeps_expr himports assigned i conditional) fun ty hty =>
      keeps_assign target hty assigned.span).typed
  | binary operator left right span =>
    unfold expr Expr.checked
    exact (keeps_value (keeps_expr himports left i conditional) fun l hl =>
      keeps_lastValue (keeps_expr himports right i conditional) fun r hr => keeps_binary operator hl hr span).typed
  | subscript target index span =>
    unfold expr Expr.checked
    exact (keeps_value (keeps_expr himports target i conditional) fun t ht =>
      keeps_lastValue (keeps_expr himports index i conditional) fun x hx =>
        keeps_subscript ht hx index.span span).typed
termination_by structural e

theorem keeps_values (himports : Sound a imports) (es : List Expr) (i : Nat) (conditional : Bool) :
    Keeps R a i (Expr.checkedAll es) (values (within a imports i conditional) es) fun tys =>
    ∀ x ∈ tys, x.1.Excused R := by
  cases es with
  | nil =>
    unfold values Expr.checkedAll
    exact keeps_pure fun _ h => nomatch h
  | cons e es =>
    unfold values Expr.checkedAll
    exact keeps_value (keeps_expr himports e i conditional) fun ty hty =>
      (keeps_values himports es i conditional).leaf fun tys htys => keeps_pure (List.forall_mem_cons.2 ⟨hty, htys⟩)
termination_by structural es

theorem keeps_elements (himports : Sound a imports) {element : Ty} (helement : element.Excused R) (es : List Expr)
    (i : Nat) (conditional : Bool) : Keeps R a i (Expr.checkedAll es)
      (elements (within a imports i conditional) element es) fun agree => agree = false → R := by
  cases es with
  | nil =>
    unfold elements Expr.checkedAll
    exact keeps_pure fun h => nomatch h
  | cons e es =>
    unfold elements Expr.checkedAll
    refine keeps_value (keeps_expr himports e i conditional) fun ty hty => ?_
    split
    · exact keeps_elements himports helement es i conditional
    · next h =>
      rw [Bool.or_eq_true, not_or] at h
      exact (keeps_complain (by exact clean_of_operands helement hty h.1)).after fun _ hR =>
        (keeps_values himports es i conditional).discard.leaf fun _ _ => keeps_pure fun _ => hR
termination_by structural es

theorem keeps_declaration (himports : Sound a imports) (d : Declaration) (i : Nat) (conditional : Bool) :
    Keeps R a i d.checked (declaration (within a imports i conditional) d) fun declared =>
      ∀ ty ∈ declared, ty.Excused R := by
  cases d with
  | mk name note initial span =>
    unfold declaration Declaration.checked
    exact keeps_lastValue (keeps_expr himports initial i conditional) fun ty hty =>
      keeps_declare name note hty initial.span span
termination_by structural d

theorem keeps_stmt (himports : Sound a imports) (s : Stmt) (i : Nat) (conditional : Bool) :
    Keeps R a i s.checked (stmt (within a imports i conditional) s) fun _ => True := by
  cases s with
  | cond condition body span =>
    cases body with
    | mk body bodySpan =>
      unfold stmt block Stmt.checked Block.checked
      refine keeps_value (keeps_expr himports condition i conditional) fun ty hty => ?_
      dsimp only
      split
      · next h =>
        rw [Bool.and_eq_true, Bool.not_eq_true'] at h
        exact (keeps_complain (by simp [Complaint.types, hty.clean h.1])).after fun _ _ =>
          keeps_stmts himports body i true
      · exact keeps_stmts himports body i true
  | declare d =>
    unfold stmt Stmt.checked
    exact (keeps_declaration himports d i conditional).discard
  | giveBack value span =>
    cases value with
    | none =>
      unfold stmt Stmt.checked
      exact keeps_giveBack (by simp) span
    | some e =>
      unfold stmt Stmt.checked
      refine keeps_lastValue (keeps_expr himports e i conditional) fun ty hty => keeps_giveBack (fun x hx => ?_) span
      cases hx
      exact hty
  | eval e span =>
    unfold stmt Stmt.checked
    exact (keeps_expr himports e i conditional).discard
  | pub d span =>
    unfold stmt Stmt.checked
    split
    · exact (keeps_complain (by simp [Complaint.types])).after fun _ _ =>
        (keeps_declaration himports d i conditional).discard
    · refine (keeps_declaration himports d i conditional).leaf fun declared hdeclared => ?_
      cases declared with
      | none => exact keeps_pure trivial
      | some ty => exact (keeps_addExport d.name (hdeclared ty rfl) span.start).discard
  | use path names span =>
    unfold stmt Stmt.checked
    exact keeps_use himports path names span
termination_by structural s

theorem keeps_stmts (himports : Sound a imports) (ss : List Stmt) (i : Nat) (conditional : Bool) :
    Keeps R a i (Stmt.checkedAll ss) (stmts (within a imports i conditional) ss) fun _ => True := by
  cases ss with
  | nil =>
    unfold stmts Stmt.checkedAll
    exact keeps_pure trivial
  | cons s ss =>
    unfold stmts Stmt.checkedAll
    exact (keeps_stmt himports s i conditional).bind fun _ _ => keeps_stmts himports ss i conditional
termination_by structural ss

end

theorem behind_start (R : Prop) (a : Arena) : Behind R a 0 (Check.start a) [] := by
  have hnew := Arena.newGlobal_append a .empty
  rw [Arena.append_empty] at hnew
  have hstart : Check.start a = ⟨a.append Arena.empty.newGlobal.2, .empty⟩ := by rw [Check.start, hnew]
  rw [hstart]
  exact .mk Arena.own_start (by decide)

end Traced

/-- The check of a module finds only types that are excused by what is reported. What is reported are the diagnostics of
the module, in their order, and the expressions whose types are found are all those of the body. -/
theorem tracedModule_reports {arena : Arena} {imports : Imports}
    (himports : Traced.Sound arena imports) (body : Block) :
    let o := tracedModule arena body imports
    o.record.arena.diagnostics arena.scopes.size = o.diagnostics ∧ o.events.filterMap Event.expr? = body.checked ∧
      (∀ x s, arena.scopes.size ≤ x → o.record.arena.get? x = some s → s.Excused (o.diagnostics ≠ [])) ∧
      ∀ e ∈ o.events, e.Excused (o.diagnostics ≠ []) := by
  obtain ⟨body, span⟩ := body
  intro o
  obtain ⟨hbehind, -, hevents, hexprs⟩ := Traced.keeps_stmts (R := o.diagnostics ≠ []) himports body 0 false _ _
    (Traced.behind_start _ arena) id
  change Traced.Behind (o.diagnostics ≠ []) arena 0 o.record o.diagnostics at hbehind
  refine ⟨?_, hexprs, ?_, hevents⟩
  all_goals
    generalize o.diagnostics = found at hbehind
    generalize o.record = r at hbehind
    obtain @⟨m, functions, hm, hi⟩ := hbehind
  · exact Arena.diagnostics_append hm.ordered hi
  · intro x s hx hs
    obtain ⟨i, rfl⟩ := Nat.exists_eq_add_of_le hx
    dsimp only at hs
    rw [Arena.get?_append_right] at hs
    obtain ⟨t, ht, rfl⟩ := Option.map_eq_some_iff.1 hs
    exact (hm.excused i t ht).moved _ _

end TypedScript
