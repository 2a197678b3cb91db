/-
Code does what its bound tree means. The statements are about runs with as much fuel as they need: if what comes after
the code of a part leads to an ending, so does the code of the part, wherever it stands (`At`).

- `settles_expr`, `settles_stmt`: the code of an expression leaves its value on the stack; the code of a statement ends
  the body or leaves the stack as it is.
- `calls_invoke`: calling a function in direct evaluation does what the machine does when it enters a closure.
-/
import TypedScript.Proofs.Direct.Lower

namespace TypedScript

/-- code stands in a body from a place on -/
def At (body : Code) (place : Nat) (code : Code) : Prop := code <+: body.drop place

namespace At

variable {body code code' : Code} {place : Nat} {i : Instruction}

theorem left (h : At body place (code ++ code')) : At body place code := (List.prefix_append _ _).trans h

theorem right (h : At body place (code ++ code')) : At body (place + code.length) code' := by
  obtain ⟨more, hmore⟩ := h
  have hdrop : (body.drop place).drop code.length = code' ++ more := by
    rw [← hmore, List.append_assoc, List.drop_left]
  rw [List.drop_drop] at hdrop
  exact ⟨more, hdrop.symm⟩

theorem head (h : At body place (i :: code)) : body[place]? = some i := by
  obtain ⟨more, hmore⟩ := h
  have hplace : (body.drop place)[0]? = some i := by
    rw [← hmore]
    rfl
  rwa [List.getElem?_drop, Nat.add_zero] at hplace

theorem tail (h : At body place (i :: code)) : At body (place + 1) code := by
  have h' : At body place ([i] ++ code) := h
  exact h'.right

end At

namespace Direct

variable {σ τ : Type} {host : Host σ} {machine : TypedScript.Host τ} {view : σ → τ} {limit depth : Nat}
  {call : Closure Bound.Function → List Val → Eval σ Val} {body : Code} {frame : FrameId}

/-- what calls are in direct evaluation is what the machine does at a call of a closure -/
def Calls (machine : TypedScript.Host τ) (view : σ → τ) (limit depth : Nat)
    (call : Closure Bound.Function → List Val → Eval σ Val) : Prop :=
  ∀ (c : Closure Bound.Function) (arguments : List Val) (s : State σ) (body : Code) (frame : FrameId) (place : Nat)
    (stack : Operands) (r : Run.Ending τ), body[place]? = some (.dispatch arguments.length) →
    After view limit depth r (fun v s =>
      Run.Settles machine body frame (place + 1) (lower v :: stack) (s.lower view limit depth) r) (call c arguments s) →
    Run.Settles machine body frame place (lower (.closure c) :: ((arguments.map lower).reverse ++ stack))
      (s.lower view limit depth) r

/-! ## Expressions -/

theorem length_exprs {es : List Bound.Expr} {s s' : State σ} {vs : List Val}
    (h : exprs host call frame es s = .ok vs s') : vs.length = es.length := by
  induction es generalizing s vs with
  | nil => cases h; rfl
  | cons e es ih =>
    unfold exprs at h
    rw [bind_apply] at h
    cases he : expr host call frame e s with
    | error fault s => rw [he] at h; cases h
    | ok v s =>
      rw [he] at h
      dsimp only at h
      rw [bind_apply] at h
      cases hes : exprs host call frame es s with
      | error fault s => rw [hes] at h; cases h
      | ok vs s =>
        rw [hes] at h
        cases h
        rw [List.length_cons, List.length_cons, ih hes]

/-- a value called with arguments -/
theorem settles_apply (hmirrors : Mirrors host machine view) (hcall : Calls machine view limit depth call)
    {place : Nat} {stack : Operands} {s : State σ} {r : Run.Ending τ} {callee : Val} {arguments : List Val}
    (hi : body[place]? = some (.dispatch arguments.length))
    (h : After view limit depth r (fun v s =>
      Run.Settles machine body frame (place + 1) (lower v :: stack) (s.lower view limit depth) r)
      (apply host call callee arguments s)) :
    Run.Settles machine body frame place (lower callee :: ((arguments.map lower).reverse ++ stack))
      (s.lower view limit depth) r := by
  cases callee with
  | closure c => exact hcall c arguments s body frame place stack r hi h
  | builtin b => exact settles_step hi (execute_ask hmirrors b arguments) h
  | _ => exact h ▸ Run.settles_error hi rfl

mutual

/-- the code of an expression leaves its value on the stack -/
theorem settles_expr (hmirrors : Mirrors host machine view) (hcall : Calls machine view limit depth call)
    {e : Bound.Expr} {place : Nat} {stack : Operands} {s : State σ} {r : Run.Ending τ} (hat : At body place e.code)
    (h : After view limit depth r (fun v s =>
      Run.Settles machine body frame (place + e.code.length) (lower v :: stack) (s.lower view limit depth) r)
      (expr host call frame e s)) :
    Run.Settles machine body frame place stack (s.lower view limit depth) r := by
  cases e with
  | number value => exact Run.settles_next hat.head rfl h
  | text value => exact Run.settles_next hat.head rfl h
  | truth value => exact Run.settles_next hat.head rfl h
  | read cell => exact settles_step hat.head (execute_load cell) h
  | self => exact settles_step hat.head execute_self h
  | function f => exact settles_step hat.head (execute_function f) h
  | list items =>
    unfold expr at h
    unfold Bound.Expr.code at hat h
    rw [List.length_append, ← Nat.add_assoc] at h
    refine settles_exprs hmirrors hcall hat.left ((after_bind.1 h).imp fun vs s hvs h => ?_)
    refine Run.settles_next hat.right.head ?_ h
    rw [← length_exprs hvs]
    exact execute_list vs
  | call callee arguments =>
    unfold expr at h
    unfold Bound.Expr.code at hat h
    rw [List.length_append, List.length_append, ← Nat.add_assoc, ← Nat.add_assoc] at h
    refine settles_exprs hmirrors hcall hat.left.left ((after_bind.1 h).imp fun vs s hvs h => ?_)
    refine settles_expr hmirrors hcall hat.left.right ((after_bind.1 h).imp fun f s _ h => ?_)
    have hi := hat.right.head
    rw [← length_exprs hvs, List.length_append, ← Nat.add_assoc] at hi
    exact settles_apply hmirrors hcall hi h
  | assign cell value =>
    unfold expr at h
    unfold Bound.Expr.code at hat h
    rw [List.length_append, ← Nat.add_assoc] at h
    refine settles_expr hmirrors hcall hat.left ((after_bind.1 h).imp fun v s _ h => ?_)
    refine settles_step hat.right.head (execute_store cell v) ((after_bind.1 h).imp fun _ s _ h => ?_)
    exact Run.settles_next hat.right.tail.head rfl h
  | binary op left right =>
    unfold expr at h
    unfold Bound.Expr.code at hat h
    rw [List.length_append, List.length_append, ← Nat.add_assoc, ← Nat.add_assoc] at h
    refine settles_expr hmirrors hcall hat.left.left ((after_bind.1 h).imp fun l s _ h => ?_)
    refine settles_expr hmirrors hcall hat.left.right ((after_bind.1 h).imp fun r s _ h => ?_)
    have hi := hat.right.head
    rw [List.length_append, ← Nat.add_assoc] at hi
    exact settles_step hi (execute_binary op l r) h
  | subscript target index =>
    unfold expr at h
    unfold Bound.Expr.code at hat h
    rw [List.length_append, List.length_append, ← Nat.add_assoc, ← Nat.add_assoc] at h
    refine settles_expr hmirrors hcall hat.left.left ((after_bind.1 h).imp fun t s _ h => ?_)
    refine settles_expr hmirrors hcall hat.left.right ((after_bind.1 h).imp fun i s _ h => ?_)
    have hi := hat.right.head
    rw [List.length_append, ← Nat.add_assoc] at hi
    exact settles_step hi (execute_subscript t i) h
termination_by structural e

/-- the code of expressions leaves their values on the stack, the last one on top -/
theorem settles_exprs (hmirrors : Mirrors host machine view) (hcall : Calls machine view limit depth call)
    {es : List Bound.Expr} {place : Nat} {stack : Operands} {s : State σ} {r : Run.Ending τ}
    (hat : At body place (Bound.Expr.codeOf es))
    (h : After view limit depth r (fun vs s =>
      Run.Settles machine body frame (place + (Bound.Expr.codeOf es).length) ((vs.map lower).reverse ++ stack)
        (s.lower view limit depth) r) (exprs host call frame es s)) :
    Run.Settles machine body frame place stack (s.lower view limit depth) r := by
  cases es with
  | nil => exact h
  | cons e es =>
    unfold exprs at h
    unfold Bound.Expr.codeOf at hat h
    rw [List.length_append, ← Nat.add_assoc] at h
    refine settles_expr hmirrors hcall hat.left ((after_bind.1 h).imp fun v s _ h => ?_)
    refine settles_exprs hmirrors hcall hat.right ((after_bind.1 h).imp fun vs s _ h => ?_)
    have hstack : ((v :: vs).map lower).reverse ++ stack = (vs.map lower).reverse ++ lower v :: stack := by simp
    rw [← hstack]
    exact h
termination_by structural es

end

/-! ## Statements -/

/-- how a body goes on after a statement, or what it ends with -/
def Onward (machine : TypedScript.Host τ) (view : σ → τ) (limit depth : Nat) (body : Code) (frame : FrameId)
    (place : Nat) (r : Run.Ending τ) (result : Option Val) (s : State σ) : Prop :=
  match result with
  | none => Run.Settles machine body frame place [] (s.lower view limit depth) r
  | some v => r = .ok (lower v, []) (s.lower view limit depth)

theorem settles_fetch {module : String} {names : List (String × Cell)} {place : Nat} {stack : Operands} {s : State σ}
    {r : Run.Ending τ} (hat : At body place (Bound.fetches module names))
    (h : After view limit depth r (fun _ s => Run.Settles machine body frame
      (place + (Bound.fetches module names).length) stack (s.lower view limit depth) r) (fetch frame module names s)) :
    Run.Settles machine body frame place stack (s.lower view limit depth) r := by
  induction names generalizing place s with
  | nil => exact h
  | cons item names ih =>
    obtain ⟨name, cell⟩ := item
    unfold Bound.fetches at hat h
    unfold fetch at h
    refine settles_step hat.head (execute_import module name) ((after_bind.1 h).imp fun v s _ h => ?_)
    refine settles_step hat.tail.head (execute_store cell v) ((after_bind.1 h).imp fun _ s _ h => ?_)
    refine ih hat.tail.tail (h.imp fun _ s _ h => ?_)
    have hplace : place + (Bound.fetches module names).length.succ.succ =
        place + 1 + 1 + (Bound.fetches module names).length := by omega
    rw [← hplace]
    exact h

/-- an expression that is not an assignment, evaluated for what it does -/
theorem settles_discard (hmirrors : Mirrors host machine view) (hcall : Calls machine view limit depth call)
    {e : Bound.Expr} {place : Nat} {s : State σ} {r : Run.Ending τ} (hat : At body place (e.code ++ [.pop]))
    (h : After view limit depth r
      (Onward machine view limit depth body frame (place + (e.code ++ [Instruction.pop]).length) r)
      (stmt host call frame (.eval e) s)) :
    Run.Settles machine body frame place [] (s.lower view limit depth) r := by
  unfold stmt at h
  rw [List.length_append, ← Nat.add_assoc] at h
  refine settles_expr hmirrors hcall hat.left ((after_bind.1 h).imp fun v s _ h => ?_)
  exact Run.settles_next hat.right.head rfl h

mutual

/-- the code of a statement ends the body or leaves the stack empty -/
theorem settles_stmt (hmirrors : Mirrors host machine view) (hcall : Calls machine view limit depth call)
    {st : Bound.Stmt} {place : Nat} {s : State σ} {r : Run.Ending τ} (hat : At body place (st.code place))
    (h : After view limit depth r
      (Onward machine view limit depth body frame (place + (st.code place).length) r) (stmt host call frame st s)) :
    Run.Settles machine body frame place [] (s.lower view limit depth) r := by
  cases st with
  | cond condition inside =>
    unfold stmt at h
    unfold Bound.Stmt.code at hat h
    refine settles_expr hmirrors hcall hat.left ((after_bind.1 h).imp fun v s _ h => ?_)
    have hplace (code : Code) (target : Nat) :
        place + (condition.code ++ Instruction.jumpIfFalse target :: code).length =
          place + condition.code.length + 1 + code.length := by
      rw [List.length_append, List.length_cons]
      omega
    dsimp only at h
    rw [hplace] at h
    cases htest : v.asBool with
    | error fault =>
      rw [htest] at h
      exact h ▸ Run.settles_error hat.right.head ((execute_jumpIfFalse v _).trans (by rw [htest]))
    | ok test =>
      rw [htest] at h
      cases test with
      | true =>
        refine Run.settles_next hat.right.head ((execute_jumpIfFalse v _).trans (by rw [htest])) ?_
        exact settles_stmts hmirrors hcall hat.right.tail h
      | false => exact Run.settles_jump hat.right.head ((execute_jumpIfFalse v _).trans (by rw [htest])) h
  | declare cell value =>
    unfold stmt at h
    unfold Bound.Stmt.code at hat h
    rw [List.length_append, ← Nat.add_assoc] at h
    refine settles_expr hmirrors hcall hat.left ((after_bind.1 h).imp fun v s _ h => ?_)
    exact settles_step hat.right.head (execute_store cell v) ((after_bind.1 h).imp fun _ s _ h => h)
  | giveBack value =>
    cases value with
    | none =>
      have hr : r = .ok (.none, []) (s.lower view limit depth) := h
      rw [hr]
      unfold Bound.Stmt.code at hat
      exact Run.settles_next hat.head rfl (Run.settles_exit hat.tail.head rfl)
    | some e =>
      unfold stmt at h
      unfold Bound.Stmt.code at hat
      refine settles_expr hmirrors hcall hat.left ((after_bind.1 h).imp fun v s _ h => ?_)
      have hr : r = .ok (lower v, []) (s.lower view limit depth) := h
      rw [hr]
      exact Run.settles_exit hat.right.head rfl
  | eval e =>
    cases e with
    | assign cell value =>
      unfold stmt expr at h
      unfold Bound.Stmt.code at hat h
      rw [List.length_append, ← Nat.add_assoc] at h
      refine settles_expr hmirrors hcall hat.left ((after_bind.1 (after_bind.1 h)).imp fun v s _ h => ?_)
      exact settles_step hat.right.head (execute_store cell v) ((after_bind.1 h).imp fun _ s _ h => h)
    | _ => exact settles_discard hmirrors hcall hat h
  | use module names =>
    unfold stmt at h
    unfold Bound.Stmt.code at hat h
    exact settles_fetch hat ((after_bind.1 h).imp fun _ s _ h => h)
termination_by structural st

/-- the code of statements ends the body or leaves the stack empty -/
theorem settles_stmts (hmirrors : Mirrors host machine view) (hcall : Calls machine view limit depth call)
    {ss : List Bound.Stmt} {place : Nat} {s : State σ} {r : Run.Ending τ}
    (hat : At body place (Bound.Stmt.codeOf place ss))
    (h : After view limit depth r
      (Onward machine view limit depth body frame (place + (Bound.Stmt.codeOf place ss).length) r)
      (stmts host call frame ss s)) :
    Run.Settles machine body frame place [] (s.lower view limit depth) r := by
  cases ss with
  | nil => exact h
  | cons st ss =>
    unfold stmts at h
    unfold Bound.Stmt.codeOf at hat h
    rw [List.length_append, ← Nat.add_assoc] at h
    refine settles_stmt hmirrors hcall hat.left ((after_bind.1 h).imp fun result s _ h => ?_)
    cases result with
    | some v => exact h
    | none => exact settles_stmts hmirrors hcall hat.right h
termination_by structural ss

end

/-! ## Bodies -/

theorem settles_reserves {cells : List Cell} {place : Nat} {stack : Operands} {s : State σ} {r : Run.Ending τ}
    (hat : At body place (cells.map .reserve))
    (h : Run.Settles machine body frame (place + cells.length) stack
      (State.lower view limit depth { s with store := s.store.fill frame (cells.map fun cell => (cell, none)) }) r) :
    Run.Settles machine body frame place stack (s.lower view limit depth) r := by
  induction cells generalizing place s with
  | nil => exact h
  | cons cell cells ih =>
    have hreserve : Run.execute machine frame stack (.reserve cell) (s.lower view limit depth) =
        .ok (.next stack)
          (State.lower view limit depth { s with store := s.store.put frame cell.id none }) := by
      dsimp only [State.lower]
      rw [Store.put_map]
      rfl
    refine Run.settles_next hat.head hreserve (ih hat.tail ?_)
    rw [Nat.add_assoc, Nat.add_comm 1]
    exact h

/-- how a body ends whose statements end so -/
def closing (view : σ → τ) (limit depth : Nat) :
    EStateM.Result RuntimeFault (State σ) (Option Val) → Run.Ending τ
  | .ok result s => .ok (lower (result.getD .none), []) (s.lower view limit depth)
  | .error fault s => .error (.fault fault) (s.lower view limit depth)

/-- the code of a body in a frame without slots for its variables -/
theorem settles_body (hmirrors : Mirrors host machine view) (hcall : Calls machine view limit depth call)
    (isModule : Bool) (f : Bound.Function) (frame : FrameId) (s : State σ) :
    Run.Settles machine (f.template isModule).code frame 0 [] (s.lower view limit depth)
      (closing view limit depth (stmts host call frame f.body
        { s with store := s.store.fill frame (f.locals.map fun cell => (cell, none)) })) := by
  obtain ⟨number, signature, params, locals, body⟩ := f
  generalize hr : closing view limit depth _ = r
  unfold Bound.Function.template
  dsimp only
  generalize hcode : locals.map Instruction.reserve ++ Bound.Stmt.codeOf locals.length body ++ Compile.ending isModule =
    code
  have hat : At code 0 (locals.map Instruction.reserve ++ Bound.Stmt.codeOf locals.length body ++
      Compile.ending isModule) := by
    rw [hcode]
    exact List.prefix_refl _
  refine settles_reserves hat.left.left ?_
  have hbody := hat.left.right
  rw [List.length_map, Nat.zero_add] at hbody
  rw [Nat.zero_add]
  refine settles_stmts hmirrors hcall hbody ?_
  dsimp only at hr
  cases hstmts : stmts host call frame body
      { s with store := s.store.fill frame (locals.map fun cell => (cell, none)) } with
  | error fault s =>
    rw [hstmts] at hr
    exact hr.symm
  | ok result s =>
    rw [hstmts] at hr
    cases result with
    | some v => exact hr.symm
    | none =>
      have hending := hat.right
      rw [List.length_append, List.length_map, Nat.zero_add] at hending
      subst hr
      cases isModule with
      | true => exact Run.settles_exit hending.head rfl
      | false => exact Run.settles_next hending.head rfl (Run.settles_exit hending.tail.head rfl)

/-- calling a function does what the machine does when it enters the closure -/
theorem calls_invoke (hmirrors : Mirrors host machine view) (remaining : Nat) :
    ∀ depth, depth + remaining = limit → Calls machine view limit depth (invoke host limit remaining) := by
  induction remaining with
  | zero =>
    intro depth hdepth c arguments s body frame place stack r hi h
    exact h ▸ Run.settles_error hi (execute_refused (Nat.le_of_eq hdepth.symm) c _)
  | succ remaining ih =>
    intro depth hdepth c arguments s body frame place stack r hi h
    have hlt : ¬ limit ≤ depth := by omega
    have hcall := ih (depth + 1) (by omega)
    let inner := (s.store.newCall c).1
    let given : State σ := { s with
      store := (s.store.newCall c).2.fill inner ((c.template.params.zip arguments).map fun p => (p.1, some p.2)) }
    let opened : State σ := { given with
      store := given.store.fill inner (c.template.locals.map fun cell => (cell, none)) }
    have hopen : openCall c arguments s = .ok inner opened := by
      change EStateM.Result.ok inner { s with
        store := (s.store.newCall c).2.fill inner (slots c.template arguments) } = _
      unfold slots
      rw [Store.fill_append]
    unfold invoke at h
    rw [bind_apply, hopen] at h
    dsimp only at h
    rw [bind_apply] at h
    have hbody := settles_body hmirrors hcall false c.template inner given
    refine Run.settles_enter hi (execute_enter hlt c arguments) (openCall_lower c arguments s) hbody ?_
    cases hstmts : stmts host (invoke host limit remaining) inner c.template.body opened with
    | error fault s =>
      rw [hstmts] at h
      exact h
    | ok result s =>
      rw [hstmts] at h
      exact h

end Direct

end TypedScript
