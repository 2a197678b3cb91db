/-
Direct evaluation and the machine, one instruction at a time. A value of direct evaluation becomes one of the machine
when each function literal in it gives way to its template (`lower`), and so does a whole state (`State.lower`). A host
behaves the same on both sides when its answers and what it remembers are lowered alike (`Mirrors`). Then every part of
direct evaluation has the instruction that does the same to lowered states.
-/
import TypedScript.Proofs.Direct.Evaluate
import TypedScript.Proofs.Machine.Map
import TypedScript.Proofs.Machine.Settles

namespace TypedScript

namespace Store

variable {φ ψ : Type}

theorem fill_map (f : φ → ψ) (s : Store φ) (frame : FrameId) (slots : List (Cell × Option (Value φ))) :
    (s.fill frame slots).map f = (s.map f).fill frame (slots.map fun slot => (slot.1, slot.2.map (Value.map f))) := by
  unfold fill
  induction slots generalizing s with
  | nil => rfl
  | cons slot slots ih => rw [List.map_cons, List.foldl_cons, List.foldl_cons, ih, put_map]

theorem fill_append (s : Store φ) (frame : FrameId) (slots slots' : List (Cell × Option (Value φ))) :
    s.fill frame (slots ++ slots') = (s.fill frame slots).fill frame slots' := List.foldl_append

theorem size_put (s : Store φ) (frame : FrameId) (cell : Nat) (content : Option (Value φ)) :
    (s.put frame cell content).frames.size = s.frames.size := Array.size_modify

/-- what was just put into a frame is found there -/
theorem slot?_put_self {s : Store φ} {frame : FrameId} (h : frame < s.frames.size) (cell : Nat)
    (content : Option (Value φ)) : (s.put frame cell content).slot? frame cell = some content := by
  unfold slot? get? put
  rw [Array.getElem?_modify, if_pos rfl, Array.getElem?_eq_getElem h, Option.map_some, Option.bind_some,
    Table.find?_insert, if_pos rfl]

/-- what is put over something that was just put there replaces it -/
theorem put_put (s : Store φ) (frame : FrameId) (cell : Nat) (content content' : Option (Value φ)) :
    (s.put frame cell content).put frame cell content' = s.put frame cell content' := by
  unfold put
  congr 1
  refine Array.ext_getElem? fun i => ?_
  simp only [Array.getElem?_modify]
  split
  · cases s.frames[i]? with
    | none => rfl
    | some fr => simp only [Option.map_some, Table.insert_insert]
  · rfl

end Store

namespace Direct

variable {σ τ : Type}

/-- a value as the machine has it -/
def lower : Val → Value := Value.map (Bound.Function.template false)

/-- a state as the machine has it where so many calls are open -/
def State.lower (view : σ → τ) (limit depth : Nat) (s : State σ) : Machine τ :=
  ⟨limit, depth, s.modules.map (Table.map Direct.lower), s.store.map (Bound.Function.template false), view s.memory⟩

/-- a host of the machine does the same as one of direct evaluation, seen through what the machine's one remembers -/
def Mirrors (host : Host σ) (machine : TypedScript.Host τ) (view : σ → τ) : Prop :=
  ∀ id arguments memory, machine.respond id (arguments.map lower) (view memory) =
    ((host.respond id arguments memory).1.map lower, view (host.respond id arguments memory).2)

variable {α β : Type} {host : Host σ} {machine : TypedScript.Host τ} {view : σ → τ} {limit depth : Nat}
  {frame : FrameId} {body : Code} {place : Nat} {stack : Operands} {s : State σ} {r : Run.Ending τ}

theorem bind_apply (x : Eval σ α) (f : α → Eval σ β) (s : State σ) :
    (x >>= f) s =
      match x s with
      | .ok a s => f a s
      | .error e s => .error e s := by
  change EStateM.bind x f s = _
  unfold EStateM.bind
  cases x s <;> rfl

/-! ## After a part -/

/-- a run ends with the fault of a part of direct evaluation, or goes on as `k` says -/
def After (view : σ → τ) (limit depth : Nat) (r : Run.Ending τ) (k : α → State σ → Prop) :
    EStateM.Result RuntimeFault (State σ) α → Prop
  | .ok a s => k a s
  | .error fault s => r = .error (.fault fault) (s.lower view limit depth)

theorem after_bind {x : Eval σ α} {f : α → Eval σ β} {k : β → State σ → Prop} :
    After view limit depth r k ((x >>= f) s) ↔
      After view limit depth r (fun a s => After view limit depth r k (f a s)) (x s) := by
  rw [bind_apply]
  cases x s <;> rfl

theorem After.imp {k k' : α → State σ → Prop} {result : EStateM.Result RuntimeFault (State σ) α}
    (h : After view limit depth r k result) (himp : ∀ a s, result = .ok a s → k a s → k' a s) :
    After view limit depth r k' result := by
  cases result with
  | ok a s => exact himp a s rfl h
  | error fault s => exact h

/-! ## Single instructions -/

/-- a part of direct evaluation, and what the machine comes to after the instruction that does the same -/
def stepOf (view : σ → τ) (limit depth : Nat) (push : α → Operands) :
    EStateM.Result RuntimeFault (State σ) α → EStateM.Result Stop (Machine τ) Flow
  | .ok a s => .ok (.next (push a)) (s.lower view limit depth)
  | .error fault s => .error (.fault fault) (s.lower view limit depth)

theorem settles_step {x : Eval σ α} {push : α → Operands} {i : Instruction} (hi : body[place]? = some i)
    (hx : Run.execute machine frame stack i (s.lower view limit depth) = stepOf view limit depth push (x s))
    (h : After view limit depth r
      (fun a s => Run.Settles machine body frame (place + 1) (push a) (s.lower view limit depth) r) (x s)) :
    Run.Settles machine body frame place stack (s.lower view limit depth) r := by
  cases hxs : x s with
  | ok a s' =>
    rw [hxs] at hx h
    exact Run.settles_next hi hx h
  | error fault s' =>
    rw [hxs] at hx h
    exact h ▸ Run.settles_error hi hx

theorem execute_load (cell : Cell) :
    Run.execute machine frame stack (.load cell) (s.lower view limit depth) =
      stepOf view limit depth (fun v => lower v :: stack) (load frame cell s) := by
  have hload : (s.lower view limit depth).store.load frame cell = (s.store.load frame cell).map lower :=
    Store.load_map _ _ _ _
  change (Run.ofExcept ((s.lower view limit depth).store.load frame cell) >>= _) (s.lower view limit depth) =
    stepOf view limit depth _ (ofExcept (s.store.load frame cell) s)
  rw [hload]
  cases s.store.load frame cell <;> rfl

theorem get_apply (s : State σ) : (get : Eval σ (State σ)) s = .ok s s := rfl

theorem selfReference_apply (frame : FrameId) (s : State σ) :
    selfReference frame s =
      match s.store.running? frame with
      | some c => .ok (.closure c) s
      | none => .error .noSelf s := by
  unfold selfReference
  rw [bind_apply, get_apply]
  dsimp only
  cases s.store.running? frame <;> rfl

theorem imported_apply (module name : String) (s : State σ) :
    imported module name s =
      match export? s module name with
      | some value => .ok value s
      | none => .error (.missingExport module name) s := by
  unfold imported
  rw [bind_apply, get_apply]
  dsimp only
  cases export? s module name <;> rfl

theorem ask_apply (host : Host σ) (b : Builtin) (arguments : List Val) (s : State σ) :
    ask host b arguments s =
      match (host.respond b.id arguments s.memory).1 with
      | .ok value => .ok value { s with memory := (host.respond b.id arguments s.memory).2 }
      | .error message =>
        .error (.host b.name message) { s with memory := (host.respond b.id arguments s.memory).2 } := by
  unfold ask
  rw [bind_apply]
  dsimp only [modifyGet, MonadStateOf.modifyGet, EStateM.modifyGet]
  cases (host.respond b.id arguments s.memory).1 <;> rfl

theorem assign_apply (cell : Cell) (v : Val) (s : State σ) :
    assign frame cell v s =
      match s.store.holder? frame cell.id with
      | some holder => .ok () { s with store := s.store.put holder cell.id (some v) }
      | none => .error (.missingCell cell.id cell.name) s := by
  change (ofExcept (s.store.store frame cell v) >>= _) s = _
  unfold Store.store
  cases s.store.holder? frame cell.id <;> rfl

theorem execute_store (cell : Cell) (v : Val) :
    Run.execute machine frame (lower v :: stack) (.store cell) (s.lower view limit depth) =
      stepOf view limit depth (fun _ => stack) (assign frame cell v s) := by
  change (Run.assign frame cell (lower v) >>= _) (s.lower view limit depth) = _
  rw [Run.bind_apply, assign_apply]
  unfold Run.assign
  have hholder : (s.lower view limit depth).store.holder? frame cell.id = s.store.holder? frame cell.id :=
    Store.holder?_map _ _ _ _
  rw [hholder]
  cases s.store.holder? frame cell.id with
  | none => rfl
  | some holder =>
    dsimp only [stepOf, State.lower]
    rw [Store.put_map]
    rfl

theorem execute_self :
    Run.execute machine frame stack .loadSelf (s.lower view limit depth) =
      stepOf view limit depth (fun v => lower v :: stack) (selfReference frame s) := by
  have hrunning : (s.lower view limit depth).store.running? frame =
      (s.store.running? frame).map (Closure.map (Bound.Function.template false)) := Store.running?_map _ _ _
  unfold Run.execute
  dsimp only
  rw [Run.bind_apply, selfReference_apply]
  dsimp only [get, getThe, MonadStateOf.get, EStateM.get]
  rw [hrunning]
  cases s.store.running? frame <;> rfl

theorem execute_function (f : Bound.Function) :
    Run.execute machine frame stack (.push (.function (f.template false))) (s.lower view limit depth) =
      stepOf view limit depth (fun v => lower v :: stack) (makeFunction frame f s) := rfl

theorem execute_binary (op : BinaryOp) (left right : Val) :
    Run.execute machine frame (lower right :: lower left :: stack) (.binary op) (s.lower view limit depth) =
      stepOf view limit depth (fun v => lower v :: stack) (ofExcept (op.apply left right) s) := by
  change (Run.ofExcept (op.apply (lower left) (lower right)) >>= _) (s.lower view limit depth) = _
  have happly : op.apply (lower left) (lower right) = (op.apply left right).map lower := BinaryOp.apply_map _ _ _ _
  rw [happly]
  cases op.apply left right <;> rfl

theorem execute_subscript (target index : Val) :
    Run.execute machine frame (lower index :: lower target :: stack) .subscript (s.lower view limit depth) =
      stepOf view limit depth (fun v => lower v :: stack) (ofExcept (target.subscript index) s) := by
  change (Run.ofExcept ((lower target).subscript (lower index)) >>= _) (s.lower view limit depth) = _
  have hsubscript : (lower target).subscript (lower index) = (target.subscript index).map lower :=
    Value.subscript_map _ _ _
  rw [hsubscript]
  cases target.subscript index <;> rfl

theorem execute_list (vs : List Val) :
    Run.execute machine frame ((vs.map lower).reverse ++ stack) (.makeList vs.length) (s.lower view limit depth) =
      .ok (.next (lower (.list vs) :: stack)) (s.lower view limit depth) := by
  have hpop := Operands.popN_append (vs.map lower) stack
  rw [List.length_map] at hpop
  have hlist : lower (.list vs) = .list (vs.map lower) := congrArg Value.list (Value.mapItems_eq _ vs)
  change (Run.ofExcept (Operands.popN ((vs.map lower).reverse ++ stack) vs.length) >>= _)
    (s.lower view limit depth) = _
  rw [hpop, hlist]
  rfl

theorem execute_jumpIfFalse (v : Val) (target : Nat) :
    Run.execute machine frame (lower v :: stack) (.jumpIfFalse target) (s.lower view limit depth) =
      match v.asBool with
      | .ok true => .ok (.next stack) (s.lower view limit depth)
      | .ok false => .ok (.jump target stack) (s.lower view limit depth)
      | .error fault => .error (.fault fault) (s.lower view limit depth) := by
  have hbool : (lower v).asBool = v.asBool := Value.asBool_map _ v
  change (Run.ofExcept (lower v).asBool >>= _) (s.lower view limit depth) = _
  rw [hbool]
  cases v.asBool with
  | error fault => rfl
  | ok b => cases b <;> rfl

theorem export?_lower (module name : String) :
    (s.lower view limit depth).export? module name = (export? s module name).map lower := by
  unfold Machine.export? export? State.lower
  rw [Table.find?_map]
  cases s.modules.find? module with
  | none => rfl
  | some exports => exact Table.find?_map _ _ _

theorem execute_import (module name : String) :
    Run.execute machine frame stack (.loadImport module name) (s.lower view limit depth) =
      stepOf view limit depth (fun v => lower v :: stack) (imported module name s) := by
  unfold Run.execute
  dsimp only
  rw [Run.bind_apply, imported_apply]
  dsimp only [get, getThe, MonadStateOf.get, EStateM.get]
  rw [export?_lower]
  cases export? s module name <;> rfl

/-- a builtin of the host is called -/
theorem execute_ask (hmirrors : Mirrors host machine view) (b : Builtin) (arguments : List Val) :
    Run.execute machine frame (.builtin b :: ((arguments.map lower).reverse ++ stack)) (.dispatch arguments.length)
        (s.lower view limit depth) =
      stepOf view limit depth (fun v => lower v :: stack) (ask host b arguments s) := by
  have hpop := Operands.popN_append (arguments.map lower) stack
  rw [List.length_map] at hpop
  have hanswer := hmirrors b.id arguments s.memory
  change Run.dispatch machine (.builtin b) arguments.length ((arguments.map lower).reverse ++ stack)
    (s.lower view limit depth) = _
  obtain ⟨respond⟩ := machine
  unfold Run.dispatch
  rw [hpop, ask_apply]
  dsimp only [Run.ofExcept] at hanswer ⊢
  rw [pure_bind]
  dsimp only
  rw [Run.bind_apply, Run.modifyGet_apply]
  dsimp only
  rw [show (s.lower view limit depth).memory = view s.memory from rfl, hanswer]
  cases (host.respond b.id arguments s.memory).1 <;> rfl

theorem execute_refused (hdepth : limit ≤ depth) (c : Closure Bound.Function) (count : Nat) :
    Run.execute machine frame (lower (.closure c) :: stack) (.dispatch count) (s.lower view limit depth) =
      .error (.fault (.callDepthExceeded limit)) (s.lower view limit depth) :=
  (Run.dispatch_closure machine _ _ _ _).trans (if_pos hdepth)

theorem execute_enter (hdepth : ¬ limit ≤ depth) (c : Closure Bound.Function) (arguments : List Val) :
    Run.execute machine frame (lower (.closure c) :: ((arguments.map lower).reverse ++ stack))
        (.dispatch arguments.length) (s.lower view limit depth) =
      .ok (.enter (c.map (Bound.Function.template false)) (arguments.map lower) stack) (s.lower view limit depth) := by
  have hpop := Operands.popN_append (arguments.map lower) stack
  rw [List.length_map] at hpop
  refine (Run.dispatch_closure machine _ _ _ _).trans ((if_neg hdepth).trans ?_)
  rw [hpop]

/-! ## Frames -/

/-- parameters get the arguments, as far as both go -/
theorem bindArguments_eq {m : Machine τ} (h : frame < m.store.frames.size) (cells : List Cell) (values : List Value) :
    Run.bindArguments frame cells values m =
      .ok () { m with store := m.store.fill frame ((cells.zip values).map fun p => (p.1, some p.2)) } := by
  induction cells generalizing values m with
  | nil => rfl
  | cons cell cells ih =>
    cases values with
    | nil => rfl
    | cons value values =>
      let reserved : Machine τ := { m with store := m.store.reserve frame cell }
      have hholder : reserved.store.holder? frame cell.id = some frame := by
        rw [Store.holder?_eq, if_pos]
        change ((m.store.put frame cell.id none).slot? frame cell.id).isSome = true
        rw [Store.slot?_put_self h]
        rfl
      have hassign : Run.assign frame cell value reserved =
          .ok () { m with store := m.store.put frame cell.id (some value) } := by
        unfold Run.assign
        rw [hholder]
        change EStateM.Result.ok () { m with
          store := (m.store.put frame cell.id none).put frame cell.id (some value) } = _
        rw [Store.put_put]
      change (Run.assign frame cell value >>= fun _ => Run.bindArguments frame cells values) reserved = _
      rw [Run.bind_apply, hassign]
      dsimp only
      rw [ih (by rw [Store.size_put]; exact h)]
      rfl

/-- a call's frame, before its variables have their slots -/
theorem openCall_lower (c : Closure Bound.Function) (arguments : List Val) (s : State σ) :
    Run.openCall (c.map (Bound.Function.template false)) (arguments.map lower) (s.lower view limit depth) =
      .ok (s.store.newCall c).1
        (State.lower view limit depth
          { s with
            store := (s.store.newCall c).2.fill (s.store.newCall c).1
              ((c.template.params.zip arguments).map fun p => (p.1, some p.2)) }) := by
  have hmade : ((s.lower view limit depth).store.newCall (c.map (Bound.Function.template false))) =
      ((s.store.newCall c).1, (s.store.newCall c).2.map (Bound.Function.template false)) :=
    Store.newCall_map _ _ _
  have hparameters : (c.map (Bound.Function.template false)).template.parameters = c.template.params := by
    obtain ⟨_, ⟨_, _, _, _, _⟩, _⟩ := c
    rfl
  change (Run.bindArguments ((s.lower view limit depth).store.newCall (c.map (Bound.Function.template false))).1
      (c.map (Bound.Function.template false)).template.parameters (arguments.map lower) >>= fun _ =>
        pure ((s.lower view limit depth).store.newCall (c.map (Bound.Function.template false))).1)
    { s.lower view limit depth with
      store := ((s.lower view limit depth).store.newCall (c.map (Bound.Function.template false))).2 } = _
  rw [Run.bind_apply, hmade, hparameters, bindArguments_eq]
  · dsimp only [State.lower]
    rw [Store.fill_map, List.zip_map_right, List.map_map, List.map_map]
    rfl
  · change s.store.frames.size < ((s.store.frames.push _).map _).size
    rw [Array.size_map, Array.size_push]
    exact Nat.lt_succ_self _

end Direct

end TypedScript
