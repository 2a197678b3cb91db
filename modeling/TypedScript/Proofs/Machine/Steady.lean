/-
The count of open calls and the table of registered modules. Every part of a run leaves both as they were, also where it
stops with an error: the count goes up for the code of a call, and comes down again however that code ends. So at each
moment of a run it says how many calls are open there, and a function is entered just if the limit allows for one call
more.

- `Run.steady_code`, `Run.steady_evaluate`: whatever is run, the machine that is left is the one before, later on.
- `Meets.counts`: the count at a moment is the number of calls that are open, which is no more than the limit.
- `Run.execute_closure`, `Run.execute_builtin`: what the dispatch of a function, or of a builtin, comes to.
-/
import TypedScript.Proofs.Machine.Running
import TypedScript.Proofs.Machine.Steps

namespace TypedScript

variable {σ α β : Type} {host : Host σ} {m m' m'' : Machine σ}

/-- a machine later on, where the same modules are registered and the same number of calls are open -/
structure Machine.Later (m m' : Machine σ) : Prop where
  limit : m'.limit = m.limit
  depth : m'.depth = m.depth
  modules : m'.modules = m.modules
  /-- frames and functions are only added -/
  frames : m.store.frames.size ≤ m'.store.frames.size
  identities : m.store.nextIdentity ≤ m'.store.nextIdentity

namespace Machine.Later

theorem refl (m : Machine σ) : Later m m := ⟨rfl, rfl, rfl, Nat.le_refl _, Nat.le_refl _⟩

theorem trans (h : Later m m') (h' : Later m' m'') : Later m m'' :=
  ⟨h'.limit.trans h.limit, h'.depth.trans h.depth, h'.modules.trans h.modules,
    Nat.le_trans h.frames h'.frames, Nat.le_trans h.identities h'.identities⟩

theorem withMemory (m : Machine σ) (memory : σ) : Later m { m with memory } :=
  ⟨rfl, rfl, rfl, Nat.le_refl _, Nat.le_refl _⟩

theorem put (m : Machine σ) (frame : FrameId) (cell : Nat) (content : Option Value) :
    Later m { m with store := m.store.put frame cell content } :=
  ⟨rfl, rfl, rfl, Nat.le_of_eq (Store.size_put _ _ _ _).symm, Nat.le_refl _⟩

theorem add (m : Machine σ) (f : Frame) : Later m { m with store := (m.store.add f).2 } := by
  refine ⟨rfl, rfl, rfl, ?_, Nat.le_refl _⟩
  change _ ≤ (m.store.add f).2.frames.size
  rw [Store.size_addFrame]
  exact Nat.le_succ _

/-- the call that is open while something runs is over when that has ended -/
theorem nested (h : Later { m with depth := m.depth + 1 } m') : Later m { m' with depth := m'.depth - 1 } :=
  ⟨h.limit, Nat.sub_eq_of_eq_add h.depth, h.modules, h.frames, h.identities⟩

end Machine.Later

namespace Run

/-- the machine that is left, whether there is a result or not -/
def last : EStateM.Result Stop (Machine σ) α → Machine σ
  | .ok _ m => m
  | .error _ m => m

/-- however it ends, the count of open calls and the registered modules are what they were -/
def Steady (x : Run σ α) : Prop := ∀ m, Machine.Later m (last (x m))

theorem steady_pure (a : α) : Steady (pure a : Run σ α) := Machine.Later.refl

theorem steady_throw (e : Stop) : Steady (throw e : Run σ α) := Machine.Later.refl

theorem steady_get : Steady (get : Run σ (Machine σ)) := Machine.Later.refl

theorem steady_modifyGet {f : Machine σ → α × Machine σ} (h : ∀ m, Machine.Later m (f m).2) :
    Steady (modifyGet f : Run σ α) := h

theorem steady_ofExcept (e : Except RuntimeFault α) : Steady (ofExcept e : Run σ α) := by
  cases e with
  | error fault => exact steady_throw _
  | ok a => exact steady_pure a

theorem Steady.bind {x : Run σ α} {f : α → Run σ β} (hx : Steady x) (hf : ∀ a, Steady (f a)) : Steady (x >>= f) := by
  intro m
  have hfirst := hx m
  rw [bind_apply]
  cases hresult : x m with
  | error e m' =>
    rw [hresult] at hfirst
    exact hfirst
  | ok a m' =>
    rw [hresult] at hfirst
    exact hfirst.trans (hf a m')

theorem steady_assign (frame : FrameId) (cell : Cell) (v : Value) : Steady (assign frame cell v : Run σ Unit) := by
  intro m
  unfold assign
  cases m.store.holder? frame cell.id with
  | none => exact .refl m
  | some holder => exact .put m holder cell.id (some v)

theorem steady_reserve (frame : FrameId) (cell : Cell) :
    Steady (modify fun m => { m with store := m.store.reserve frame cell } : Run σ Unit) :=
  steady_modifyGet fun m => .put m frame cell.id none

theorem steady_dispatch (host : Host σ) (callee : Value) (count : Nat) (stack : Operands) :
    Steady (dispatch host callee count stack) := by
  unfold dispatch
  cases callee with
  | closure c =>
    refine steady_get.bind fun m => ?_
    dsimp only
    split
    · exact steady_throw _
    · exact (steady_ofExcept _).bind fun _ => steady_pure _
  | builtin b =>
    refine (steady_ofExcept _).bind fun given => ?_
    refine (steady_modifyGet fun m => .withMemory m _).bind fun answer => ?_
    cases answer with
    | ok v => exact steady_pure _
    | error message => exact steady_throw _
  | _ => exact steady_throw _

theorem steady_execute (host : Host σ) (frame : FrameId) (stack : Operands) (i : Instruction) :
    Steady (execute host frame stack i) := by
  have hpop {f : Value × Operands → Run σ Flow} (hf : ∀ found, Steady (f found)) :
      Steady (ofExcept stack.pop >>= f) := (steady_ofExcept _).bind hf
  cases i with
  | halt => exact steady_pure _
  | giveBack => exact hpop fun _ => steady_pure _
  | push c =>
    refine Steady.bind ?_ fun v => steady_pure _
    cases c with
    | function t => exact steady_modifyGet fun m => ⟨rfl, rfl, rfl, Nat.le_refl _, Nat.le_succ _⟩
    | _ => exact steady_pure _
  | pop => exact hpop fun _ => steady_pure _
  | reserve cell => exact (steady_reserve frame cell).bind fun _ => steady_pure _
  | load cell => exact steady_get.bind fun m => (steady_ofExcept _).bind fun _ => steady_pure _
  | store cell => exact hpop fun found => (steady_assign frame cell found.1).bind fun _ => steady_pure _
  | loadSelf =>
    refine steady_get.bind fun m => ?_
    cases m.store.running? frame with
    | none => exact steady_throw _
    | some c => exact steady_pure _
  | jumpIfFalse target =>
    refine hpop fun found => (steady_ofExcept _).bind fun test => ?_
    cases test with
    | true => exact steady_pure _
    | false => exact steady_pure _
  | dispatch count => exact hpop fun found => steady_dispatch host found.1 count found.2
  | makeList count => exact (steady_ofExcept _).bind fun _ => steady_pure _
  | subscript =>
    exact hpop fun index => (steady_ofExcept _).bind fun target => (steady_ofExcept _).bind fun _ => steady_pure _
  | loadImport module name =>
    refine steady_get.bind fun m => ?_
    cases m.export? module name with
    | none => exact steady_throw _
    | some v => exact steady_pure _
  | binary op =>
    exact hpop fun right => (steady_ofExcept _).bind fun left => (steady_ofExcept _).bind fun _ => steady_pure _

theorem steady_bindArguments (frame : FrameId) (cells : List Cell) (values : List Value) :
    Steady (bindArguments frame cells values : Run σ Unit) := by
  induction cells generalizing values with
  | nil => exact steady_pure ()
  | cons cell cells ih =>
    cases values with
    | nil => exact steady_pure ()
    | cons v values =>
      exact (steady_reserve frame cell).bind fun _ => (steady_assign frame cell v).bind fun _ => ih values

theorem steady_openCall (c : Closure) (arguments : List Value) : Steady (openCall c arguments : Run σ FrameId) :=
  (steady_modifyGet fun m => .add m _).bind fun frame =>
    (steady_bindArguments frame _ arguments).bind fun _ => steady_pure frame

/-- the call that is open while something runs is over when that has ended, with a result or without one -/
theorem Steady.nested {x : Run σ α} (h : Steady x) : Steady (nested x) := by
  intro m
  have hinner := (h { m with depth := m.depth + 1 }).nested
  unfold Run.nested
  cases hresult : x { m with depth := m.depth + 1 } with
  | ok a m' =>
    rw [hresult] at hinner
    exact hinner
  | error e m' =>
    rw [hresult] at hinner
    exact hinner

theorem steady_code (host : Host σ) (fuel : Nat) (body : Code) (frame : FrameId) (place : Nat) (stack : Operands) :
    Steady (code host fuel body frame place stack) := by
  induction fuel generalizing body frame place stack with
  | zero => exact steady_throw _
  | succ fuel ih =>
    rw [code]
    cases body[place]? with
    | none => exact steady_pure _
    | some i =>
      refine (steady_execute host frame stack i).bind fun flow => ?_
      cases flow with
      | next stack => exact ih _ _ _ _
      | jump target stack => exact ih _ _ _ _
      | exit value stack => exact steady_pure _
      | enter c arguments stack =>
        refine (steady_openCall c arguments).bind fun inner => ?_
        exact (ih _ _ _ _).nested.bind fun result => ih _ _ _ _

/-- whether the body of a module gives a value or not, the machine is as ready as before -/
theorem steady_evaluate (host : Host σ) (fuel : Nat) (t : Template) : Steady (t.evaluate host fuel) :=
  (steady_modifyGet fun m => .add m _).bind fun frame =>
    (steady_code host fuel t.code frame 0 []).bind fun _ => steady_pure _

/-- what the call of a function comes to -/
theorem execute_closure (host : Host σ) (frame : FrameId) (c : Closure) (count : Nat) (stack : Operands)
    (m : Machine σ) :
    execute host frame (.closure c :: stack) (.dispatch count) m =
      if m.limit ≤ m.depth then .error (.fault (.callDepthExceeded m.limit)) m
      else
        match stack.popN count with
        | .ok (arguments, rest) => .ok (.enter c arguments rest) m
        | .error fault => .error (.fault fault) m := by
  rw [execute, pop_bind]
  exact dispatch_closure host c count stack m

/-- what the call of a builtin comes to, however many calls are open -/
theorem execute_builtin (host : Host σ) (frame : FrameId) (b : Builtin) (count : Nat) (stack : Operands)
    (m : Machine σ) :
    execute host frame (.builtin b :: stack) (.dispatch count) m =
      match stack.popN count with
      | .error fault => .error (.fault fault) m
      | .ok (arguments, rest) =>
        match host.respond b.id arguments m.memory with
        | (.ok value, memory) => .ok (.next (value :: rest)) { m with memory }
        | (.error message, memory) => .error (.fault (.host b.name message)) { m with memory } := by
  obtain ⟨respond, store⟩ := host
  rw [execute, pop_bind]
  dsimp only
  unfold dispatch
  dsimp only
  rw [ofExcept_bind]
  cases stack.popN count with
  | error fault => rfl
  | ok given =>
    dsimp only
    rw [bind_apply, modifyGet_apply]
    dsimp only
    cases respond b.id given.1 m.memory with
    | mk answer memory => cases answer <;> rfl

/-- a function is entered only where one call more may be open -/
theorem Step.deep {frame : FrameId} {i : Instruction} {stack rest : Operands} {c : Closure} {arguments : List Value}
    (h : Step host frame m i stack (.enter c arguments rest) m') : m.depth < m.limit := by
  cases h with
  | enter deep given => exact deep

end Run

/-! ## Moments -/

variable {start q q' : Moment σ} {n : Nat}

theorem Moment.Does.later {i : Instruction} {flow : Flow} (h : q.Does host i flow m) : Machine.Later q.machine m := by
  have hsteady := Run.steady_execute host q.frame q.stack i q.machine
  rw [h.2] at hsteady
  exact hsteady

theorem Moment.Enters.later {c : Closure} {arguments : List Value} {rest : Operands} {inner : FrameId}
    (h : q.Enters host c arguments rest inner m) : Machine.Later q.machine m ∧ m.depth < m.limit := by
  obtain ⟨i, m₁, hdoes, hopen⟩ := h
  have hopened := Run.steady_openCall c arguments m₁
  rw [hopen] at hopened
  have hlater : Machine.Later q.machine m := hdoes.later.trans hopened
  refine ⟨hlater, ?_⟩
  rw [hlater.depth, hlater.limit]
  exact (Run.Step.of_execute hdoes.2).deep

/-- from one moment of an activation to the next the count stays, over a call as well -/
theorem Onward.later (h : Onward host q q') : Machine.Later q.machine q'.machine := by
  cases h with
  | next does => exact does.later
  | jump does => exact does.later
  | @back c _ _ _ inner m m' _ fuel enters returns =>
    obtain ⟨hlater, _⟩ := enters.later
    have hcalled := Run.steady_code host fuel c.template.code inner 0 [] { m with depth := m.depth + 1 }
    change Run.code host fuel c.template.code inner 0 [] { m with depth := m.depth + 1 } = _ at returns
    rw [returns] at hcalled
    exact hlater.trans hcalled.nested

/-- the count of open calls, where no more are open at the start than there may be -/
structure Counts (start : Moment σ) (n : Nat) (q : Moment σ) : Prop where
  limit : q.machine.limit = start.machine.limit
  depth : q.machine.depth = start.machine.depth + n
  within : q.machine.depth ≤ start.machine.limit

/-- at every moment that a run meets, the count says how many calls are open -/
theorem Meets.counts (h : Meets host start n q) (hstart : start.machine.depth ≤ start.machine.limit) :
    Counts start n q := by
  induction h with
  | start => exact ⟨rfl, rfl, hstart⟩
  | onward _ step ih =>
    have hlater := step.later
    refine ⟨hlater.limit.trans ih.limit, hlater.depth.trans ih.depth, ?_⟩
    rw [hlater.depth]
    exact ih.within
  | inward _ call ih =>
    cases call with
    | enter enters =>
      obtain ⟨hlater, hdeep⟩ := enters.later
      refine ⟨hlater.limit.trans ih.limit, ?_, ?_⟩
      · change _ + 1 = _
        rw [hlater.depth, ih.depth]
        rfl
      · rw [hlater.limit, ih.limit] at hdeep
        exact hdeep

end TypedScript
