/-
Two machines side by side. They are alike if as many calls may be open and are open in both, the same is exported, and
the frames of one are in the other, up to the places of frames and the identities of functions. Alike machines with a
host that sees neither places nor identities (`Host.Blind`) run alike: one comes to a value just if the other does, to
the same one renamed, and with a fault just if the other does, the same one.

- `Run.Twin`: two computations that end alike on alike machines; `Run.Twin.bind` puts them together.
- `Run.twin_execute`, `Run.twin_code`, `Run.twin_evaluate`: instructions, code and whole bodies.
- `StandardFunction.host_blind`: the functions of the standard module see no places and no identities.
-/
import TypedScript.Machine.Standard
import TypedScript.Proofs.Machine.Renaming
import TypedScript.Proofs.Machine.Steps

namespace TypedScript

variable {σ α β γ δ : Type} {ρ : Renaming} {like : σ → σ → Prop} {host : Host σ} {m m' : Machine σ}

/-- two machines alike up to places and identities, with what the host remembers alike -/
structure Machine.Alike (ρ : Renaming) (like : σ → σ → Prop) (m m' : Machine σ) : Prop where
  limit : m'.limit = m.limit
  depth : m'.depth = m.depth
  exports : ∀ module name, m'.export? module name = (m.export? module name).map (Value.rename ρ)
  store : m.store.Embeds ρ m'.store
  memory : like m.memory m'.memory

/-- a host that answers alike when it is given the same up to places and identities -/
def Host.Blind (host : Host σ) (ρ : Renaming) (like : σ → σ → Prop) : Prop :=
  ∀ id arguments memory memory', like memory memory' →
    (host.respond id (arguments.map (Value.rename ρ)) memory').1 =
        (host.respond id arguments memory).1.map (Value.rename ρ) ∧
      like (host.respond id arguments memory).2 (host.respond id (arguments.map (Value.rename ρ)) memory').2

namespace Machine.Alike

theorem withStore (h : Alike ρ like m m') {store store' : Store} (hstore : store.Embeds ρ store') :
    Alike ρ like { m with store } { m' with store := store' } := ⟨h.limit, h.depth, h.exports, hstore, h.memory⟩

end Machine.Alike

/-- what comes after an instruction, renamed -/
def Flow.rename (ρ : Renaming) : Flow → Flow
  | .next stack => .next (stack.map (Value.rename ρ))
  | .jump target stack => .jump target (stack.map (Value.rename ρ))
  | .exit value stack => .exit (value.rename ρ) (stack.map (Value.rename ρ))
  | .enter c arguments stack =>
    .enter (c.rename ρ) (arguments.map (Value.rename ρ)) (stack.map (Value.rename ρ))

/-- what running a module's body leaves behind, renamed -/
def Evaluation.rename (ρ : Renaming) (e : Evaluation) : Evaluation :=
  ⟨e.result.rename ρ, ρ.frame e.frame, e.stack.map (Value.rename ρ)⟩

namespace Operands

theorem pop_rename (stack : Operands) :
    pop (stack.map (Value.rename ρ)) =
      stack.pop.map fun found => (found.1.rename ρ, found.2.map (Value.rename ρ)) := by
  cases stack <;> rfl

theorem popN_rename (stack : Operands) (count : Nat) :
    popN (stack.map (Value.rename ρ)) count =
      (stack.popN count).map fun found => (found.1.map (Value.rename ρ), found.2.map (Value.rename ρ)) := by
  unfold popN
  rw [List.length_map]
  split
  · rfl
  · rw [← List.map_take, ← List.map_drop, ← List.map_reverse]
    rfl

end Operands

namespace Run

/-- two results alike: both have a value, which `f` says, or both stop for the same reason -/
def EndsAlike (ρ : Renaming) (like : σ → σ → Prop) (f : α → β) :
    EStateM.Result Stop (Machine σ) α → EStateM.Result Stop (Machine σ) β → Prop
  | .ok a m, .ok b m' => b = f a ∧ m.Alike ρ like m'
  | .error e m, .error e' m' => e' = e ∧ m.Alike ρ like m'
  | _, _ => False

/-- two computations that end alike on machines that are alike -/
def Twin (ρ : Renaming) (like : σ → σ → Prop) (f : α → β) (x : Run σ α) (x' : Run σ β) : Prop :=
  ∀ m m', m.Alike ρ like m' → EndsAlike ρ like f (x m) (x' m')

variable {f : α → β} {x : Run σ α} {x' : Run σ β} {g : γ → δ} {k : α → Run σ γ} {k' : β → Run σ δ}

theorem twin_pure (a : α) : Twin (σ := σ) ρ like f (pure a) (pure (f a)) := fun _ _ h => ⟨rfl, h⟩

theorem twin_throw (e : Stop) : Twin (σ := σ) ρ like f (throw e) (throw e) := fun _ _ h => ⟨rfl, h⟩

theorem twin_ofExcept {e : Except RuntimeFault α} {e' : Except RuntimeFault β} (h : e' = e.map f) :
    Twin (σ := σ) ρ like f (ofExcept e) (ofExcept e') := by
  subst h
  cases e with
  | error fault => exact twin_throw _
  | ok a => exact twin_pure a

/-- the machines that a result is computed from change alike -/
theorem twin_modifyGet {h : Machine σ → α × Machine σ} {h' : Machine σ → β × Machine σ}
    (hchange : ∀ m m', m.Alike ρ like m' → (h' m').1 = f (h m).1 ∧ (h m).2.Alike ρ like (h' m').2) :
    Twin ρ like f (modifyGet h) (modifyGet h') := hchange

theorem Twin.bind (hx : Twin ρ like f x x') (hk : ∀ a, Twin ρ like g (k a) (k' (f a))) :
    Twin ρ like g (x >>= k) (x' >>= k') := by
  intro m m' h
  have hfirst := hx m m' h
  rw [bind_apply, bind_apply]
  cases hresult : x m with
  | error e n =>
    cases hresult' : x' m' with
    | error e' n' =>
      rw [hresult, hresult'] at hfirst
      exact hfirst
    | ok b n' =>
      rw [hresult, hresult'] at hfirst
      exact hfirst.elim
  | ok a n =>
    cases hresult' : x' m' with
    | error e' n' =>
      rw [hresult, hresult'] at hfirst
      exact hfirst.elim
    | ok b n' =>
      rw [hresult, hresult'] at hfirst
      obtain ⟨rfl, hafter⟩ := hfirst
      exact hk a n n' hafter

/-- what goes on from alike machines may look at them -/
theorem twin_get {k k' : Machine σ → Run σ γ} {g : γ → γ}
    (hk : ∀ m m', m.Alike ρ like m' → Twin ρ like g (k m) (k' m')) : Twin ρ like g (get >>= k) (get >>= k') :=
  fun m m' h => hk m m' h m m' h

theorem twin_pop {k k' : Value × Operands → Run σ γ} {g : γ → γ} (stack : Operands)
    (hk : ∀ v rest, Twin ρ like g (k (v, rest)) (k' (v.rename ρ, rest.map (Value.rename ρ)))) :
    Twin ρ like g (ofExcept stack.pop >>= k) (ofExcept (Operands.pop (stack.map (Value.rename ρ))) >>= k') :=
  (twin_ofExcept (Operands.pop_rename stack)).bind fun found => hk found.1 found.2

theorem twin_popN {k k' : List Value × Operands → Run σ γ} {g : γ → γ} (stack : Operands) (count : Nat)
    (hk : ∀ values rest, Twin ρ like g (k (values, rest))
      (k' (values.map (Value.rename ρ), rest.map (Value.rename ρ)))) :
    Twin ρ like g (ofExcept (stack.popN count) >>= k)
      (ofExcept (Operands.popN (stack.map (Value.rename ρ)) count) >>= k') :=
  (twin_ofExcept (Operands.popN_rename stack count)).bind fun found => hk found.1 found.2

/-! ## Instructions -/

theorem twin_reserve (frame : FrameId) (cell : Cell) :
    Twin (σ := σ) ρ like id (modify fun m => { m with store := m.store.reserve frame cell })
      (modify fun m => { m with store := m.store.reserve (ρ.frame frame) cell }) :=
  twin_modifyGet fun _ _ h => ⟨rfl, h.withStore (h.store.put frame cell.id none)⟩

theorem twin_assign (frame : FrameId) (cell : Cell) (v : Value) :
    Twin (σ := σ) ρ like id (assign frame cell v) (assign (ρ.frame frame) cell (v.rename ρ)) := by
  intro m m' h
  unfold assign
  rw [h.store.holder?]
  cases m.store.holder? frame cell.id with
  | none => exact ⟨rfl, h⟩
  | some holder => exact ⟨rfl, h.withStore (h.store.put holder cell.id (some v))⟩

theorem twin_constant (frame : FrameId) (c : Constant) :
    Twin (σ := σ) ρ like (Value.rename ρ) (constant frame c) (constant (ρ.frame frame) c) := by
  cases c with
  | function t =>
    refine twin_modifyGet fun m m' h => ?_
    obtain ⟨hmade, hstore⟩ := h.store.newClosure t frame
    exact ⟨congrArg Value.closure hmade, h.withStore hstore⟩
  | none => exact twin_pure Value.none
  | int value => exact twin_pure (Value.int value)
  | str value => exact twin_pure (Value.str value)
  | bool value => exact twin_pure (Value.bool value)

theorem twin_dispatch (hhost : host.Blind ρ like) (callee : Value) (count : Nat) (stack : Operands) :
    Twin ρ like (Flow.rename ρ) (dispatch host callee count stack)
      (dispatch host (callee.rename ρ) count (stack.map (Value.rename ρ))) := by
  cases callee with
  | closure c =>
    refine twin_get fun m m' h => ?_
    dsimp only
    rw [h.limit, h.depth]
    by_cases hdeep : m.limit ≤ m.depth
    · rw [if_pos hdeep, if_pos hdeep]
      exact twin_throw _
    · rw [if_neg hdeep, if_neg hdeep]
      exact twin_popN stack count fun arguments rest => twin_pure (Flow.enter c arguments rest)
  | builtin b =>
    refine twin_popN stack count fun arguments rest => ?_
    refine Twin.bind (f := Except.map (Value.rename ρ)) (twin_modifyGet fun m m' h => ?_) fun answer => ?_
    · obtain ⟨hanswer, hmemory⟩ := hhost b.id arguments m.memory m'.memory h.memory
      exact ⟨hanswer, h.limit, h.depth, h.exports, h.store, hmemory⟩
    · cases answer with
      | ok v => exact twin_pure (Flow.next (v :: rest))
      | error message => exact twin_throw _
  | _ => exact twin_throw _

theorem twin_execute (hhost : host.Blind ρ like) (frame : FrameId) (stack : Operands) (i : Instruction) :
    Twin ρ like (Flow.rename ρ) (execute host frame stack i)
      (execute host (ρ.frame frame) (stack.map (Value.rename ρ)) i) := by
  cases i with
  | halt => exact twin_pure (Flow.exit .none stack)
  | giveBack => exact twin_pop stack fun v rest => twin_pure (Flow.exit v rest)
  | push c => exact (twin_constant frame c).bind fun v => twin_pure (Flow.next (v :: stack))
  | pop => exact twin_pop stack fun v rest => twin_pure (Flow.next rest)
  | reserve cell => exact (twin_reserve frame cell).bind fun _ => twin_pure (Flow.next stack)
  | load cell =>
    refine twin_get fun m m' h => ?_
    exact (twin_ofExcept (h.store.load frame cell)).bind fun v => twin_pure (Flow.next (v :: stack))
  | store cell =>
    refine twin_pop stack fun v rest => ?_
    exact (twin_assign frame cell v).bind fun _ => twin_pure (Flow.next rest)
  | loadSelf =>
    refine twin_get fun m m' h => ?_
    rw [h.store.running]
    cases m.store.running? frame with
    | none => exact twin_throw _
    | some c => exact twin_pure (Flow.next (.closure c :: stack))
  | jumpIfFalse target =>
    refine twin_pop stack fun v rest => ?_
    have htest : (v.rename ρ).asBool = v.asBool.map id := by
      rw [Value.rename, Value.asBool_remake]
      cases v.asBool <;> rfl
    refine (twin_ofExcept htest).bind fun test => ?_
    cases test with
    | true => exact twin_pure (Flow.next rest)
    | false => exact twin_pure (Flow.jump target rest)
  | dispatch count => exact twin_pop stack fun callee rest => twin_dispatch hhost callee count rest
  | makeList count =>
    refine twin_popN stack count fun items rest => ?_
    dsimp only
    rw [← Value.rename_list]
    exact twin_pure (Flow.next (.list items :: rest))
  | subscript =>
    refine twin_pop stack fun index rest => twin_pop rest fun target rest => ?_
    exact (twin_ofExcept (Value.subscript_remake _ target index)).bind fun v => twin_pure (Flow.next (v :: rest))
  | loadImport module name =>
    refine twin_get fun m m' h => ?_
    rw [h.exports]
    cases m.export? module name with
    | none => exact twin_throw _
    | some v => exact twin_pure (Flow.next (v :: stack))
  | binary op =>
    refine twin_pop stack fun right rest => twin_pop rest fun left rest => ?_
    have hresult := BinaryOp.apply_remake (Closure.rename_identity ρ) op left right
    exact (twin_ofExcept hresult).bind fun v => twin_pure (Flow.next (v :: rest))

/-! ## Calls and code -/

theorem twin_bindArguments (frame : FrameId) (cells : List Cell) (values : List Value) :
    Twin (σ := σ) ρ like id (bindArguments frame cells values)
      (bindArguments (ρ.frame frame) cells (values.map (Value.rename ρ))) := by
  induction cells generalizing values with
  | nil => exact twin_pure ()
  | cons cell cells ih =>
    cases values with
    | nil => exact twin_pure ()
    | cons v values =>
      exact (twin_reserve frame cell).bind fun _ => (twin_assign frame cell v).bind fun _ => ih values

theorem twin_openCall (c : Closure) (arguments : List Value) :
    Twin (σ := σ) ρ like ρ.frame (openCall c arguments) (openCall (c.rename ρ) (arguments.map (Value.rename ρ))) := by
  refine Twin.bind (f := ρ.frame) (twin_modifyGet fun m m' h => ?_) fun frame => ?_
  · obtain ⟨hframe, hstore⟩ := h.store.newCall c
    exact ⟨hframe, h.withStore hstore⟩
  · exact (twin_bindArguments frame _ arguments).bind fun _ => twin_pure frame

theorem Twin.nested (h : Twin ρ like f x x') : Twin ρ like f (nested x) (nested x') := by
  intro m m' halike
  have hinner := h { m with depth := m.depth + 1 } { m' with depth := m'.depth + 1 }
    ⟨halike.limit, congrArg (· + 1) halike.depth, halike.exports, halike.store, halike.memory⟩
  have hleave {n n' : Machine σ} (h : n.Alike ρ like n') :
      Machine.Alike ρ like { n with depth := n.depth - 1 } { n' with depth := n'.depth - 1 } :=
    ⟨h.limit, congrArg (· - 1) h.depth, h.exports, h.store, h.memory⟩
  unfold Run.nested
  cases hresult : x { m with depth := m.depth + 1 } <;> cases hresult' : x' { m' with depth := m'.depth + 1 }
  all_goals rw [hresult, hresult'] at hinner
  · exact ⟨hinner.1, hleave hinner.2⟩
  · exact hinner.elim
  · exact hinner.elim
  · exact ⟨hinner.1, hleave hinner.2⟩

/-- code that is run from the same place, in frames and on operands that correspond -/
theorem twin_code (hhost : host.Blind ρ like) (fuel : Nat) (body : Code) (frame : FrameId) (place : Nat)
    (stack : Operands) :
    Twin ρ like (fun result => (result.1.rename ρ, result.2.map (Value.rename ρ)))
      (code host fuel body frame place stack)
      (code host fuel body (ρ.frame frame) place (stack.map (Value.rename ρ))) := by
  induction fuel generalizing body frame place stack with
  | zero => exact twin_throw _
  | succ fuel ih =>
    rw [code, code]
    cases body[place]? with
    | none => exact twin_pure (Value.none, stack)
    | some i =>
      refine (twin_execute hhost frame stack i).bind fun flow => ?_
      cases flow with
      | next stack => exact ih _ _ _ _
      | jump target stack => exact ih _ _ _ _
      | exit value stack => exact twin_pure (value, stack)
      | enter c arguments stack =>
        refine (twin_openCall c arguments).bind fun inner => ?_
        exact (ih c.template.code inner 0 []).nested.bind fun result => ih body frame (place + 1) (result.1 :: stack)

/-- the body of a module is run alike on alike machines -/
theorem twin_evaluate (hhost : host.Blind ρ like) (fuel : Nat) (t : Template) :
    Twin ρ like (Evaluation.rename ρ) (t.evaluate host fuel) (t.evaluate host fuel) := by
  refine Twin.bind (f := ρ.frame) (twin_modifyGet fun m m' h => ?_) fun frame => ?_
  · obtain ⟨hframe, hstore⟩ := h.store.newRoot
    exact ⟨hframe, h.withStore hstore⟩
  · exact (twin_code hhost fuel t.code frame 0 []).bind fun result => twin_pure (Evaluation.mk result.1 frame result.2)

end Run

/-! ## The standard module -/

namespace Value

mutual

/-- a value is printed the same way -/
theorem render_rename (v : Value) : (v.rename ρ).render = v.render := by
  cases v with
  | list items =>
    change "[" ++ renderItems (remakeItems (Closure.rename ρ) items) ++ "]" = "[" ++ renderItems items ++ "]"
    rw [renderItems_rename items]
  | _ => rfl
termination_by structural v

theorem renderItems_rename (vs : List Value) : renderItems (remakeItems (Closure.rename ρ) vs) = renderItems vs := by
  cases vs with
  | nil => rfl
  | cons v vs =>
    have hv : (v.remake (Closure.rename ρ)).render = v.render := render_rename v
    cases vs with
    | nil => exact hv
    | cons w ws =>
      change (v.remake (Closure.rename ρ)).render ++ ", " ++ renderItems (remakeItems (Closure.rename ρ) (w :: ws)) =
        v.render ++ ", " ++ renderItems (w :: ws)
      rw [hv, renderItems_rename (w :: ws)]
termination_by structural vs

end

end Value

namespace StandardFunction

theorem line_rename (arguments : List Value) : line (arguments.map (Value.rename ρ)) = line arguments := by
  unfold line
  rw [List.map_map]
  exact congrArg _ (List.map_congr_left fun v _ => Value.render_rename v)

theorem answer_rename (f : StandardFunction) (arguments : List Value) :
    f.answer (arguments.map (Value.rename ρ)) = (f.answer arguments).map (Value.rename ρ) := by
  cases f with
  | print => rfl
  | len =>
    rcases arguments with _ | ⟨v, _ | ⟨w, ws⟩⟩
    · rfl
    · cases v <;> rfl
    · cases v <;> rfl
  | str =>
    rcases arguments with _ | ⟨v, _ | ⟨w, ws⟩⟩
    · rfl
    · cases v <;> rfl
    · cases v <;> rfl
  | assert =>
    rcases arguments with _ | ⟨v, _ | ⟨w, _ | ⟨u, us⟩⟩⟩
    · rfl
    · cases v with
      | bool b => cases b <;> rfl
      | _ => rfl
    · cases v with
      | bool b =>
        cases b with
        | true => rfl
        | false =>
          exact congrArg (fun text => Except.error ("assertion failed: " ++ text)) (Value.render_rename w)
      | _ => rfl
    · cases v with
      | bool b => cases b <;> rfl
      | _ => rfl

/-- the standard functions see no places and no identities, if the host's own do not -/
theorem host_blind {output : String → σ → σ} {respond : Nat → List Value → σ → Except String Value × σ} {store : Store}
    (houtput : ∀ text memory memory', like memory memory' → like (output text memory) (output text memory'))
    (hrespond : ∀ number arguments memory memory', like memory memory' →
      (respond number (arguments.map (Value.rename ρ)) memory').1 =
          (respond number arguments memory).1.map (Value.rename ρ) ∧
        like (respond number arguments memory).2 (respond number (arguments.map (Value.rename ρ)) memory').2) :
    (StandardFunction.host output respond store).Blind ρ like := by
  intro id arguments memory memory' h
  cases id with
  | host number => exact hrespond number arguments memory memory' h
  | standard f =>
    refine ⟨answer_rename f arguments, ?_⟩
    change like (((f.printed arguments).map fun text => output text memory).getD memory)
      (((f.printed (arguments.map (Value.rename ρ))).map fun text => output text memory').getD memory')
    unfold printed
    rw [line_rename]
    split
    · exact houtput _ _ _ h
    · exact h

end StandardFunction

/-! ## Machines with more frames -/

/-- the functions that are exported, and those in the frames of a machine, were made in its store -/
structure Machine.Closed (m : Machine σ) : Prop where
  exports : ∀ module name v, m.export? module name = some v → ∀ c ∈ v.closures, m.store.Made c
  store : m.store.Closed

/-- a machine is beneath another one if it is the same but for frames behind its own, to which nothing of it leads, and
for what the host remembers -/
structure Machine.Beneath (m m' : Machine σ) : Prop where
  limit : m'.limit = m.limit
  depth : m'.depth = m.depth
  modules : m'.modules = m.modules
  closed : m.Closed
  store : m.store.Extends m'.store

theorem Machine.Beneath.alike (h : m.Beneath m') (hmemory : like m.memory m'.memory) :
    m.Alike (.beyond m.store m'.store) like m' := by
  refine ⟨h.limit, h.depth, fun module name => ?_, Store.embeds_beyond h.closed.store h.store, hmemory⟩
  have hsame : m'.export? module name = m.export? module name := by
    unfold export?
    rw [h.modules]
  rw [hsame]
  cases hexport : m.export? module name with
  | none => rfl
  | some v => rw [Option.map_some, (Renaming.fixes_beyond _ _).rename (h.closed.exports module name v hexport)]

end TypedScript
