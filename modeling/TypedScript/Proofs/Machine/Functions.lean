/-
The functions around in a running program. A program makes functions from the templates that its code pushes, and a host
that makes no functions of its own (`Host.Conserves`) only hands on those that it was given. So what is true of the
templates that code pushes is true of the templates of all functions around, at every step of a run (`execute_keeps`).
-/
import TypedScript.Proofs.Machine.Settles

namespace TypedScript

/-! ## Values -/

namespace Value

variable {φ : Type}

mutual

/-- the functions of the program in a value -/
def closures : Value φ → List (Closure φ)
  | list items => closuresOf items
  | closure c => [c]
  | none => []
  | int _ => []
  | str _ => []
  | bool _ => []
  | builtin _ => []

def closuresOf : List (Value φ) → List (Closure φ)
  | [] => []
  | v :: vs => closures v ++ closuresOf vs

end

/-- every function of the program in a value is made from something with a property -/
def Only (P : φ → Prop) (v : Value φ) : Prop := ∀ c ∈ v.closures, P c.template

variable {P : φ → Prop} {v : Value φ} {vs : List (Value φ)}

theorem only_of_closures_nil (h : v.closures = []) : v.Only P := by
  intro c hc
  rw [h] at hc
  cases hc

theorem only_closuresOf : (∀ c ∈ closuresOf vs, P c.template) ↔ ∀ v ∈ vs, v.Only P := by
  induction vs with
  | nil => simp [closuresOf]
  | cons v vs ih =>
    simp only [closuresOf, List.mem_append, List.forall_mem_cons, ← ih]
    constructor
    · intro h
      exact ⟨fun c hc => h c (Or.inl hc), fun c hc => h c (Or.inr hc)⟩
    · rintro ⟨hv, hvs⟩ c (hc | hc)
      · exact hv c hc
      · exact hvs c hc

theorem only_list : (list vs).Only P ↔ ∀ v ∈ vs, v.Only P := only_closuresOf

theorem only_closure {c : Closure φ} : (closure c).Only P ↔ P c.template := by
  unfold Only closures
  simp

theorem mem_closuresOf {c : Closure φ} : c ∈ closuresOf vs ↔ ∃ v ∈ vs, c ∈ v.closures := by
  induction vs with
  | nil => simp [closuresOf]
  | cons v vs ih => simp [closuresOf, ih]

/-- there is nothing at a place in a list, or an element of it -/
theorem itemAt_eq (items : List (Value φ)) (i : Int64) : itemAt items i = none ∨ itemAt items i ∈ items := by
  unfold itemAt
  split
  · exact Or.inl rfl
  · cases hitem : items[i.toInt.toNat]? with
    | none => exact Or.inl rfl
    | some item => exact Or.inr (List.mem_of_getElem? hitem)

/-- the functions in what a subscript gives are in what it is of -/
theorem closures_subscript {index u : Value φ} (h : v.subscript index = .ok u) : ∀ c ∈ u.closures, c ∈ v.closures := by
  unfold Value.subscript at h
  cases hindex : index.asInt with
  | error fault => rw [hindex] at h; cases h
  | ok i =>
    rw [hindex] at h
    cases v with
    | list items =>
      obtain rfl : itemAt items i = u := Except.ok.inj h
      rcases itemAt_eq items i with hnone | hmem
      · rw [hnone]
        exact fun c hc => nomatch hc
      · exact fun c hc => mem_closuresOf.2 ⟨_, hmem, hc⟩
    | str text =>
      obtain rfl := Except.ok.inj h
      rcases itemAt_eq (text.toList.map fun c => .str (String.singleton c)) i with hnone | hmem
      · rw [hnone]
        exact fun c hc => nomatch hc
      · obtain ⟨c, _, hc⟩ := List.mem_map.1 hmem
        rw [← hc]
        exact fun c hc => nomatch hc
    | _ => cases h

theorem Only.subscript {target index : Value φ} (h : target.Only P) (hv : target.subscript index = .ok v) :
    v.Only P := fun c hc => h c (closures_subscript hv c hc)

end Value

theorem BinaryOp.onInts_closures {φ : Type} {op : BinaryOp} {a b : Int64} {v : Value φ} (h : op.onInts a b = .ok v) :
    v.closures = [] := by
  unfold onInts at h
  cases op with
  | divide =>
    dsimp only at h
    split at h
    · cases h
    · cases h; rfl
  | modulo =>
    dsimp only at h
    split at h
    · cases h
    · cases h; rfl
  | _ => cases h; try rfl

/-- operators give no functions -/
theorem BinaryOp.apply_closures {φ : Type} {op : BinaryOp} {l r v : Value φ} (h : op.apply l r = .ok v) :
    v.closures = [] := by
  unfold apply at h
  split at h
  · cases h; rfl
  · cases h; rfl
  · cases h; rfl
  · cases hl : l.asBool <;> cases hr : r.asBool <;> rw [hl, hr] at h <;> cases h
    rfl
  · cases hl : l.asBool <;> cases hr : r.asBool <;> rw [hl, hr] at h <;> cases h
    rfl
  · cases hl : l.asInt with
    | error fault => rw [hl] at h; cases h
    | ok a =>
      cases hr : r.asInt with
      | error fault => rw [hl, hr] at h; cases h
      | ok b =>
        rw [hl, hr] at h
        exact onInts_closures h

/-! ## Stores -/

namespace Store

variable {φ : Type} {P : φ → Prop} {s : Store φ} {frame : FrameId} {cell : Nat}

/-- every function in a store is made from something with a property -/
structure Only (P : φ → Prop) (s : Store φ) : Prop where
  slots : ∀ frame cell v, s.slot? frame cell = some (some v) → v.Only P
  running : ∀ frame c, s.running? frame = some c → P c.template

theorem only_empty : (empty : Store φ).Only P := ⟨fun _ _ _ h => (nomatch h), fun _ _ h => (nomatch h)⟩

theorem Only.mono {R : φ → Prop} (h : s.Only P) (hR : ∀ t, P t → R t) : s.Only R :=
  ⟨fun frame cell v hv c hc => hR _ (h.slots frame cell v hv c hc), fun frame c hc => hR _ (h.running frame c hc)⟩

theorem slot?_put {content : Option (Value φ)} {i : FrameId} {j : Nat} {found : Option (Value φ)}
    (h : (s.put frame cell content).slot? i j = some found) : found = content ∨ s.slot? i j = some found := by
  unfold slot? get? put at h
  rw [Array.getElem?_modify] at h
  split at h
  · next heq =>
    obtain ⟨fr, hfr, hfound⟩ := Option.bind_eq_some_iff.1 h
    obtain ⟨old, hold, rfl⟩ := Option.map_eq_some_iff.1 hfr
    dsimp only at hfound
    rw [Table.find?_insert] at hfound
    split at hfound
    · exact Or.inl (Option.some.inj hfound).symm
    · exact Or.inr (Option.bind_eq_some_iff.2 ⟨old, hold, hfound⟩)
  · exact Or.inr h

theorem running?_put (s : Store φ) (frame : FrameId) (cell : Nat) (content : Option (Value φ)) (i : FrameId) :
    (s.put frame cell content).running? i = s.running? i := by
  unfold running? get? put
  rw [Array.getElem?_modify]
  split
  · cases s.frames[i]? <;> rfl
  · rfl

theorem Only.put (h : s.Only P) {content : Option (Value φ)} (hv : ∀ v, content = some v → v.Only P) :
    (s.put frame cell content).Only P := by
  refine ⟨fun i j v hslot => ?_, fun i c hrunning => ?_⟩
  · rcases slot?_put hslot with heq | hslot
    · exact hv v heq.symm
    · exact h.slots i j v hslot
  · rw [running?_put] at hrunning
    exact h.running i c hrunning

/-- what is read from a variable is in a cell -/
theorem slot?_of_load {cell : Cell} {v : Value φ} (h : s.load frame cell = .ok v) :
    ∃ holder, s.slot? holder cell.id = some (some v) := by
  unfold Store.load at h
  cases hfound : (s.holder? frame cell.id).bind fun holder => s.slot? holder cell.id with
  | none => rw [hfound] at h; cases h
  | some content =>
    rw [hfound] at h
    cases content with
    | none => cases h
    | some w =>
      obtain rfl : w = v := Except.ok.inj h
      obtain ⟨holder, _, hslot⟩ := Option.bind_eq_some_iff.1 hfound
      exact ⟨holder, hslot⟩

theorem Only.load (h : s.Only P) {cell : Cell} {v : Value φ} (hv : s.load frame cell = .ok v) : v.Only P := by
  obtain ⟨holder, hslot⟩ := slot?_of_load hv
  exact h.slots holder cell.id v hslot

theorem Only.add (h : s.Only P) {fr : Frame φ} (hcells : fr.cells = .empty)
    (hrunning : ∀ c, fr.running = some c → P c.template) : (s.add fr).2.Only P := by
  have hget (i : FrameId) : (s.add fr).2.get? i = if i = s.frames.size then some fr else s.get? i := by
    unfold get? Store.add
    rw [Array.getElem?_push]
  refine ⟨fun i j v hslot => ?_, fun i c hc => ?_⟩
  · unfold slot? at hslot
    rw [hget] at hslot
    split at hslot
    · rw [Option.bind_some, hcells] at hslot
      cases hslot
    · exact h.slots i j v hslot
  · unfold running? at hc
    rw [hget] at hc
    split at hc
    · exact hrunning c hc
    · exact h.running i c hc

end Store

/-! ## Runs -/

/-- a host makes no functions of its own: what it gives and what it holds after a call was given to it or held before -/
structure Host.Conserves {σ : Type} (host : Host σ) (holds : σ → List Closure) : Prop where
  store : host.store = .empty
  answer : ∀ id arguments memory v, (host.respond id arguments memory).1 = .ok v →
    ∀ c ∈ v.closures, c ∈ Value.closuresOf arguments ∨ c ∈ holds memory
  memory : ∀ id arguments memory, ∀ c ∈ holds (host.respond id arguments memory).2,
    c ∈ Value.closuresOf arguments ∨ c ∈ holds memory

namespace Run

variable {σ α β : Type} {holds : σ → List Closure} {host : Host σ} {P : Template → Prop} {limit depth : Nat}

/-- every function around in a machine is made from a template with a property, and so many calls are open -/
structure Only (P : Template → Prop) (holds : σ → List Closure) (limit depth : Nat) (m : Machine σ) : Prop where
  modules : ∀ module name v, m.export? module name = some v → v.Only P
  store : m.store.Only P
  memory : ∀ c ∈ holds m.memory, P c.template
  limit : m.limit = limit
  depth : m.depth = depth

theorem Only.mono {R : Template → Prop} {m : Machine σ} (h : Only P holds limit depth m) (hR : ∀ t, P t → R t) :
    Only R holds limit depth m :=
  ⟨fun module name v hv c hc => hR _ (h.modules module name v hv c hc), h.store.mono hR,
    fun c hc => hR _ (h.memory c hc), h.limit, h.depth⟩

/-- a step that keeps all functions within a property, gives a result with another one and uses up no fuel -/
def Keeps (P : Template → Prop) (holds : σ → List Closure) (limit depth : Nat) (x : Run σ α) (Q : α → Prop) : Prop :=
  ∀ m, Only P holds limit depth m →
    match x m with
    | .ok a m' => Only P holds limit depth m' ∧ Q a
    | .error e _ => e ≠ .outOfFuel

variable {Q : α → Prop} {R : β → Prop}

theorem keeps_pure {a : α} (h : Q a) : Keeps P holds limit depth (pure a) Q := fun _ hm => ⟨hm, h⟩

theorem keeps_throw (fault : RuntimeFault) : Keeps P holds limit depth (throw (.fault fault)) Q :=
  fun _ _ h => nomatch h

theorem Keeps.bind {x : Run σ α} {f : α → Run σ β} (hx : Keeps P holds limit depth x Q)
    (hf : ∀ a, Q a → Keeps P holds limit depth (f a) R) : Keeps P holds limit depth (x >>= f) R := by
  intro m hm
  have hxm := hx m hm
  rw [bind_apply]
  cases hresult : x m with
  | error e m => rw [hresult] at hxm; exact hxm
  | ok a m =>
    rw [hresult] at hxm
    exact hf a hxm.2 m hxm.1

theorem keeps_ofExcept {e : Except RuntimeFault α} (h : ∀ a, e = .ok a → Q a) :
    Keeps P holds limit depth (ofExcept e) Q := by
  cases e with
  | error fault => exact keeps_throw fault
  | ok a => exact keeps_pure (h a rfl)

theorem keeps_get : Keeps (σ := σ) P holds limit depth get (Only P holds limit depth) := fun _ hm => ⟨hm, hm⟩

theorem keeps_modifyGet {f : Machine σ → α × Machine σ}
    (h : ∀ m, Only P holds limit depth m → Only P holds limit depth (f m).2 ∧ Q (f m).1) :
    Keeps P holds limit depth (modifyGet f) Q := h

theorem Only.withStore {m : Machine σ} (h : Only P holds limit depth m) {store : Store} (hstore : store.Only P) :
    Only P holds limit depth { m with store } := ⟨h.modules, hstore, h.memory, h.limit, h.depth⟩

/-- the exports of a module are registered -/
theorem Only.register {m : Machine σ} (h : Only P holds limit depth m) {module : String} {exports : Exports}
    (hexports : ∀ name v, exports.find? name = some v → v.Only P) :
    Only P holds limit depth (m.register module exports) := by
  refine ⟨fun other name v hv => ?_, h.store, h.memory, h.limit, h.depth⟩
  change ((m.modules.insert module exports).find? other).bind (fun exports => exports.find? name) = some v at hv
  rw [Table.find?_insert] at hv
  split at hv
  · exact hexports name v hv
  · exact h.modules other name v hv

/-- the stack after a pop -/
theorem only_pop {stack : Operands} (h : ∀ v ∈ stack, v.Only P) {found : Value × Operands}
    (hpop : stack.pop = .ok found) : found.1.Only P ∧ ∀ v ∈ found.2, v.Only P := by
  cases stack with
  | nil => cases hpop
  | cons v stack =>
    cases hpop
    exact List.forall_mem_cons.1 h

theorem only_popN {stack : Operands} (h : ∀ v ∈ stack, v.Only P) {count : Nat} {found : List Value × Operands}
    (hpop : stack.popN count = .ok found) : (∀ v ∈ found.1, v.Only P) ∧ ∀ v ∈ found.2, v.Only P := by
  unfold Operands.popN at hpop
  split at hpop
  · cases hpop
  · cases hpop
    exact ⟨fun v hv => h v (List.mem_of_mem_take (List.mem_reverse.1 hv)), fun v hv => h v (List.mem_of_mem_drop hv)⟩

/-- what is known of what comes after an instruction -/
def Flow.Only (P : Template → Prop) (limit depth : Nat) (i : Instruction) : Flow → Prop
  | .next stack => ∀ v ∈ stack, v.Only P
  | .jump target stack => i = .jumpIfFalse target ∧ ∀ v ∈ stack, v.Only P
  | .exit value stack => value.Only P ∧ ∀ v ∈ stack, v.Only P
  | .enter c arguments stack => depth < limit ∧ P c.template ∧ (∀ v ∈ arguments, v.Only P) ∧ ∀ v ∈ stack, v.Only P

theorem keeps_assign {frame : FrameId} {cell : Cell} {v : Value} (hv : v.Only P) :
    Keeps (σ := σ) P holds limit depth (assign frame cell v) fun _ => True := by
  intro m hm
  unfold assign
  cases m.store.holder? frame cell.id with
  | none => exact fun h => nomatch h
  | some holder =>
    refine ⟨hm.withStore (hm.store.put fun w hw => ?_), trivial⟩
    cases hw
    exact hv

theorem keeps_ask (hhost : host.Conserves holds) {b : Builtin} {arguments : List Value}
    (harguments : ∀ v ∈ arguments, v.Only P) :
    Keeps P holds limit depth (modifyGet fun m =>
      ((host.respond b.id arguments m.memory).1, { m with memory := (host.respond b.id arguments m.memory).2 }))
      fun answer => ∀ v, answer = .ok v → v.Only P := by
  have hgiven := Value.only_closuresOf.2 harguments
  refine keeps_modifyGet fun m hm => ⟨⟨hm.modules, hm.store, fun c hc => ?_, hm.limit, hm.depth⟩, fun v hv c hc => ?_⟩
  · exact (hhost.memory b.id arguments m.memory c hc).elim (hgiven c) (hm.memory c)
  · exact (hhost.answer b.id arguments m.memory v hv c hc).elim (hgiven c) (hm.memory c)

theorem keeps_dispatch (hhost : host.Conserves holds) {callee : Value} (hcallee : callee.Only P) {count : Nat}
    {stack : Operands} (hstack : ∀ v ∈ stack, v.Only P) :
    Keeps P holds limit depth (dispatch host callee count stack) (Flow.Only P limit depth (.dispatch count)) := by
  cases callee with
  | closure c =>
    intro m hm
    rw [dispatch_closure, hm.limit, hm.depth]
    by_cases hlt : limit ≤ depth
    · rw [if_pos hlt]
      exact fun h => nomatch h
    · rw [if_neg hlt]
      cases hpop : stack.popN count with
      | error fault => exact fun h => nomatch h
      | ok found =>
        obtain ⟨harguments, hrest⟩ := only_popN hstack hpop
        exact ⟨hm, Nat.lt_of_not_le hlt, Value.only_closure.1 hcallee, harguments, hrest⟩
  | builtin b =>
    unfold dispatch
    refine (keeps_ofExcept fun found hpop => only_popN hstack hpop).bind fun found hfound => ?_
    refine (keeps_ask hhost hfound.1).bind fun answer hanswer => ?_
    cases answer with
    | error message => exact keeps_throw _
    | ok v => exact keeps_pure (List.forall_mem_cons.2 ⟨hanswer v rfl, hfound.2⟩)
  | _ => exact keeps_throw _

/-- an instruction that pushes no template without the property -/
theorem keeps_execute (hhost : host.Conserves holds) (frame : FrameId) {stack : Operands} {i : Instruction}
    (hi : ∀ t, i = .push (.function t) → P t) (hstack : ∀ v ∈ stack, v.Only P) :
    Keeps P holds limit depth (execute host frame stack i) (Flow.Only P limit depth i) := by
  cases i with
  | halt => exact keeps_pure ⟨Value.only_of_closures_nil rfl, hstack⟩
  | giveBack => exact (keeps_ofExcept fun _ hpop => only_pop hstack hpop).bind fun _ hfound => keeps_pure hfound
  | push c =>
    refine Keeps.bind (Q := fun v => v.Only P) ?_ fun v hv => keeps_pure (List.forall_mem_cons.2 ⟨hv, hstack⟩)
    cases c with
    | function t =>
      refine keeps_modifyGet fun m hm => ⟨hm.withStore ⟨hm.store.slots, hm.store.running⟩, ?_⟩
      exact Value.only_closure.2 (hi t rfl)
    | _ => exact keeps_pure (Value.only_of_closures_nil rfl)
  | pop => exact (keeps_ofExcept fun _ hpop => only_pop hstack hpop).bind fun _ hfound => keeps_pure hfound.2
  | reserve cell =>
    refine Keeps.bind (Q := fun _ => True) ?_ fun _ _ => keeps_pure hstack
    exact keeps_modifyGet fun m hm => ⟨hm.withStore (hm.store.put fun _ h => nomatch h), trivial⟩
  | load cell =>
    refine keeps_get.bind fun m hm => ?_
    refine (keeps_ofExcept fun v hv => hm.store.load hv).bind fun v hv => ?_
    exact keeps_pure (List.forall_mem_cons.2 ⟨hv, hstack⟩)
  | store cell =>
    refine (keeps_ofExcept fun _ hpop => only_pop hstack hpop).bind fun found hfound => ?_
    exact (keeps_assign hfound.1).bind fun _ _ => keeps_pure hfound.2
  | loadSelf =>
    refine keeps_get.bind fun m hm => ?_
    cases hrunning : m.store.running? frame with
    | none => exact keeps_throw _
    | some c =>
      exact keeps_pure (List.forall_mem_cons.2 ⟨Value.only_closure.2 (hm.store.running frame c hrunning), hstack⟩)
  | jumpIfFalse target =>
    refine (keeps_ofExcept fun _ hpop => only_pop hstack hpop).bind fun found hfound => ?_
    refine Keeps.bind (Q := fun _ => True) (keeps_ofExcept fun _ _ => trivial) fun test _ => ?_
    cases test with
    | true => exact keeps_pure hfound.2
    | false => exact keeps_pure ⟨rfl, hfound.2⟩
  | dispatch count =>
    refine (keeps_ofExcept fun _ hpop => only_pop hstack hpop).bind fun found hfound => ?_
    exact keeps_dispatch hhost hfound.1 hfound.2
  | binary op =>
    refine (keeps_ofExcept fun _ hpop => only_pop hstack hpop).bind fun right hright => ?_
    refine (keeps_ofExcept fun _ hpop => only_pop hright.2 hpop).bind fun left hleft => ?_
    refine Keeps.bind (Q := fun v => v.Only P) (keeps_ofExcept fun v hv => ?_) fun v hv => ?_
    · exact Value.only_of_closures_nil (BinaryOp.apply_closures hv)
    exact keeps_pure (List.forall_mem_cons.2 ⟨hv, hleft.2⟩)
  | makeList count =>
    refine (keeps_ofExcept fun _ hpop => only_popN hstack hpop).bind fun found hfound => ?_
    exact keeps_pure (List.forall_mem_cons.2 ⟨Value.only_list.2 hfound.1, hfound.2⟩)
  | subscript =>
    refine (keeps_ofExcept fun _ hpop => only_pop hstack hpop).bind fun index hindex => ?_
    refine (keeps_ofExcept fun _ hpop => only_pop hindex.2 hpop).bind fun target htarget => ?_
    refine (keeps_ofExcept fun v hv => htarget.1.subscript hv).bind fun v hv => ?_
    exact keeps_pure (List.forall_mem_cons.2 ⟨hv, htarget.2⟩)
  | loadImport module name =>
    refine keeps_get.bind fun m hm => ?_
    cases hexport : m.export? module name with
    | none => exact keeps_throw _
    | some v => exact keeps_pure (List.forall_mem_cons.2 ⟨hm.modules module name v hexport, hstack⟩)

/-! ### Calls -/

theorem keeps_bindArguments {frame : FrameId} {cells : List Cell} {values : List Value} (h : ∀ v ∈ values, v.Only P) :
    Keeps (σ := σ) P holds limit depth (bindArguments frame cells values) fun _ => True := by
  induction cells generalizing values with
  | nil => exact keeps_pure trivial
  | cons cell cells ih =>
    cases values with
    | nil => exact keeps_pure trivial
    | cons v values =>
      obtain ⟨hv, hvalues⟩ := List.forall_mem_cons.1 h
      refine Keeps.bind (Q := fun _ => True) ?_ fun _ _ => (keeps_assign hv).bind fun _ _ => ih hvalues
      exact keeps_modifyGet fun m hm => ⟨hm.withStore (hm.store.put fun _ h => nomatch h), trivial⟩

theorem keeps_openCall {c : Closure} (hc : P c.template) {arguments : List Value} (h : ∀ v ∈ arguments, v.Only P) :
    Keeps (σ := σ) P holds limit depth (openCall c arguments) fun _ => True := by
  refine Keeps.bind (Q := fun _ => True) ?_ fun frame _ => (keeps_bindArguments h).bind fun _ _ => keeps_pure trivial
  refine keeps_modifyGet fun m hm => ⟨hm.withStore (hm.store.add rfl fun d hd => ?_), trivial⟩
  cases hd
  exact hc

end Run

end TypedScript
