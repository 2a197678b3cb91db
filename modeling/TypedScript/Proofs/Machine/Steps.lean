/-
What one instruction does. `Run.Step` says for each instruction what it takes from the stack, what it leaves there,
where the body goes on and how the machine changes; `Run.Blames` says what must be so where an instruction faults.

- `Run.Step.of_execute`: an instruction that is executed does one of these things.
- `Run.blames_of_execute`: an instruction that faults has the cause that the fault names.
- `Run.Step.effect`: how each instruction changes the height of the stack.
-/
import TypedScript.Proofs.Machine.Grows
import TypedScript.Proofs.Machine.Moments

namespace TypedScript

/-! ## Stack effects -/

namespace Instruction

/-- how many operands an instruction takes -/
def takes : Instruction → Nat
  | .giveBack | .pop | .store _ | .jumpIfFalse _ => 1
  | .subscript | .binary _ => 2
  | .dispatch count => count + 1
  | .makeList count => count
  | .halt | .push _ | .reserve _ | .load _ | .loadSelf | .loadImport _ _ => 0

/-- how many operands an instruction leaves in their place, where the body goes on -/
def gives : Instruction → Nat
  | .push _ | .load _ | .loadSelf | .dispatch _ | .makeList _ | .subscript | .loadImport _ _ | .binary _ => 1
  | .halt | .giveBack | .pop | .reserve _ | .store _ | .jumpIfFalse _ => 0

/-- the places where a body may go on after an instruction -/
def leads (place : Nat) : Instruction → List Nat
  | .halt | .giveBack => []
  | .jumpIfFalse target => [place + 1, target]
  | _ => [place + 1]

end Instruction

/-- the value of a constant that is no function -/
def Constant.value? : Constant → Option Value
  | .none => some .none
  | .int value => some (.int value)
  | .str value => some (.str value)
  | .bool value => some (.bool value)
  | .function _ => Option.none

/-! ## Steps -/

namespace Run

variable {σ : Type} {host : Host σ} {frame : FrameId} {stack : Operands} {i : Instruction} {m m' : Machine σ}
  {flow : Flow}

/-- what an instruction in a frame does with the stack and the machine -/
inductive Step (host : Host σ) (frame : FrameId) (m : Machine σ) :
    Instruction → Operands → Flow → Machine σ → Prop
  | halt {stack : Operands} : Step host frame m .halt stack (.exit .none stack) m
  | giveBack {v : Value} {stack : Operands} : Step host frame m .giveBack (v :: stack) (.exit v stack) m
  | constant {c : Constant} {v : Value} {stack : Operands} (value : c.value? = some v) :
      Step host frame m (.push c) stack (.next (v :: stack)) m
  | function {t : Template} {stack : Operands} :
      Step host frame m (.push (.function t)) stack (.next (.closure (m.store.newClosure t frame).1 :: stack))
        { m with store := (m.store.newClosure t frame).2 }
  | pop {v : Value} {stack : Operands} : Step host frame m .pop (v :: stack) (.next stack) m
  | reserve {cell : Cell} {stack : Operands} :
      Step host frame m (.reserve cell) stack (.next stack) { m with store := m.store.reserve frame cell }
  | load {cell : Cell} {v : Value} {stack : Operands} (found : m.store.load frame cell = .ok v) :
      Step host frame m (.load cell) stack (.next (v :: stack)) m
  | store {cell : Cell} {v : Value} {stack : Operands} {holder : FrameId}
      (found : m.store.holder? frame cell.id = some holder) :
      Step host frame m (.store cell) (v :: stack) (.next stack)
        { m with store := m.store.put holder cell.id (some v) }
  | loadSelf {c : Closure} {stack : Operands} (found : m.store.running? frame = some c) :
      Step host frame m .loadSelf stack (.next (.closure c :: stack)) m
  | stay {target : Nat} {v : Value} {stack : Operands} (test : v.asBool = .ok true) :
      Step host frame m (.jumpIfFalse target) (v :: stack) (.next stack) m
  | jump {target : Nat} {v : Value} {stack : Operands} (test : v.asBool = .ok false) :
      Step host frame m (.jumpIfFalse target) (v :: stack) (.jump target stack) m
  | enter {count : Nat} {c : Closure} {arguments : List Value} {stack rest : Operands} (deep : m.depth < m.limit)
      (given : stack.popN count = .ok (arguments, rest)) :
      Step host frame m (.dispatch count) (.closure c :: stack) (.enter c arguments rest) m
  | ask {count : Nat} {b : Builtin} {arguments : List Value} {stack rest : Operands} {v : Value}
      (given : stack.popN count = .ok (arguments, rest)) (answer : (host.respond b.id arguments m.memory).1 = .ok v) :
      Step host frame m (.dispatch count) (.builtin b :: stack) (.next (v :: rest))
        { m with memory := (host.respond b.id arguments m.memory).2 }
  | makeList {count : Nat} {items : List Value} {stack rest : Operands} (given : stack.popN count = .ok (items, rest)) :
      Step host frame m (.makeList count) stack (.next (.list items :: rest)) m
  | subscript {target index v : Value} {stack : Operands} (found : target.subscript index = .ok v) :
      Step host frame m .subscript (index :: target :: stack) (.next (v :: stack)) m
  | loadImport {module name : String} {v : Value} {stack : Operands} (found : m.export? module name = some v) :
      Step host frame m (.loadImport module name) stack (.next (v :: stack)) m
  | binary {op : BinaryOp} {left right v : Value} {stack : Operands} (result : op.apply left right = .ok v) :
      Step host frame m (.binary op) (right :: left :: stack) (.next (v :: stack)) m

/-- what is so where an instruction in a frame faults -/
def Blames (frame : FrameId) (i : Instruction) (stack : Operands) (m : Machine σ) : RuntimeFault → Prop
  | .stackUnderflow => stack.length < i.takes
  | .missingCell id _ => ∃ cell, (i = .load cell ∨ i = .store cell) ∧ cell.id = id ∧ m.store.holder? frame id = none
  | .noSelf => i = .loadSelf ∧ m.store.running? frame = none
  | .callDepthExceeded limit => limit = m.limit ∧ m.limit ≤ m.depth
  | .missingExport module name => i = .loadImport module name ∧ m.export? module name = none
  | .uninitialisedCell id _ => ∃ cell, i = .load cell ∧ cell.id = id ∧
      ∃ holder, m.store.holder? frame id = some holder ∧ m.store.slot? holder id = some none
  | _ => True

theorem ofExcept_bind {α β : Type} (e : Except RuntimeFault α) (f : α → Run σ β) (m : Machine σ) :
    (ofExcept e >>= f) m =
      match e with
      | .ok a => f a m
      | .error fault => .error (.fault fault) m := by
  cases e <;> rfl

/-- what comes of a value that the stack gives up -/
theorem pop_bind {β : Type} (f : Value × Operands → Run σ β) (stack : Operands) (m : Machine σ) :
    (ofExcept stack.pop >>= f) m =
      match stack with
      | v :: rest => f (v, rest) m
      | [] => .error (.fault .stackUnderflow) m := by
  cases stack <;> rfl

end Run

namespace Operands

theorem popN_ok {stack rest : Operands} {count : Nat} {values : List Value}
    (h : stack.popN count = .ok (values, rest)) : values.length = count ∧ stack.length = count + rest.length := by
  unfold popN at h
  split at h
  · cases h
  · cases h
    rw [List.length_reverse, List.length_take, List.length_drop]
    omega

theorem popN_error {stack : Operands} {count : Nat} {fault : RuntimeFault}
    (h : stack.popN count = .error fault) : fault = .stackUnderflow ∧ stack.length < count := by
  unfold popN at h
  split at h
  · next hlt =>
    cases h
    exact ⟨rfl, hlt⟩
  · cases h

end Operands

/-! ## Faults of operators -/

namespace Value

variable {φ : Type} {v target index : Value φ} {fault : RuntimeFault}

theorem asInt_fault (h : v.asInt = .error fault) : fault = wrongOperand "Int" v := by
  unfold asInt at h
  cases hv : v.int? with
  | none => rw [hv] at h; exact (Except.error.inj h).symm
  | some n => rw [hv] at h; cases h

theorem asBool_fault (h : v.asBool = .error fault) : fault = wrongOperand "Bool" v := by
  unfold asBool at h
  cases hv : v.bool? with
  | none => rw [hv] at h; exact (Except.error.inj h).symm
  | some b => rw [hv] at h; cases h

theorem subscript_fault (h : target.subscript index = .error fault) :
    ∃ wanted given, fault = .wrongOperand wanted given := by
  unfold subscript at h
  cases hi : index.asInt with
  | error found =>
    rw [hi] at h
    obtain rfl : found = fault := Except.error.inj h
    exact ⟨_, _, asInt_fault hi⟩
  | ok i =>
    rw [hi] at h
    cases target with
    | list items => cases h
    | str text => cases h
    | _ => exact ⟨_, _, (Except.error.inj h).symm⟩

end Value

/-- an operator fails because of an operand that it does not take, or because the divisor is zero -/
theorem BinaryOp.apply_fault {φ : Type} {op : BinaryOp} {l r : Value φ} {fault : RuntimeFault}
    (h : op.apply l r = .error fault) :
    fault = .divisionByZero ∨ ∃ wanted given, fault = .wrongOperand wanted given := by
  have hints {a b : Int64} (h : op.onInts a b = (.error fault : Except RuntimeFault (Value φ))) :
      fault = .divisionByZero ∨ ∃ wanted given, fault = .wrongOperand wanted given := by
    unfold onInts at h
    cases op with
    | divide =>
      dsimp only at h
      split at h
      · exact Or.inl (Except.error.inj h).symm
      · cases h
    | modulo =>
      dsimp only at h
      split at h
      · exact Or.inl (Except.error.inj h).symm
      · cases h
    | and => exact Or.inr ⟨_, _, (Except.error.inj h).symm⟩
    | or => exact Or.inr ⟨_, _, (Except.error.inj h).symm⟩
    | _ => cases h
  have hbools {f : Bool → Bool → Bool}
      (h : (do let a ← l.asBool; let b ← r.asBool; return .bool (f a b)) =
        (.error fault : Except RuntimeFault (Value φ))) :
      ∃ wanted given, fault = .wrongOperand wanted given := by
    cases hl : l.asBool with
    | error found =>
      rw [hl] at h
      obtain rfl : found = fault := Except.error.inj h
      exact ⟨_, _, Value.asBool_fault hl⟩
    | ok a =>
      cases hr : r.asBool with
      | error found =>
        rw [hl, hr] at h
        obtain rfl : found = fault := Except.error.inj h
        exact ⟨_, _, Value.asBool_fault hr⟩
      | ok b => rw [hl, hr] at h; cases h
  unfold apply at h
  split at h
  · cases h
  · cases h
  · cases h
  · exact Or.inr (hbools (f := (· && ·)) h)
  · exact Or.inr (hbools (f := (· || ·)) h)
  · cases hl : l.asInt with
    | error found =>
      rw [hl] at h
      obtain rfl : found = fault := Except.error.inj h
      exact Or.inr ⟨_, _, Value.asInt_fault hl⟩
    | ok a =>
      cases hr : r.asInt with
      | error found =>
        rw [hl, hr] at h
        obtain rfl : found = fault := Except.error.inj h
        exact Or.inr ⟨_, _, Value.asInt_fault hr⟩
      | ok b =>
        rw [hl, hr] at h
        exact hints h

/-- a variable is not read because no frame in reach has its cell, or because the nearest cell is empty -/
theorem Store.load_fault {φ : Type} {s : Store φ} {frame : FrameId} {cell : Cell} {fault : RuntimeFault}
    (h : s.load frame cell = .error fault) :
    (fault = .missingCell cell.id cell.name ∧ s.holder? frame cell.id = none) ∨
      fault = .uninitialisedCell cell.id cell.name ∧
        ∃ holder, s.holder? frame cell.id = some holder ∧ s.slot? holder cell.id = some none := by
  unfold Store.load at h
  cases hholder : s.holder? frame cell.id with
  | none =>
    rw [hholder] at h
    exact Or.inl ⟨(Except.error.inj h).symm, rfl⟩
  | some holder =>
    rw [hholder] at h
    obtain ⟨_, hslot⟩ := Store.holder?_some hholder
    obtain ⟨content, hcontent⟩ := Option.isSome_iff_exists.1 hslot
    rw [Option.bind_some, hcontent] at h
    cases content with
    | none => exact Or.inr ⟨(Except.error.inj h).symm, holder, rfl, hcontent⟩
    | some v => cases h

/-! ## Execution -/

namespace Run

variable {σ : Type} {host : Host σ} {frame : FrameId} {stack : Operands} {i : Instruction} {m m' : Machine σ}
  {flow : Flow}

/-- how an instruction ends: with a step or with a fault that it is to blame for -/
def Ends (host : Host σ) (frame : FrameId) (i : Instruction) (stack : Operands) (m : Machine σ) :
    EStateM.Result Stop (Machine σ) Flow → Prop
  | .ok flow m' => Step host frame m i stack flow m'
  | .error (.fault fault) _ => Blames frame i stack m fault
  | .error .outOfFuel _ => False

/-- a builtin is called with what was popped, or a function is entered -/
theorem ends_dispatch (host : Host σ) (frame : FrameId) (count : Nat) (callee : Value) (stack : Operands)
    (m : Machine σ) :
    Ends host frame (.dispatch count) (callee :: stack) m (dispatch host callee count stack m) := by
  have hshort {fault : RuntimeFault} (h : stack.popN count = .error fault) :
      Blames frame (.dispatch count) (callee :: stack) m fault := by
    obtain ⟨rfl, hlt⟩ := Operands.popN_error h
    exact Nat.succ_lt_succ hlt
  cases callee with
  | closure c =>
    rw [dispatch_closure]
    by_cases hdeep : m.limit ≤ m.depth
    · rw [if_pos hdeep]
      exact ⟨rfl, hdeep⟩
    · rw [if_neg hdeep]
      cases hpop : stack.popN count with
      | error fault => exact hshort hpop
      | ok given => exact .enter (Nat.lt_of_not_le hdeep) hpop
  | builtin b =>
    unfold dispatch
    dsimp only
    rw [ofExcept_bind]
    cases hpop : stack.popN count with
    | error fault => exact hshort hpop
    | ok given =>
      obtain ⟨arguments, rest⟩ := given
      dsimp only
      rw [bind_apply, modifyGet_apply]
      dsimp only
      cases hanswer : (host.respond b.id arguments m.memory).1 with
      | error message => exact trivial
      | ok v => exact .ask hpop hanswer
  | _ => exact trivial

/-- an instruction that is executed makes its step, or it is to blame for a fault -/
theorem ends_execute (host : Host σ) (frame : FrameId) (stack : Operands) (i : Instruction) (m : Machine σ) :
    Ends host frame i stack m (execute host frame stack i m) := by
  cases i with
  | halt => exact .halt
  | push c =>
    cases c with
    | function t => exact .function
    | _ => exact .constant rfl
  | reserve cell => exact .reserve
  | loadSelf =>
    rw [execute, bind_apply]
    dsimp only [get, getThe, MonadStateOf.get, EStateM.get]
    cases hrunning : m.store.running? frame with
    | none => exact ⟨rfl, hrunning⟩
    | some c => exact .loadSelf hrunning
  | loadImport module name =>
    rw [execute, bind_apply]
    dsimp only [get, getThe, MonadStateOf.get, EStateM.get]
    cases hexport : m.export? module name with
    | none => exact ⟨rfl, hexport⟩
    | some v => exact .loadImport hexport
  | load cell =>
    rw [execute, bind_apply]
    change Ends host frame (.load cell) stack m
      ((ofExcept (m.store.load frame cell) >>= fun v => pure (Flow.next (v :: stack)) : Run σ Flow) m)
    rw [ofExcept_bind]
    cases hload : m.store.load frame cell with
    | ok v => exact .load hload
    | error fault =>
      obtain ⟨rfl, hholder⟩ | ⟨rfl, hempty⟩ := Store.load_fault hload
      · exact ⟨cell, Or.inl rfl, rfl, hholder⟩
      · exact ⟨cell, rfl, rfl, hempty⟩
  | giveBack =>
    rw [execute, pop_bind]
    cases stack with
    | nil => exact Nat.zero_lt_one
    | cons v stack => exact .giveBack
  | pop =>
    rw [execute, pop_bind]
    cases stack with
    | nil => exact Nat.zero_lt_one
    | cons v stack => exact .pop
  | store cell =>
    rw [execute, pop_bind]
    cases stack with
    | nil => exact Nat.zero_lt_one
    | cons v stack =>
      dsimp only
      rw [bind_apply, assign]
      cases hholder : m.store.holder? frame cell.id with
      | none => exact ⟨cell, Or.inr rfl, rfl, hholder⟩
      | some holder => exact .store hholder
  | jumpIfFalse target =>
    rw [execute, pop_bind]
    cases stack with
    | nil => exact Nat.zero_lt_one
    | cons v stack =>
      dsimp only
      rw [ofExcept_bind]
      cases htest : v.asBool with
      | error fault =>
        obtain rfl := Value.asBool_fault htest
        exact trivial
      | ok test =>
        cases test with
        | true => exact .stay htest
        | false => exact .jump htest
  | dispatch count =>
    rw [execute, pop_bind]
    cases stack with
    | nil => exact Nat.zero_lt_succ count
    | cons callee stack => exact ends_dispatch host frame count callee stack m
  | makeList count =>
    rw [execute, ofExcept_bind]
    cases hpop : stack.popN count with
    | error fault =>
      obtain ⟨rfl, hlt⟩ := Operands.popN_error hpop
      exact hlt
    | ok given => exact .makeList hpop
  | subscript =>
    rw [execute, pop_bind]
    cases stack with
    | nil => exact Nat.zero_lt_two
    | cons index stack =>
      dsimp only
      rw [pop_bind]
      cases stack with
      | nil => exact Nat.one_lt_two
      | cons target stack =>
        dsimp only
        rw [ofExcept_bind]
        cases hfound : target.subscript index with
        | error fault =>
          obtain ⟨_, _, rfl⟩ := Value.subscript_fault hfound
          exact trivial
        | ok v => exact .subscript hfound
  | binary op =>
    rw [execute, pop_bind]
    cases stack with
    | nil => exact Nat.zero_lt_two
    | cons right stack =>
      dsimp only
      rw [pop_bind]
      cases stack with
      | nil => exact Nat.one_lt_two
      | cons left stack =>
        dsimp only
        rw [ofExcept_bind]
        cases hresult : op.apply left right with
        | error fault =>
          obtain rfl | ⟨_, _, rfl⟩ := BinaryOp.apply_fault hresult
          · exact trivial
          · exact trivial
        | ok v => exact .binary hresult

theorem Step.of_execute (h : execute host frame stack i m = .ok flow m') : Step host frame m i stack flow m' := by
  have hends := ends_execute host frame stack i m
  rw [h] at hends
  exact hends

theorem blames_of_execute {fault : RuntimeFault} (h : execute host frame stack i m = .error (.fault fault) m') :
    Blames frame i stack m fault := by
  have hends := ends_execute host frame stack i m
  rw [h] at hends
  exact hends

/-! ## Stack effects of steps -/

/-- where a flow leads, and how many operands there are -/
def Goes (i : Instruction) (place height : Nat) : Flow → Prop
  | .next stack => place + 1 ∈ i.leads place ∧ stack.length = height - i.takes + i.gives
  | .jump target stack => i = .jumpIfFalse target ∧ stack.length = height - i.takes + i.gives
  | .exit _ stack => (i = .halt ∨ i = .giveBack) ∧ stack.length = height - i.takes
  | .enter _ arguments stack => i = .dispatch arguments.length ∧ stack.length = height - i.takes

/-- how each instruction changes the height of the stack -/
theorem Step.effect (h : Step host frame m i stack flow m') (place : Nat) : Goes i place stack.length flow := by
  cases h with
  | halt => exact ⟨Or.inl rfl, rfl⟩
  | giveBack => exact ⟨Or.inr rfl, rfl⟩
  | jump => exact ⟨rfl, rfl⟩
  | enter deep given =>
    obtain ⟨hcount, hlength⟩ := Operands.popN_ok given
    refine ⟨by rw [hcount], ?_⟩
    simp only [List.length_cons, Instruction.takes]
    omega
  | ask given answer =>
    obtain ⟨_, hlength⟩ := Operands.popN_ok given
    refine ⟨List.mem_cons_self, ?_⟩
    simp only [List.length_cons, Instruction.takes, Instruction.gives]
    omega
  | makeList given =>
    obtain ⟨_, hlength⟩ := Operands.popN_ok given
    refine ⟨List.mem_cons_self, ?_⟩
    simp only [List.length_cons, Instruction.takes, Instruction.gives]
    omega
  | _ => exact ⟨List.mem_cons_self, rfl⟩

/-! ## Machines after steps -/

/-- calling a function changes nothing yet -/
theorem Step.of_enter {rest : Operands} {c : Closure} {arguments : List Value}
    (h : Step host frame m i stack (.enter c arguments rest) m') : m' = m := by
  cases h
  rfl

theorem Step.of_reserve {cell : Cell} (h : Step host frame m (.reserve cell) stack flow m') :
    m' = { m with store := m.store.reserve frame cell } := by
  cases h
  rfl

theorem Step.of_store {cell : Cell} (h : Step host frame m (.store cell) stack flow m') :
    ∃ v holder, m.store.holder? frame cell.id = some holder ∧
      m' = { m with store := m.store.put holder cell.id (some v) } := by
  cases h with
  | store found => exact ⟨_, _, found, rfl⟩

/-- leaving a body changes nothing -/
theorem Step.of_exit {left : Operands} {v : Value} (h : Step host frame m i stack (.exit v left) m') : m' = m := by
  cases h <;> rfl

/-- a body is left at the end of a module, or with the uppermost operand -/
theorem Step.exits {left : Operands} {v : Value} (h : Step host frame m i stack (.exit v left) m') :
    i = .halt ∨ i = .giveBack ∧ stack = v :: left := by
  cases h with
  | halt => exact Or.inl rfl
  | giveBack => exact Or.inr ⟨rfl, rfl⟩

/-- an instruction makes no frame, and a frame stays that of the call that it was made for -/
theorem Step.running (h : Step host frame m i stack flow m') :
    m'.store.frames.size = m.store.frames.size ∧ ∀ j, m'.store.running? j = m.store.running? j := by
  cases h with
  | reserve => exact ⟨Store.size_put _ _ _ _, Store.running?_put _ _ _ _⟩
  | store => exact ⟨Store.size_put _ _ _ _, Store.running?_put _ _ _ _⟩
  | _ => exact ⟨rfl, fun _ => rfl⟩

end Run

namespace Moment

variable {σ : Type} {host : Host σ} {q : Moment σ} {c : Closure} {m : Machine σ}

/-- the frame of a call is a new one, and the rest of the store is as it was -/
theorem Enters.opened {arguments : List Value} {rest : Operands} {inner : FrameId}
    (h : q.Enters host c arguments rest inner m) :
    inner = q.machine.store.frames.size ∧ m = { q.machine with
      store := (q.machine.store.newCall c).2.fill q.machine.store.frames.size
        ((c.template.parameters.zip arguments).map fun p => (p.1, some p.2)) } := by
  obtain ⟨i, m₁, hdoes, hopen⟩ := h
  rw [(Run.Step.of_execute hdoes.2).of_enter, Run.openCall_eq] at hopen
  cases hopen
  exact ⟨rfl, rfl⟩

/-- where a body ends, the machine stays as it is -/
theorem Leaves.machine_eq {v : Value} {left : Operands} (h : q.Leaves host v left m) : m = q.machine := by
  obtain ⟨_, _, _, rfl⟩ | ⟨i, hdoes⟩ := h
  · rfl
  · exact (Run.Step.of_execute hdoes.2).of_exit

end Moment

end TypedScript
