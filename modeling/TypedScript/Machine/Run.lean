/-
The stack machine. It runs the code of one body at a time over a frame and a stack of operands of its own; a call of a
function made by the program runs the function's code in the same way and comes back with its value, and a call of a
builtin asks the host. The machine keeps the exports of the modules that have run, counts the calls it is in the middle
of and refuses one call more than its limit; builtins do not count.

A run is given fuel, of which every instruction takes one unit, both from what follows it and from the call it makes.
-/
import TypedScript.Machine.Operation
import TypedScript.Machine.Store

namespace TypedScript

/-- the functions of the host: what each gives for its arguments, and how it changes what the host remembers. They are
taken neither to read nor to write frames and operand stacks, also where an argument is a function and so has a frame:
such a function is a value to keep or to give back. Functions made from templates that the host brings with it live in
`store`. -/
structure Host (σ : Type) where
  respond : BuiltinId → List Value → σ → Except String Value × σ
  store : Store

/-- the exports of a module, by name -/
abbrev Exports := Table String Value

structure Machine (σ : Type) where
  /-- how many calls may be open at a time -/
  limit : Nat
  /-- how many calls are open -/
  depth : Nat
  /-- the exports of the modules that have run -/
  modules : Table String Exports
  store : Store
  /-- what the host remembers -/
  memory : σ

/-- why a run ends without a value -/
inductive Stop
  | fault (fault : RuntimeFault)
  /-- the fuel is used up -/
  | outOfFuel
deriving DecidableEq, Inhabited

/-- running, which leaves the machine as it is where it stops -/
abbrev Run (σ : Type) := EStateM Stop (Machine σ)

/-- what comes after an instruction -/
inductive Flow
  | next (stack : Operands)
  | jump (target : Nat) (stack : Operands)
  | exit (value : Value) (stack : Operands)
  /-- a function made by the program is called -/
  | enter (callee : Closure) (arguments : List Value) (stack : Operands)

namespace Machine

variable {σ : Type}

def new (host : Host σ) (limit : Nat) (memory : σ) : Machine σ := ⟨limit, 0, .empty, host.store, memory⟩

/-- let modules import exports under a module's name -/
def register (m : Machine σ) (module : String) (exports : Exports) : Machine σ :=
  { m with modules := m.modules.insert module exports }

/-- let modules import the builtins of a native module -/
def registerNative (m : Machine σ) (native : NativeModule) : Machine σ :=
  m.register native.name (.ofList (native.builtins.map fun b => (b.name, .builtin b)))

def export? (m : Machine σ) (module name : String) : Option Value :=
  (m.modules.find? module).bind fun exports => exports.find? name

end Machine

namespace Run

variable {σ : Type}

/-- stop where a step of the machine faults -/
def ofExcept {α : Type} : Except RuntimeFault α → Run σ α
  | .ok a => return a
  | .error fault => throw (.fault fault)

/-- the value of a constant in a frame -/
def constant (frame : FrameId) : Constant → Run σ Value
  | .none => return .none
  | .int value => return .int value
  | .str value => return .str value
  | .bool value => return .bool value
  | .function template => modifyGet fun m =>
    let (c, store) := m.store.newClosure template frame
    (.closure c, { m with store })

/-- call what was popped with the uppermost `count` values -/
def dispatch (host : Host σ) (callee : Value) (count : Nat) (stack : Operands) : Run σ Flow := do
  match callee with
  | .closure c =>
    let m ← get
    if m.limit ≤ m.depth then throw (.fault (.callDepthExceeded m.limit))
    let (arguments, stack) ← ofExcept (stack.popN count)
    return .enter c arguments stack
  | .builtin b =>
    let (arguments, stack) ← ofExcept (stack.popN count)
    let answer ← modifyGet fun m =>
      let (answer, memory) := host.respond b.id arguments m.memory
      (answer, { m with memory })
    match answer with
    | .ok value => return .next (value :: stack)
    | .error message => throw (.fault (.host b.name message))
  | other => throw (.fault (.notCallable other.kind))

/-- give the nearest cell in reach of a frame a value -/
def assign (frame : FrameId) (cell : Cell) (value : Value) : Run σ Unit := fun m =>
  match m.store.holder? frame cell.id with
  | some holder => .ok () { m with store := m.store.put holder cell.id (some value) }
  | none => .error (.fault (.missingCell cell.id cell.name)) m

/-- one instruction, up to the call it may make -/
def execute (host : Host σ) (frame : FrameId) (stack : Operands) : Instruction → Run σ Flow
  | .halt => return .exit .none stack
  | .giveBack => do
    let (value, stack) ← ofExcept stack.pop
    return .exit value stack
  | .push c => do return .next ((← constant frame c) :: stack)
  | .pop => do
    let (_, stack) ← ofExcept stack.pop
    return .next stack
  | .reserve cell => do
    modify fun m => { m with store := m.store.reserve frame cell }
    return .next stack
  | .load cell => do
    let value ← ofExcept ((← get).store.load frame cell)
    return .next (value :: stack)
  | .store cell => do
    let (value, stack) ← ofExcept stack.pop
    assign frame cell value
    return .next stack
  | .loadSelf => do
    match (← get).store.running? frame with
    | some c => return .next (.closure c :: stack)
    | none => throw (.fault .noSelf)
  | .jumpIfFalse target => do
    let (condition, stack) ← ofExcept stack.pop
    if ← ofExcept condition.asBool then return .next stack else return .jump target stack
  | .dispatch count => do
    let (callee, stack) ← ofExcept stack.pop
    dispatch host callee count stack
  | .makeList count => do
    let (items, stack) ← ofExcept (stack.popN count)
    return .next (.list items :: stack)
  | .subscript => do
    let (index, stack) ← ofExcept stack.pop
    let (target, stack) ← ofExcept stack.pop
    let value ← ofExcept (target.subscript index)
    return .next (value :: stack)
  | .loadImport module name => do
    match (← get).export? module name with
    | some value => return .next (value :: stack)
    | none => throw (.fault (.missingExport module name))
  | .binary op => do
    let (right, stack) ← ofExcept stack.pop
    let (left, stack) ← ofExcept stack.pop
    let value ← ofExcept (op.apply left right)
    return .next (value :: stack)

/-- make cells for parameters and give them the arguments, as far as both go -/
def bindArguments (frame : FrameId) : List Cell → List Value → Run σ Unit
  | cell :: cells, value :: values => do
    modify fun m => { m with store := m.store.reserve frame cell }
    assign frame cell value
    bindArguments frame cells values
  | _, _ => return ()

/-- the frame of a call, with its arguments in place -/
def openCall (c : Closure) (arguments : List Value) : Run σ FrameId := do
  let frame ← modifyGet fun m =>
    let (frame, store) := m.store.newCall c
    (frame, { m with store })
  bindArguments frame c.template.parameters arguments
  return frame

/-- one call more is open while `body` runs, however it ends -/
def nested {α : Type} (body : Run σ α) : Run σ α := fun m =>
  match body { m with depth := m.depth + 1 } with
  | .ok a m => .ok a { m with depth := m.depth - 1 }
  | .error e m => .error e { m with depth := m.depth - 1 }

/-- run code from a place on; the value it ends with, and what is left on the stack. Code that is run to its end without
being left gives no value. -/
def code (host : Host σ) :
    (fuel : Nat) → Code → FrameId → (place : Nat) → Operands → Run σ (Value × Operands)
  | 0, _, _, _, _ => throw .outOfFuel
  | fuel + 1, body, frame, place, stack =>
    match body[place]? with
    | none => return (.none, stack)
    | some i => do
      match ← execute host frame stack i with
      | .next stack => code host fuel body frame (place + 1) stack
      | .jump target stack => code host fuel body frame target stack
      | .exit value stack => return (value, stack)
      | .enter c arguments stack =>
        let inner ← openCall c arguments
        let (value, _) ← nested (code host fuel c.template.code inner 0 [])
        code host fuel body frame (place + 1) (value :: stack)

end Run

/-- what running a module's body leaves behind -/
structure Evaluation where
  /-- the value of a `return` at the top level -/
  result : Value
  /-- the frame with the module's variables -/
  frame : FrameId
  /-- the operands left over -/
  stack : Operands
deriving Inhabited

/-- run a template as the body of a module, in a frame of its own -/
def Template.evaluate {σ : Type} (host : Host σ) (fuel : Nat) (t : Template) : Run σ Evaluation := do
  let frame ← modifyGet fun m =>
    let (frame, store) := m.store.newRoot
    (frame, { m with store })
  let (result, stack) ← Run.code host fuel t.code frame 0 []
  return ⟨result, frame, stack⟩

end TypedScript
