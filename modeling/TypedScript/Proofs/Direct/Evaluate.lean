/-
Direct evaluation: what a program means, read off its bound trees, without code, operands or jumps. Every module's body
and every call of a function has a frame of its own. At first each variable that the body declares has an empty slot in
it, and each parameter that got an argument has the argument; a parameter without an argument has no slot, and an
argument without a parameter is dropped. A value is computed by recursion over an expression, and a statement either
gives way to the next one or gives back the value of the whole body. A function can be called as often as calls are left
(`invoke`).
-/
import TypedScript.Linking.Program
import TypedScript.Machine.Operation
import TypedScript.Machine.Store
import TypedScript.Proofs.Bound.Tree

namespace TypedScript

/-- put contents into cells of a frame, one after the other -/
def Store.fill {φ : Type} (s : Store φ) (frame : FrameId) (slots : List (Cell × Option (Value φ))) : Store φ :=
  slots.foldl (fun s slot => s.put frame slot.1.id slot.2) s

namespace Direct

/-- values whose functions are made from function literals -/
abbrev Val := Value Bound.Function

abbrev Exports := Table String Val

/-- the functions of the host: what each gives for its arguments, and how it changes what the host remembers -/
structure Host (σ : Type) where
  respond : BuiltinId → List Val → σ → Except String Val × σ

structure State (σ : Type) where
  /-- the exports of the modules that have run -/
  modules : Table String Exports
  store : Store Bound.Function
  /-- what the host remembers -/
  memory : σ

/-- evaluation, which leaves the state as it is where it faults -/
abbrev Eval (σ : Type) := EStateM RuntimeFault (State σ)

/-- what the frame of a call holds at first -/
def slots (f : Bound.Function) (arguments : List Val) : List (Cell × Option Val) :=
  (f.params.zip arguments).map (fun p => (p.1, some p.2)) ++ f.locals.map fun cell => (cell, none)

variable {σ : Type}

def ofExcept {α : Type} : Except RuntimeFault α → Eval σ α
  | .ok a => return a
  | .error fault => throw fault

/-! ## Parts -/

def load (frame : FrameId) (cell : Cell) : Eval σ Val := do ofExcept ((← get).store.load frame cell)

def assign (frame : FrameId) (cell : Cell) (value : Val) : Eval σ Unit := do
  let store ← ofExcept ((← get).store.store frame cell value)
  modify fun s => { s with store }

/-- the function whose call a frame is -/
def selfReference (frame : FrameId) : Eval σ Val := do
  match (← get).store.running? frame with
  | some c => return .closure c
  | none => throw .noSelf

/-- a new function over a frame -/
def makeFunction (frame : FrameId) (f : Bound.Function) : Eval σ Val :=
  modifyGet fun s => (.closure (s.store.newClosure f frame).1, { s with store := (s.store.newClosure f frame).2 })

/-- the answer of the host -/
def ask (host : Host σ) (b : Builtin) (arguments : List Val) : Eval σ Val := do
  let answer ← modifyGet fun s =>
    ((host.respond b.id arguments s.memory).1, { s with memory := (host.respond b.id arguments s.memory).2 })
  match answer with
  | .ok value => return value
  | .error message => throw (.host b.name message)

def export? (s : State σ) (module name : String) : Option Val :=
  (s.modules.find? module).bind fun exports => exports.find? name

/-- an export of a module that has run -/
def imported (module name : String) : Eval σ Val := do
  match export? (← get) module name with
  | some value => return value
  | none => throw (.missingExport module name)

/-- give variables the exports of a module that they are imported as -/
def fetch (frame : FrameId) (module : String) : List (String × Cell) → Eval σ Unit
  | [] => return ()
  | (name, cell) :: names => do
    let value ← imported module name
    assign frame cell value
    fetch frame module names

/-- call a value, where `call` calls the functions of the program -/
def apply (host : Host σ) (call : Closure Bound.Function → List Val → Eval σ Val) (callee : Val)
    (arguments : List Val) : Eval σ Val :=
  match callee with
  | .closure c => call c arguments
  | .builtin b => ask host b arguments
  | other => throw (.notCallable other.kind)

/-! ## Trees -/

mutual

def expr (host : Host σ) (call : Closure Bound.Function → List Val → Eval σ Val) (frame : FrameId) :
    Bound.Expr → Eval σ Val
  | .number value => return .int value
  | .text value => return .str value
  | .truth value => return .bool value
  | .read cell => load frame cell
  | .self => selfReference frame
  | .list items => return .list (← exprs host call frame items)
  | .function f => makeFunction frame f
  | .call callee arguments => do
    let given ← exprs host call frame arguments
    let function ← expr host call frame callee
    apply host call function given
  | .assign cell value => do
    let v ← expr host call frame value
    assign frame cell v
    return .none
  | .binary op left right => do
    let l ← expr host call frame left
    let r ← expr host call frame right
    ofExcept (op.apply l r)
  | .subscript target index => do
    let t ← expr host call frame target
    let i ← expr host call frame index
    ofExcept (t.subscript i)

/-- the values of expressions, from left to right -/
def exprs (host : Host σ) (call : Closure Bound.Function → List Val → Eval σ Val) (frame : FrameId) :
    List Bound.Expr → Eval σ (List Val)
  | [] => return []
  | e :: es => do
    let v ← expr host call frame e
    let vs ← exprs host call frame es
    return v :: vs

end

mutual

/-- what a statement gives back, if it ends the body -/
def stmt (host : Host σ) (call : Closure Bound.Function → List Val → Eval σ Val) (frame : FrameId) :
    Bound.Stmt → Eval σ (Option Val)
  | .cond condition body => do
    let test ← expr host call frame condition
    if ← ofExcept test.asBool then stmts host call frame body else return none
  | .declare cell value => do
    let v ← expr host call frame value
    assign frame cell v
    return none
  | .giveBack none => return some .none
  | .giveBack (some e) => return some (← expr host call frame e)
  | .eval e => do
    let _ ← expr host call frame e
    return none
  | .use module names => do
    fetch frame module names
    return none

def stmts (host : Host σ) (call : Closure Bound.Function → List Val → Eval σ Val) (frame : FrameId) :
    List Bound.Stmt → Eval σ (Option Val)
  | [] => return none
  | s :: ss => do
    match ← stmt host call frame s with
    | some v => return some v
    | none => stmts host call frame ss

end

/-! ## Calls -/

/-- the frame of a call -/
def openCall (c : Closure Bound.Function) (arguments : List Val) : Eval σ FrameId :=
  modifyGet fun s =>
    ((s.store.newCall c).1,
      { s with store := (s.store.newCall c).2.fill (s.store.newCall c).1 (slots c.template arguments) })

/-- call a function of the program where only so many calls more may be open at a time; a body that gives nothing back
gives no value -/
def invoke (host : Host σ) (limit : Nat) : (remaining : Nat) → Closure Bound.Function → List Val → Eval σ Val
  | 0, _, _ => throw (.callDepthExceeded limit)
  | remaining + 1, c, arguments => do
    let frame ← openCall c arguments
    let result ← stmts host (invoke host limit remaining) frame c.template.body
    return result.getD .none

/-! ## Modules -/

inductive Module
  | native (module : NativeModule)
  /-- the module with a key, its body, and the cells of the variables it exports -/
  | source (key : String) (body : Bound.Function) (exports : List (String × Cell))

/-- the value of a module -/
structure ModuleValue where
  result : Val
  exports : Exports

/-- the frame of a module's body -/
def openModule (body : Bound.Function) : Eval σ FrameId :=
  modifyGet fun s =>
    (s.store.newRoot.1, { s with store := s.store.newRoot.2.fill s.store.newRoot.1 (slots body []) })

/-- the values of exports -/
def collect (frame : FrameId) : List (String × Cell) → Exports → Eval σ Exports
  | [], collected => return collected
  | (name, cell) :: exports, collected => do
    let value ← load frame cell
    collect frame exports (collected.insert name value)

/-- let modules import exports under a module's name -/
def register (module : String) (exports : Exports) : Eval σ Unit :=
  modify fun s => { s with modules := s.modules.insert module exports }

/-- run the body of a source module and register what it exports -/
def runSource (host : Host σ) (limit : Nat) (key : String) (body : Bound.Function) (exports : List (String × Cell)) :
    Eval σ ModuleValue := do
  let frame ← openModule body
  let result ← stmts host (invoke host limit limit) frame body.body
  let exported ← collect frame exports .empty
  register key exported
  return ⟨result.getD .none, exported⟩

/-- run modules one after the other; the value is that of the last source module -/
def runModules (host : Host σ) (limit : Nat) : List Module → Option ModuleValue → Eval σ (Option ModuleValue)
  | [], last => return last
  | .native native :: modules, last => do
    register native.name (.ofList (native.builtins.map fun b => (b.name, .builtin b)))
    runModules host limit modules last
  | .source key body exports :: modules, _ => do
    let value ← runSource host limit key body exports
    runModules host limit modules (some value)

/-- run modules from the start; what the host remembers is kept also where the run fails -/
def execute (host : Host σ) (limit : Nat) (modules : List Module) (memory : σ) :
    Except RuntimeFault (Option ModuleValue) × σ :=
  match runModules host limit modules none ⟨.empty, .empty, memory⟩ with
  | .ok value s => (.ok value, s.memory)
  | .error fault s => (.error fault, s.memory)

end Direct

/-- the cells of the variables that a module exports -/
def Program.exported (p : Program) (global : ScopeId) : List (String × Cell) :=
  (p.arena.exports global).filterMap fun e =>
    ((p.arena.get? global).bind fun s => s.find? e.1).map fun v => (e.1, v.cell)

/-- a module of a program with its bound tree -/
def Program.directModule (p : Program) (m : LinkedModule × Option Bound.Function) : Option Direct.Module :=
  match m.1.module.content, m.2 with
  | .native native, _ => some (.native native)
  | .source _, some body => some (.source m.1.module.key body (p.exported m.1.scopes.global))
  | .source _, none => none

/-- the modules of a program with their bound trees -/
def Program.direct (p : Program) (trees : List (Option Bound.Function)) : List Direct.Module :=
  (p.modules.zip trees).filterMap p.directModule

end TypedScript
