/-
The tool chain: from the source text of a root module to the value of the program. `check` puts the program together and
leaves what is found wrong with it on the program; `compile` lays down the code of every module; `execute` runs the
modules, each after those it imports; `run` does all of this for a program nothing is wrong with.
-/
import TypedScript.Code.Compile
import TypedScript.Machine.Standard

namespace TypedScript

/-- why there is no program, or no value of it -/
inductive ToolchainError
  | unparsable (error : SyntaxError)
  | graph (error : GraphError)
  | diagnostics (found : List Diagnostic)
  | internal (fault : InternalFault)
  | runtime (fault : RuntimeFault)
  /-- the fuel of a run was used up -/
  | unfinished
deriving DecidableEq, Inhabited

namespace ToolchainError

def message : ToolchainError → String
  | unparsable error => "syntax error: " ++ error.message
  | graph error => error.message
  | diagnostics found => "type checking failed with " ++ toString found.length ++ " diagnostic(s)"
  | internal fault => "internal fault: " ++ fault.message
  | runtime fault => "runtime fault: " ++ fault.message
  | unfinished => "the run did not end"

def ofStop : Stop → ToolchainError
  | .fault fault => runtime fault
  | .outOfFuel => unfinished

end ToolchainError

structure Toolchain where
  /-- the modules that are imported by a reserved name -/
  natives : List NativeModule
  /-- how many calls may be open at a time -/
  maxCallDepth : Nat
  loader : Loader
deriving Inhabited

/-- the value of a program -/
structure ModuleValue where
  /-- the value of a `return` at the top level of the root module -/
  result : Value
  /-- the exports of the root module -/
  exports : Exports
deriving Inhabited

/-- what is at the root of a program: a source text, a tree, or the text that the loader has at the path -/
inductive RootSource
  | file
  | source (text : String)
  | tree (body : Block)
deriving Inhabited

namespace Toolchain

def defaultMaxCallDepth : Nat := 512

/-- the standard module, the usual limit, and no files -/
def default : Toolchain := ⟨[StandardFunction.module], defaultMaxCallDepth, .disk .empty⟩

/-- one more native module, in the place of any of its name -/
def withNative (t : Toolchain) (native : NativeModule) : Toolchain :=
  { t with natives := t.natives.filter (fun n => n.name ≠ native.name) ++ [native] }

def withoutNatives (t : Toolchain) : Toolchain := { t with natives := [] }

def withMaxCallDepth (t : Toolchain) (limit : Nat) : Toolchain := { t with maxCallDepth := limit }

def withLoader (t : Toolchain) (loader : Loader) : Toolchain := { t with loader }

/-- the tree of the root module -/
def rootTree (t : Toolchain) (path : String) : RootSource → Except ToolchainError Block
  | .tree body => .ok body
  | .source text => (parse text).mapError .unparsable
  | .file => do
    let source ← (t.loader.load path).mapError fun e => .graph (.unreadable path e.message)
    (parse source).mapError .unparsable

/-- the checked program of a root module -/
def check (t : Toolchain) (path : String) (root : RootSource) : Except ToolchainError Program := do
  let path := (Path.ofString path).normalize.render
  let body ← t.rootTree path root
  let g ← (Graph.build path body t.loader t.natives).mapError .graph
  g.detectCycles.mapError .graph
  (link g).mapError .internal

/-- the code of every module of a program -/
def compile (p : Program) : Except ToolchainError (List (Option Template)) := p.compile.mapError .internal

/-- fuel for any run of the templates: no jump leads back, so that each open call takes each of its instructions once -/
def fuel (limit : Nat) (templates : List (Option Template)) : Nat :=
  let longest := templates.foldl (fun n t => max n ((t.map Template.longest).getD 0)) 0
  (limit + 1) * (longest + 2)

/-- the values of exports, read in the frame in which the module's body ran -/
def collect {σ : Type} (scope : Option Scope) (frame : FrameId) :
    List (String × Ty) → Exports → Machine σ → Except ToolchainError Exports
  | [], collected, _ => .ok collected
  | (name, _) :: exports, collected, m =>
    match (scope.bind fun s => (s.variableIndex? name).bind s.variableAt?) with
    | none => .error (.internal (.missingVariable name))
    | some v =>
      match m.store.load frame v.cell with
      | .error fault => .error (.runtime fault)
      | .ok value => collect scope frame exports (collected.insert name value) m

/-- run one module and register its exports; a source module has a value -/
def runModule {σ : Type} (host : Host σ) (fuel : Nat) (p : Program) (linked : LinkedModule)
    (template : Option Template) (m : Machine σ) : Except ToolchainError (Option ModuleValue) × Machine σ :=
  match linked.module.content, template with
  | .native native, _ => (.ok none, m.registerNative native)
  | .source _, none => (.error (.internal (.uncheckedModule linked.module.key)), m)
  | .source _, some template =>
    match template.evaluate host fuel m with
    | .error stop m => (.error (.ofStop stop), m)
    | .ok evaluation m =>
      let exported := p.arena.exports linked.scopes.global
      match collect (p.arena.get? linked.scopes.global) evaluation.frame exported .empty m with
      | .error e => (.error e, m)
      | .ok exports => (.ok (some ⟨evaluation.result, exports⟩), m.register linked.module.key exports)

/-- run modules one after the other; the value is that of the last source module -/
def runModules {σ : Type} (host : Host σ) (fuel : Nat) (p : Program) :
    List (LinkedModule × Option Template) → Option ModuleValue → Machine σ →
      Except ToolchainError (Option ModuleValue) × Machine σ
  | [], last, m => (.ok last, m)
  | (linked, template) :: rest, last, m =>
    match runModule host fuel p linked template m with
    | (.error e, m) => (.error e, m)
    | (.ok value, m) => runModules host fuel p rest (value.or last) m

/-- run a checked program, whatever was found wrong with it; what the host remembers is kept also where the run fails -/
def execute {σ : Type} (t : Toolchain) (host : Host σ) (p : Program) (memory : σ) :
    Except ToolchainError ModuleValue × σ :=
  match compile p with
  | .error e => (.error e, memory)
  | .ok templates =>
    let machine := Machine.new host t.maxCallDepth memory
    match runModules host (fuel t.maxCallDepth templates) p (p.modules.zip templates) none machine with
    | (.error e, m) => (.error e, m.memory)
    | (.ok none, m) => (.error (.internal (.uncheckedModule "<root>")), m.memory)
    | (.ok (some value), m) => (.ok value, m.memory)

/-- check a root module and run its program, unless something is wrong with it -/
def run {σ : Type} (t : Toolchain) (host : Host σ) (path : String) (root : RootSource) (memory : σ) :
    Except ToolchainError ModuleValue × σ :=
  match t.check path root with
  | .error e => (.error e, memory)
  | .ok p => if p.hasErrors then (.error (.diagnostics p.diagnostics), memory) else t.execute host p memory

end Toolchain

end TypedScript
