/-
A program: the checked modules of a graph, each after the modules it imports, with the scopes of all of them in one
arena. A module's links say which earlier module each of its import paths leads to.
-/
import TypedScript.Linking.Order
import TypedScript.Typing.Check

namespace TypedScript

structure LinkedModule where
  module : Module
  scopes : ModuleScopes
  /-- the place of each imported module in the program, by the path the import names -/
  links : Table String Nat
deriving Inhabited

structure Program where
  arena : Arena
  modules : List LinkedModule
deriving Inhabited

namespace Program

def empty : Program := ⟨.empty, []⟩

/-- the module the program was put together for -/
def root? (p : Program) : Option LinkedModule := p.modules.getLast?

def find? (p : Program) (key : String) : Option LinkedModule := p.modules.find? fun m => m.module.key = key

/-- what was found wrong with the modules, in the order of the modules -/
def diagnostics (p : Program) : List Diagnostic := p.modules.flatMap fun m => p.arena.diagnostics m.scopes.global

def hasErrors (p : Program) : Bool := p.modules.any fun m => p.arena.hasErrors m.scopes.global

/-- the keys of the modules -/
def order (p : Program) : List String := p.modules.map fun m => m.module.key

/-- the scopes of a module, checked against the modules it imports -/
def scopesOf (arena : Arena) (m : Module) (imports : Imports) : ModuleScopes × Arena :=
  match m.content with
  | .source body => checkModule arena body imports
  | .native native =>
    let (global, arena) := arena.newNative native.exports
    (⟨global, .empty⟩, arena)

/-- the places of a node's children in the program so far -/
def linksOf (g : Graph) (places : Table Nat Nat) : List (String × Nat) → Except InternalFault (List (String × Nat))
  | [] => .ok []
  | (path, child) :: children =>
    match places.find? child with
    | none => .error (.malformedGraph (g.key child))
    | some place => return (path, place) :: (← linksOf g places children)

/-- the global scopes that links lead to -/
def importsOf (p : Program) (links : List (String × Nat)) : Imports :=
  .ofList (links.filterMap fun l => (p.modules[l.2]?).map fun m => (l.1, m.scopes.global))

/-- check the modules of nodes one after the other and put them behind those checked before -/
def extend (g : Graph) : List Nat → Table Nat Nat → Program → Except InternalFault Program
  | [], _, p => .ok p
  | i :: order, places, p =>
    match g.node? i with
    | none => .error (.malformedGraph (g.key i))
    | some node => do
      let links ← linksOf g places node.children
      let (scopes, arena) := scopesOf p.arena node.module (p.importsOf links)
      extend g order (places.insert i p.modules.length)
        ⟨arena, p.modules ++ [⟨node.module, scopes, .ofList links⟩]⟩

end Program

/-- the program of a graph without rings -/
def link (g : Graph) : Except InternalFault Program := do
  let order ← g.topologicalOrder
  Program.extend g order .empty .empty

end TypedScript
